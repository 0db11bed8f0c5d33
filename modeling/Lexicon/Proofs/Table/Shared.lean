import Mathlib
import Lexicon.Proofs.Arena.Layout
import Lexicon.Proofs.Table.Refinement

/-!
# Tables sharing one arena

Any number of symbol tables may keep their names in one arena. Every lookup and every search
first copies its name into the arena, and gives the copy back unless it created a symbol; so does
a call that fails after its copy was made. So whatever the tables did, and whatever became of them
since, the arena holds the canonical names of the symbols they created and nothing else: one
allocation per symbol, and the bytes of its name. A call that creates nothing, failed calls
included, leaves the same chunks behind, or one more empty chunk that it opened because the copy
did not fit the active one.

* `Arena.storedBytes`: the bytes that all chunks hold together.
* `Arena.Restored`: what a call that kept no string may leave behind.
* `SharedRun`: tables created on a fresh arena, through any sequence of calls on them, failed
  ones included, with the names of the symbols they created.
* `sharedRun_ledger`: the arena's accounts after every such run.
-/

namespace Lexicon

/-- Replacing one element of a list changes the sum of a measure over it by the difference of the
two elements' measures. -/
theorem sum_map_modify {α : Type} (g : α → Nat) (f : α → α) {l : List α} {i : Nat}
    (hi : i < l.length) : ((l.modify i f).map g).sum + g l[i] = (l.map g).sum + g (f l[i]) := by
  have hl : l = l.take i ++ l[i] :: l.drop (i + 1) := by
    rw [List.getElem_cons_drop, List.take_append_drop]
  have hsum := congrArg (fun l => (l.map g).sum) hl
  rw [List.modify_eq_take_cons_drop hi]
  simp only [List.map_append, List.map_cons, List.sum_append, List.sum_cons] at hsum ⊢
  omega

namespace Arena

variable {a a₁ a' : Arena} {len i : Nat}

/-- The bytes that all chunks hold together. -/
def storedBytes (a : Arena) : Nat := (a.chunks.toList.map (·.bytes.size)).sum

theorem storedBytes_of_push {c : Chunk} (h : a'.chunks = a.chunks.push c) :
    a'.storedBytes = a.storedBytes + c.bytes.size := by
  simp [storedBytes, h]

theorem storedBytes_of_modify (f : Chunk → Chunk) {c : Chunk} (hc : a.chunks[i]? = some c)
    (h : a'.chunks = a.chunks.modify i f) :
    a'.storedBytes + c.bytes.size = a.storedBytes + (f c).bytes.size := by
  obtain ⟨hi, rfl⟩ := Array.getElem?_eq_some_iff.mp hc
  have hi' : i < a.chunks.toList.length := by simpa using hi
  simpa [storedBytes, h] using sum_map_modify (·.bytes.size) f hi'

/-- Whether the active chunk lacks room for `len` more bytes; so too when no chunk is open. -/
def LacksRoom (a : Arena) (len : Nat) : Prop :=
  ∀ c, a.chunks.back? = some c → c.capacity - c.bytes.size < len

/-- The arena `a'` as a call that kept no string of `len` bytes leaves `a`: as many allocations,
and the same chunks, or one more empty chunk, opened because the active chunk had no room. -/
def Restored (a : Arena) (len : Nat) (a' : Arena) : Prop :=
  a'.allocations = a.allocations ∧
    (a'.chunks = a.chunks ∨
      a.LacksRoom len ∧ ∃ c : Chunk, c.bytes = .empty ∧ a'.chunks = a.chunks.push c)

theorem Restored.refl (a : Arena) (len : Nat) : a.Restored len a := ⟨rfl, .inl rfl⟩

/-- A restored arena holds every old chunk as it was. -/
theorem Restored.getElem? (hr : a.Restored len a') {i : Nat} {c : Chunk}
    (hc : a.chunks[i]? = some c) : a'.chunks[i]? = some c := by
  rcases hr.2 with hch | ⟨-, c₀, -, hch⟩
  · rw [hch, hc]
  · have hi : i < a.chunks.size := (Array.getElem?_eq_some_iff.mp hc).1
    rw [hch, Array.getElem?_push, if_neg (Nat.ne_of_lt hi), hc]

theorem Restored.keeps (hr : a.Restored len a') : a.Keeps a' :=
  keeps_of_chunks fun _ c hc => ⟨c, "", hr.getElem? hc, by simp⟩

theorem Restored.storedBytes (hr : a.Restored len a') : a'.storedBytes = a.storedBytes := by
  rcases hr.2 with hch | ⟨-, c, hc, hch⟩
  · simp [Arena.storedBytes, hch]
  · simp [storedBytes_of_push hch, hc]

section Allocating

variable [Allocator]

/-- The chunk chosen for `len` bytes is the active one, or an empty one opened after it because
the active chunk had no room. -/
theorem chunkFor_chunks (h : a.chunkFor len = .ok (i, a₁)) :
    a₁.chunks = a.chunks ∨
      a.LacksRoom len ∧ ∃ c : Chunk, c.bytes = .empty ∧ a₁.chunks = a.chunks.push c := by
  unfold chunkFor at h
  split at h
  · next c hc =>
    split at h
    · cases h
      exact .inl rfl
    · next hroom =>
      obtain ⟨-, -, -, hch⟩ := openChunk_eq_ok h
      refine .inr ⟨fun c' hc' => ?_, _, rfl, hch⟩
      rw [hc] at hc'
      cases hc'
      omega
  · next hc =>
    obtain ⟨-, -, -, hch⟩ := openChunk_eq_ok h
    exact .inr ⟨fun c' hc' => by simp [hc] at hc', _, rfl, hch⟩

/-- A successful allocation adds one allocation and its bytes. -/
theorem allocBytes_accounts {bytes : ByteArray} {h : Handle} (hok : a.allocBytes bytes = .ok (h, a')) :
    a'.allocations = a.allocations + 1 ∧ a'.storedBytes = a.storedBytes + bytes.size := by
  obtain ⟨a₁, c, hchunk, hc, -, -, ha'⟩ := allocBytes_eq_ok hok
  obtain ⟨-, -, hn, -⟩ := chunkFor_eq_ok hchunk
  -- a chunk the choice opened is empty, so the stored bytes are those of `a` until the append
  have hstored : a₁.storedBytes = a.storedBytes := by
    rcases chunkFor_chunks hchunk with hch | ⟨-, c₀, hc₀, hch⟩
    · simp [storedBytes, hch]
    · simp [storedBytes_of_push hch, hc₀]
  have hch : a'.chunks = a₁.chunks.modify h.chunk fun c => { c with bytes := c.bytes ++ bytes } := by
    rw [ha']
  have happ := storedBytes_of_modify _ hc hch
  simp only [ByteArray.size_append] at happ
  exact ⟨by rw [ha', hn], by omega⟩

theorem allocLower_accounts {n : String} {h : Handle} (hok : a.allocLower n = .ok (h, a')) :
    a'.allocations = a.allocations + 1 ∧
      a'.storedBytes = a.storedBytes + (canonical n).utf8ByteSize := by
  rw [allocLower_eq] at hok
  simpa using allocBytes_accounts hok

/-- A failed allocation restores the arena: the chunk its choice may have opened is empty. -/
theorem restored_afterFailedAlloc (a : Arena) (len : Nat) :
    a.Restored len (a.afterFailedAlloc len) := by
  unfold afterFailedAlloc
  split
  · split
    · next hchunk =>
      obtain ⟨-, -, hn, -⟩ := chunkFor_eq_ok hchunk
      exact ⟨hn, chunkFor_chunks hchunk⟩
    · exact .refl a len
  · exact .refl a len

end Allocating

end Arena

namespace Table

variable {t t' : Table} {a a₁ a' : Arena} {n : String} {held : Bool} {id : SymbolId}
  {ts : List Table} {names : List String}

section Lookups

variable [Allocator]

/-- A lowercase copy given back at once leaves the arena restored. -/
theorem restored_giveBack {trial : Arena.Handle} (hok : a.allocLower n = .ok (trial, a₁)) :
    a.Restored (canonical n).utf8ByteSize (giveBack a₁ trial) := by
  obtain ⟨a₂, hchunk, hre⟩ := Arena.reclaimTail_allocBytes (by rwa [Arena.allocLower_eq] at hok)
  obtain ⟨-, -, hn, -⟩ := Arena.chunkFor_eq_ok hchunk
  rw [size_toUTF8] at hchunk
  simp only [giveBack, hre, Option.map_some, Option.getD_some]
  exact ⟨hn, (Arena.chunkFor_chunks hchunk :)⟩

/-- A lookup that fails after its trial copy leaves the table and arena that a search of the name
leaves: the key's node splayed up, and the copy given back. -/
theorem find_eq_afterFailedGet {sh : Shared} (hfree : sh.held = false) {trial : Arena.Handle}
    (halloc : sh.arena.allocLower n = .ok (trial, a₁)) :
    ∃ r, t.find sh n = .ok (r, t.afterFailedGet sh n) := by
  unfold find afterFailedGet
  simp only [hfree, Bool.false_eq_true, if_false, halloc, except_ok_bind]
  cases t.tree.search (t.hasher.hash (canonical n)) <;> exact ⟨_, rfl⟩

/-- A failed lookup whose trial copy could not be made leaves its table as it was. -/
theorem afterFailedGet_of_copy_error {e : StoreError} (halloc : a.allocLower n = .error e) :
    t.afterFailedGet ⟨a, false⟩ n = (t, a.afterFailedAlloc n.utf8ByteSize) := by
  simp [afterFailedGet, halloc]

/-- What a failed lookup leaves of the arena is restored: it refused before the copy, or the copy
failed, or the copy was given back. -/
theorem restored_afterFailedGet {sh : Shared} (h : t.afterFailedGet sh n = (t', a')) :
    sh.arena.Restored (canonical n).utf8ByteSize a' := by
  unfold afterFailedGet at h
  split at h
  · cases h
    exact .refl _ _
  · split at h
    · cases h
      rw [utf8ByteSize_canonical]
      exact Arena.restored_afterFailedAlloc _ _
    · next halloc =>
      cases h
      exact restored_giveBack halloc

theorem restored_afterFailedFind {sh : Shared} (h : t.afterFailedFind sh n = (t', a')) :
    sh.arena.Restored (canonical n).utf8ByteSize a' := by
  unfold afterFailedFind at h
  split at h
  · cases h
    exact .refl _ _
  · cases h
    rw [utf8ByteSize_canonical]
    exact Arena.restored_afterFailedAlloc _ _

/-- What a failed lookup leaves is reached by successful calls: a search of the name, or a change
of the arena that keeps every name. -/
theorem Reachable.afterFailedGet {sh : Shared} (hr : Reachable t sh.arena)
    (h : t.afterFailedGet sh n = (t', a')) : Reachable t' a' := by
  have hkeeps := (restored_afterFailedGet h).keeps
  have hleft := h
  unfold Table.afterFailedGet at h
  split at h
  · cases h
    exact hr
  · next hheld =>
    split at h
    · cases h
      exact .share hr hkeeps
    · next halloc =>
      -- the copy was made: what is left is what a search of the name leaves
      obtain ⟨r, hfind⟩ := find_eq_afterFailedGet (t := t) (by simpa using hheld) halloc
      rw [hleft] at hfind
      exact .find hr hfind

theorem Reachable.afterFailedFind {sh : Shared} (hr : Reachable t sh.arena)
    (h : t.afterFailedFind sh n = (t', a')) : Reachable t' a' := by
  have hkeeps := (restored_afterFailedFind h).keeps
  unfold Table.afterFailedFind at h
  split at h <;> cases h
  · exact hr
  · exact .share hr hkeeps

/-- A lookup of a bound name keeps nothing in the arena. -/
theorem WellFormed.get_restored (hw : t.WellFormed a) (hm : canonical n ∈ (t.bindings a).map (·.1))
    (h : t.get ⟨a, held⟩ n = .ok (id, t', a')) : a.Restored (canonical n).utf8ByteSize a' := by
  obtain ⟨⟨c, id₀, k⟩, hx, rfl⟩ := List.mem_map.mp hm
  obtain ⟨-, trial, a₁, halloc, hit | push | ins⟩ := get_eq_ok h
  · obtain ⟨-, -, -, -, rfl⟩ := hit
    exact restored_giveBack halloc
  · obtain ⟨tree, b, hs, hf, -⟩ := push
    exact absurd hf (hw.find_ne_none_of_mem (Arena.allocLower_keeps halloc) hx hs)
  · obtain ⟨tree, hs, -⟩ := ins
    exact absurd hs (hw.search_ne_none_of_mem hx)

/-- A lookup of an unbound name keeps its trial copy as the new symbol's name: one allocation
more, and the bytes of the canonical name. -/
theorem WellFormed.get_accounts (hw : t.WellFormed a) (hn : canonical n ∉ (t.bindings a).map (·.1))
    (h : t.get ⟨a, held⟩ n = .ok (id, t', a')) :
    a'.allocations = a.allocations + 1 ∧
      a'.storedBytes = a.storedBytes + (canonical n).utf8ByteSize := by
  obtain ⟨-, trial, a₁, halloc, hit | push | ins⟩ := get_eq_ok h
  · obtain ⟨tree, hs, hf, -⟩ := hit
    obtain ⟨k, hm⟩ := hw.mem_of_find_some (Arena.allocLower_keeps halloc) hs hf
    exact absurd (List.mem_map.mpr ⟨_, hm, rfl⟩) hn
  · obtain ⟨-, -, -, -, -, -, rfl⟩ := push
    exact Arena.allocLower_accounts halloc
  · obtain ⟨-, -, -, -, -, rfl⟩ := ins
    exact Arena.allocLower_accounts halloc

/-- A search keeps nothing in the arena. -/
theorem find_restored {r : Option SymbolId} (h : t.find ⟨a, held⟩ n = .ok (r, t', a')) :
    a.Restored (canonical n).utf8ByteSize a' := by
  obtain ⟨-, trial, a₁, halloc, rfl, -⟩ := find_eq_ok h
  exact restored_giveBack halloc

end Lookups

section Runs

variable [Allocator]

/-- Symbol tables keeping their names in one arena that nothing else uses: from a fresh arena,
through any sequence of calls on them made one after another, with the canonical names of the
symbols they created in order of creation. A lookup creates a symbol exactly when its table has
no binding of the name. A call that fails leaves its table and the arena as `afterFailedGet` or
`afterFailedFind` says. Tables may be created at any time, and emptied or dropped. -/
inductive SharedRun : Arena → List Table → List String → Prop
  | start (config : Arena.Config) : SharedRun (Arena.empty config) [] []
  | create {a : Arena} {ts : List Table} {names : List String} (H : Hasher) :
      SharedRun a ts names → SharedRun a (ts ++ [Table.empty H]) names
  | get {a a' : Arena} {ts : List Table} {names : List String} {i : Nat} {t t' : Table}
      {n : String} {id : SymbolId} :
      SharedRun a ts names → ts[i]? = some t → t.get ⟨a, false⟩ n = .ok (id, t', a') →
      SharedRun a' (ts.set i t')
        (if canonical n ∈ (t.bindings a).map (·.1) then names else names ++ [canonical n])
  | find {a a' : Arena} {ts : List Table} {names : List String} {i : Nat} {t t' : Table}
      {n : String} {r : Option SymbolId} :
      SharedRun a ts names → ts[i]? = some t → t.find ⟨a, false⟩ n = .ok (r, t', a') →
      SharedRun a' (ts.set i t') names
  | getFailed {a a' : Arena} {ts : List Table} {names : List String} {i : Nat} {t t' : Table}
      {n : String} {e : StoreError} :
      SharedRun a ts names → ts[i]? = some t → t.get ⟨a, false⟩ n = .error e →
      t.afterFailedGet ⟨a, false⟩ n = (t', a') → SharedRun a' (ts.set i t') names
  | findFailed {a a' : Arena} {ts : List Table} {names : List String} {i : Nat} {t t' : Table}
      {n : String} {e : StoreError} :
      SharedRun a ts names → ts[i]? = some t → t.find ⟨a, false⟩ n = .error e →
      t.afterFailedFind ⟨a, false⟩ n = (t', a') → SharedRun a' (ts.set i t') names
  | setKind {a : Arena} {ts : List Table} {names : List String} {i : Nat} {t t' : Table}
      {id : SymbolId} {k : Kind} :
      SharedRun a ts names → ts[i]? = some t → t.setKind id k = some t' →
      SharedRun a (ts.set i t') names
  | clear {a : Arena} {ts : List Table} {names : List String} {i : Nat} {t : Table} :
      SharedRun a ts names → ts[i]? = some t → SharedRun a (ts.set i t.clear.2) names
  | drop {a : Arena} {ts : List Table} {names : List String} (i : Nat) :
      SharedRun a ts names → SharedRun a (ts.eraseIdx i) names

/-- Every table of a shared run is in a state it reaches alone, with the calls of the other
tables as changes of the arena that keep every name. -/
theorem SharedRun.reachable (hr : SharedRun a ts names) : ∀ t ∈ ts, Reachable t a := by
  induction hr with
  | start config => exact fun t ht => absurd ht List.not_mem_nil
  | create H _ ih =>
    intro t ht
    rcases List.mem_append.mp ht with ht | ht
    · exact ih t ht
    · rw [List.mem_singleton.mp ht]
      exact .empty H _
  | get _ hi hg ih =>
    intro u hu
    rcases List.mem_or_eq_of_mem_set hu with hu | rfl
    · exact .share (ih u hu) (get_keeps hg)
    · exact .get (ih _ (List.mem_of_getElem? hi)) hg
  | find _ hi hf ih =>
    intro u hu
    rcases List.mem_or_eq_of_mem_set hu with hu | rfl
    · exact .share (ih u hu) (find_keeps hf)
    · exact .find (ih _ (List.mem_of_getElem? hi)) hf
  | getFailed _ hi _ hleft ih =>
    -- the other tables see a restored arena; the table itself, what a search leaves
    intro u hu
    rcases List.mem_or_eq_of_mem_set hu with hu | rfl
    · exact .share (ih u hu) (restored_afterFailedGet hleft).keeps
    · exact (ih _ (List.mem_of_getElem? hi)).afterFailedGet hleft
  | findFailed _ hi _ hleft ih =>
    intro u hu
    rcases List.mem_or_eq_of_mem_set hu with hu | rfl
    · exact .share (ih u hu) (restored_afterFailedFind hleft).keeps
    · exact (ih _ (List.mem_of_getElem? hi)).afterFailedFind hleft
  | setKind _ hi hk ih =>
    intro u hu
    rcases List.mem_or_eq_of_mem_set hu with hu | rfl
    · exact ih u hu
    · exact .setKind (ih _ (List.mem_of_getElem? hi)) hk
  | clear _ hi ih =>
    intro u hu
    rcases List.mem_or_eq_of_mem_set hu with hu | rfl
    · exact ih u hu
    · exact .clear (ih _ (List.mem_of_getElem? hi))
  | drop i _ ih => exact fun t ht => ih t (List.mem_of_mem_eraseIdx ht)

/-- After a shared run the arena holds one allocation per symbol created, and the bytes of the
created names. -/
theorem SharedRun.accounts (hr : SharedRun a ts names) :
    a.allocations = names.length ∧ a.storedBytes = (names.map String.utf8ByteSize).sum := by
  induction hr with
  | start config => exact ⟨rfl, rfl⟩
  | create _ _ ih => exact ih
  | get hr hi hg ih =>
    have hw := (hr.reachable _ (List.mem_of_getElem? hi)).wellFormed
    split
    · next hm =>
      have hres := hw.get_restored hm hg
      rw [hres.1, hres.storedBytes]
      exact ih
    · next hm =>
      obtain ⟨halloc, hstored⟩ := hw.get_accounts hm hg
      simp [halloc, hstored, ih.1, ih.2]
  | find _ _ hf ih =>
    have hres := find_restored hf
    rw [hres.1, hres.storedBytes]
    exact ih
  | getFailed _ _ _ hleft ih =>
    have hres := restored_afterFailedGet hleft
    rw [hres.1, hres.storedBytes]
    exact ih
  | findFailed _ _ _ hleft ih =>
    have hres := restored_afterFailedFind hleft
    rw [hres.1, hres.storedBytes]
    exact ih
  | setKind _ _ _ ih => exact ih
  | clear _ _ ih => exact ih
  | drop _ _ ih => exact ih

/-- The accounts of an arena that tables share. It holds one allocation per symbol the tables
created, and in all its chunks together the bytes of their canonical names. A lookup of a name
its table has bound, every search, and every call that fails keep nothing: the allocations stay,
and so do the chunks, but for one empty chunk opened when the active one had no room for the trial
copy. A lookup of an unbound name keeps one allocation, of the canonical name's bytes. -/
structure Ledger (a : Arena) (ts : List Table) (names : List String) : Prop where
  allocations : a.allocations = names.length
  storedBytes : a.storedBytes = (names.map String.utf8ByteSize).sum
  get_bound : ∀ t ∈ ts, ∀ n id t' a', t.get ⟨a, false⟩ n = .ok (id, t', a') →
    canonical n ∈ (t.bindings a).map (·.1) → a.Restored (canonical n).utf8ByteSize a'
  get_unbound : ∀ t ∈ ts, ∀ n id t' a', t.get ⟨a, false⟩ n = .ok (id, t', a') →
    canonical n ∉ (t.bindings a).map (·.1) →
      a'.allocations = a.allocations + 1 ∧
        a'.storedBytes = a.storedBytes + (canonical n).utf8ByteSize
  find : ∀ (t : Table) n r t' a', t.find ⟨a, false⟩ n = .ok (r, t', a') →
    a.Restored (canonical n).utf8ByteSize a'
  get_failed : ∀ (t : Table) n e t' a', t.get ⟨a, false⟩ n = .error e →
    t.afterFailedGet ⟨a, false⟩ n = (t', a') → a.Restored (canonical n).utf8ByteSize a'
  find_failed : ∀ (t : Table) n e t' a', t.find ⟨a, false⟩ n = .error e →
    t.afterFailedFind ⟨a, false⟩ n = (t', a') → a.Restored (canonical n).utf8ByteSize a'

/-- Tables created on one fresh arena, whatever their hashers and the arena's sizing, and whatever
calls were made on them since, failed ones included: the arena holds the canonical names of the
symbols they created and nothing else, and every call that creates nothing gives its trial copy
back. -/
theorem sharedRun_ledger (hr : SharedRun a ts names) : Ledger a ts names :=
  have hacc := hr.accounts
  { allocations := hacc.1
    storedBytes := hacc.2
    get_bound := fun t ht _ _ _ _ hg hm => (hr.reachable t ht).wellFormed.get_restored hm hg
    get_unbound := fun t ht _ _ _ _ hg hm => (hr.reachable t ht).wellFormed.get_accounts hm hg
    find := fun _ _ _ _ _ hf => find_restored hf
    get_failed := fun _ _ _ _ _ _ hl => restored_afterFailedGet hl
    find_failed := fun _ _ _ _ _ _ hl => restored_afterFailedFind hl }

end Runs

/-- Two tables on an arena of four-byte chunks, with an allocator that lets no collision bucket
grow: each creates the symbol `ab`, in its own case, so the arena holds the name twice. A lookup of
`cd` in the second table, whose hasher gives every name one key, fails as the bucket cannot grow;
its trial copy opened a second chunk and is given back. A lookup of `aB` in the first table then
finds its symbol, and gives its copy back too. -/
theorem sharedRun_ledger_hit :
    letI : Allocator := ⟨fun _ => true, fun _ => true, fun _ => false, fun _ => true⟩
    let t₀ : Table :=
      ⟨⟨.node .leaf ⟨0, Hasher.polynomial.hash "ab", ⟨#[⟨none, ⟨0, 0, 2⟩⟩], 1⟩⟩ .leaf, 1⟩, .polynomial, 1⟩
    let t₁ : Table := ⟨⟨.node .leaf ⟨0, 7, ⟨#[⟨none, ⟨0, 2, 2⟩⟩], 1⟩⟩ .leaf, 1⟩, .constant 7, 1⟩
    let a₁ : Arena := ⟨#[⟨"abab".toUTF8, 4⟩], 1, ⟨4, 1⟩, some ⟨0, 2, 2⟩, 2⟩
    let a : Arena := ⟨#[⟨"abab".toUTF8, 4⟩, ⟨.empty, 4⟩], 2, ⟨4, 1⟩, none, 2⟩
    t₁.get ⟨a₁, false⟩ "cd" = .error (.bucketGrowth 2) ∧
      SharedRun a [t₀, t₁] ["ab", "ab"] ∧ Ledger a [t₀, t₁] ["ab", "ab"] := by
  let _ : Allocator := ⟨fun _ => true, fun _ => true, fun _ => false, fun _ => true⟩
  intro t₀ t₁ a₁ a
  have h₁ : (Table.empty .polynomial).get ⟨Arena.empty ⟨4, 1⟩, false⟩ "Ab" =
      .ok (⟨0, 0⟩, t₀, ⟨#[⟨"ab".toUTF8, 4⟩], 1, ⟨4, 1⟩, some ⟨0, 0, 2⟩, 1⟩) := by
    cbv
  have h₂ : (Table.empty (.constant 7)).get ⟨⟨#[⟨"ab".toUTF8, 4⟩], 1, ⟨4, 1⟩, some ⟨0, 0, 2⟩, 1⟩,
      false⟩ "AB" = .ok (⟨0, 0⟩, t₁, a₁) := by
    cbv
  have h₃ : t₁.get ⟨a₁, false⟩ "cd" = .error (.bucketGrowth 2) := by
    cbv
  have h₃' : t₁.afterFailedGet ⟨a₁, false⟩ "cd" = (t₁, a) := by
    cbv
  have h₄ : t₀.get ⟨a, false⟩ "aB" = .ok (⟨0, 0⟩, t₀, a) := by
    cbv
  have hr := SharedRun.get (i := 0)
    (SharedRun.getFailed (i := 1)
      (SharedRun.get (i := 1)
        (SharedRun.get (i := 0)
          (SharedRun.create (.constant 7) (SharedRun.create .polynomial (SharedRun.start ⟨4, 1⟩)))
          rfl h₁) rfl h₂) rfl h₃ h₃') rfl h₄
  -- the tables and the created names, evaluated
  have hr' : SharedRun a [t₀, t₁] ["ab", "ab"] := by
    convert hr using 1 <;> cbv
  exact ⟨h₃, hr', sharedRun_ledger hr'⟩

end Table

end Lexicon
