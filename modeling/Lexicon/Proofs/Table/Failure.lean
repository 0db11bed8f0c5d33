import Lexicon.Proofs.Table.Isolation
import Lexicon.Proofs.Arena.Session

/-!
# Failed lookups

A lookup or a search of a table fails in one of three places. A held arena, locked or lending a
name through `withName`, refuses the call before anything changes. The trial copy of the name may
not be made, which changes nothing in the table and leaves the arena's strings as they were. Or,
for a lookup only, the new symbol finds no slot in its bucket, or no room when the bucket is full
and the allocator refuses to double it, or a new node has no number or no room, after the search
has splayed its key's node to the root; the trial copy is then given back, and the table and arena
are left as a search of the name leaves them. So no failure leads out of the
states that successful calls reach, and none creates or moves a symbol.

* `Table.get_eq_error`, `Table.find_eq_error`: where a call fails.
* `Table.find_eq_afterFailedGet`: a lookup that fails after its trial copy leaves what a search
  of the name leaves.
* `Table.FailureKeeps`, `Table.reachable_failureKeeps`: what a failed call keeps.
-/

namespace Lexicon

theorem fitField_error_ne_busy {what : String} {m : Nat} {e : StoreError}
    (he : fitField what m = .error e) : e ≠ .arenaBusy := by
  rw [(fitField_eq_error.mp he).2]
  nofun

namespace Arena

variable {a a' : Arena} {len : Nat}

/-- An allocation never fails for a held arena: its failures are for memory and field widths. -/
theorem allocBytes_error_ne_busy [Allocator] {bytes : ByteArray} {e : StoreError}
    (he : a.allocBytes bytes = .error e) : e ≠ .arenaBusy := by
  rcases allocBytes_eq_error he with hlen | ⟨-, hchunk | ⟨i, a₁, -, hnum | hoff⟩⟩
  · exact fitField_error_ne_busy hlen
  · rcases chunkFor_error hchunk with ⟨n, rfl⟩ | ⟨n, rfl⟩ <;> nofun
  · exact fitField_error_ne_busy hnum
  · exact fitField_error_ne_busy hoff

end Arena

section Allocating

variable [Allocator]

theorem Bucket.push_error_ne_busy {b : Bucket} {s : Symbol} {e : StoreError}
    (he : b.push s = .error e) : e ≠ .arenaBusy := by
  rw [Bucket.push_eq] at he
  split at he
  · split at he
    · cases he
      nofun
    · cases he
  · cases he
    nofun

theorem SplayTree.insert_error_ne_busy {α : Type} {t : SplayTree α} {k : Key} {v : α}
    {e : StoreError} (he : t.insert k v = .error e) : e ≠ .arenaBusy := by
  rw [SplayTree.insert_eq] at he
  split at he
  · split at he
    · cases he
    · cases he
      nofun
  · cases he
    nofun

end Allocating

/-- Trees with the same entries, numbered without repeats, hold the same value at every number. -/
theorem SplayTree.value?_eq_of_entries {α : Type} {t₁ t₂ : SplayTree α}
    (he : t₁.entries = t₂.entries) (hnd : (t₁.entries.map (·.id)).Nodup) (i : Nat) :
    t₁.value? i = t₂.value? i := by
  have hnd₂ : (t₂.entries.map (·.id)).Nodup := he ▸ hnd
  unfold value?
  cases h₁ : t₁.root.find? i with
  | none =>
    have h₂ : t₂.root.find? i = none :=
      Splay.Tree.find?_eq_none_iff.mpr fun x hx => Splay.Tree.find?_eq_none_iff.mp h₁ x (by
        rw [← entries, he]; exact hx)
    rw [h₂]
  | some x =>
    obtain ⟨hx, hid⟩ := (Splay.Tree.find?_eq_some_iff hnd).mp h₁
    have h₂ : t₂.root.find? i = some x :=
      (Splay.Tree.find?_eq_some_iff hnd₂).mpr ⟨by rw [← entries, ← he]; exact hx, hid⟩
    rw [h₂]

namespace Table

variable {t : Table} {sh : Shared} {n : String} {e : StoreError}

section Lookups

variable [Allocator]

/-! ## Where a call fails -/

/-- A lookup fails for a held arena, or at its trial copy, or after the trial copy was made,
when the new symbol finds no slot or no node, by number or by room; only a held arena gives
`arenaBusy`. -/
theorem get_eq_error (h : t.get sh n = .error e) :
    (sh.held = true ∧ e = .arenaBusy) ∨
      (sh.held = false ∧ e ≠ .arenaBusy ∧
        (sh.arena.allocLower n = .error e ∨ ∃ trial a₁, sh.arena.allocLower n = .ok (trial, a₁))) := by
  unfold get at h
  split at h
  · next hheld =>
    cases h
    exact .inl ⟨hheld, rfl⟩
  · next hheld =>
    have hfree : sh.held = false := by simpa using hheld
    rcases except_bind_eq_error.mp h with halloc | ⟨⟨trial, a₁⟩, halloc, h⟩
    · exact .inr ⟨hfree, Arena.allocBytes_error_ne_busy halloc, .inl halloc⟩
    refine .inr ⟨hfree, ?_, .inr ⟨trial, a₁, halloc⟩⟩
    -- past the trial copy only a new slot or a new node can fail
    dsimp only at h
    split at h
    · split at h
      · cases h
      · rcases except_bind_eq_error.mp h with hp | ⟨_, -, h⟩
        · exact Bucket.push_error_ne_busy hp
        · cases h
    · rcases except_bind_eq_error.mp h with hi | ⟨_, -, h⟩
      · exact SplayTree.insert_error_ne_busy hi
      · cases h

/-- A search fails only for a held arena or at its trial copy. -/
theorem find_eq_error (h : t.find sh n = .error e) :
    (sh.held = true ∧ e = .arenaBusy) ∨
      (sh.held = false ∧ e ≠ .arenaBusy ∧ sh.arena.allocLower n = .error e) := by
  unfold find at h
  split at h
  · next hheld =>
    cases h
    exact .inl ⟨hheld, rfl⟩
  · next hheld =>
    rcases except_bind_eq_error.mp h with halloc | ⟨_, -, h⟩
    · exact .inr ⟨by simpa using hheld, Arena.allocBytes_error_ne_busy halloc, halloc⟩
    · cases h

/-! ## What a failure keeps -/

/-- What a failed call with error `e` keeps, when it leaves the table and arena `r` behind: the
number of symbols, the number of nodes, every bucket, and so what every symbol id names, with no
empty bucket; the count of allocations of the arena and every chunk that was open, bytes and
room; and a state that successful calls reach. It fails with `arenaBusy` exactly when the arena
is held, and then leaves everything as it was. -/
structure FailureKeeps (t : Table) (sh : Shared) (e : StoreError) (r : Table × Arena) : Prop where
  len : r.1.len = t.len
  nodeCount : r.1.nodeCount = t.nodeCount
  buckets : ∀ node, r.1.bucket? node = t.bucket? node
  bindings : ∀ id, r.1.symbol? id = t.symbol? id ∧ r.1.name? r.2 id = t.name? sh.arena id
  nonempty : ∀ x ∈ r.1.tree.entries, 0 < x.value.len
  allocations : r.2.allocations = sh.arena.allocations
  chunks : ∀ (i : Nat) (c : Arena.Chunk), sh.arena.chunks[i]? = some c → r.2.chunks[i]? = some c
  busy_iff : e = .arenaBusy ↔ sh.held = true
  busy : e = .arenaBusy → r = (t, sh.arena)
  reachable : Reachable r.1 r.2

/-- A failure keeps all of this as soon as it leaves a reachable table with the same counter,
node count and entries, in a restored arena. -/
theorem failureKeeps_of (hw : t.WellFormed sh.arena) {r : Table × Arena}
    (hsym : r.1.symbols = t.symbols) (hsize : r.1.tree.size = t.tree.size)
    (hent : r.1.tree.entries = t.tree.entries) (hres : sh.arena.Restored n.utf8ByteSize r.2)
    (hbusy : e = .arenaBusy ↔ sh.held = true) (hsame : e = .arenaBusy → r = (t, sh.arena))
    (hr : Reachable r.1 r.2) : FailureKeeps t sh e r := by
  have hbuckets : ∀ node, r.1.bucket? node = t.bucket? node :=
    SplayTree.value?_eq_of_entries hent (hent ▸ hw.tree.nodup)
  have hsymbol : ∀ id, r.1.symbol? id = t.symbol? id := fun id =>
    congrArg (Option.bind · _) (hbuckets id.node)
  refine ⟨hsym, hsize, hbuckets, fun id => ⟨hsymbol id, ?_⟩, fun x hx => ?_, hres.1,
    fun i c hc => hres.getElem? hc, hbusy, hsame, hr⟩
  · -- the symbols are the old ones, and their names read as before in the restored arena
    rw [name?, hsymbol, ← name?]
    exact hw.name?_keeps hres.keeps id
  · exact (hw.buckets x (hent ▸ hx)).nonempty

/-- A failure that leaves what a search of the name leaves keeps all of this. -/
theorem failureKeeps_of_find (hr : Reachable t sh.arena) {found : Option SymbolId} {t' : Table}
    {a' : Arena} (hfind : t.find sh n = .ok (found, t', a')) (hne : e ≠ .arenaBusy) :
    FailureKeeps t sh e (t', a') := by
  obtain ⟨hh, trial, a₁, -, -, hcase⟩ := find_eq_ok hfind
  have hres := find_restored hfind
  rw [utf8ByteSize_canonical] at hres
  -- the search splays at most, which keeps the entries and their number
  have hsame : t'.symbols = t.symbols ∧ t'.tree.entries = t.tree.entries ∧
      t'.tree.size = t.tree.size := by
    rcases hcase with ⟨node, tree, hs, rfl, -⟩ | ⟨-, rfl, -⟩
    · exact ⟨rfl, SplayTree.search_entries hs⟩
    · exact ⟨rfl, rfl, rfl⟩
  exact failureKeeps_of hr.wellFormed hsame.1 hsame.2.2 hsame.2.1 hres
    (iff_of_false hne (by simp [hh])) (fun h => absurd h hne) (.find hr hfind)

/-- In every state that a table and its shared arena reach, also with other tables sharing the
arena, a lookup or a search that fails keeps every symbol and every count, and every chunk that
was open. A held arena makes both fail with `arenaBusy`, also while a table sharing the arena
lends a name through `withName`, and then nothing changes. -/
theorem reachable_failureKeeps (hr : Reachable t sh.arena) (n : String) :
    (∀ e, t.get sh n = .error e → FailureKeeps t sh e (t.afterFailedGet sh n)) ∧
      (∀ e, t.find sh n = .error e → FailureKeeps t sh e (t.afterFailedFind sh n)) ∧
      (sh.held = true → t.get sh n = .error .arenaBusy ∧ t.find sh n = .error .arenaBusy) ∧
      ∀ (u : Table) (id : SymbolId) r,
        u.withName sh id (fun _ lent => (t.get lent n, t.find lent n)) = some r →
          r = (.error .arenaBusy, .error .arenaBusy) := by
  have hw := hr.wellFormed
  -- a held arena refuses before anything changes
  have hheld : sh.held = true → FailureKeeps t sh .arenaBusy (t, sh.arena) := fun hh =>
    failureKeeps_of hw rfl rfl rfl (.refl _ n.utf8ByteSize) (iff_of_true rfl hh) (fun _ => rfl) hr
  -- a failed trial copy leaves the table and restores the arena
  have hcopy : ∀ e, sh.held = false → e ≠ .arenaBusy →
      FailureKeeps t sh e (t, sh.arena.afterFailedAlloc n.utf8ByteSize) := by
    intro e hh hne
    have hres := Arena.restored_afterFailedAlloc sh.arena n.utf8ByteSize
    exact failureKeeps_of hw rfl rfl rfl hres (iff_of_false hne (by simp [hh]))
      (fun h => absurd h hne) (.share hr hres.keeps)
  refine ⟨fun e he => ?_, fun e he => ?_, fun hh => ?_, fun u id r hn => ?_⟩
  · rcases get_eq_error he with ⟨hh, rfl⟩ | ⟨hh, hne, halloc | ⟨trial, a₁, halloc⟩⟩
    · have hleft : t.afterFailedGet sh n = (t, sh.arena) := by simp [afterFailedGet, hh]
      exact hleft ▸ hheld hh
    · have hleft : t.afterFailedGet sh n = (t, sh.arena.afterFailedAlloc n.utf8ByteSize) := by
        simp [afterFailedGet, hh, halloc]
      exact hleft ▸ hcopy e hh hne
    · -- a new slot or node failed: what is left is what a search leaves
      obtain ⟨found, hfind⟩ := find_eq_afterFailedGet (t := t) hh halloc
      exact failureKeeps_of_find hr hfind hne
  · rcases find_eq_error he with ⟨hh, rfl⟩ | ⟨hh, hne, -⟩
    · have hleft : t.afterFailedFind sh n = (t, sh.arena) := by simp [afterFailedFind, hh]
      exact hleft ▸ hheld hh
    · have hleft : t.afterFailedFind sh n = (t, sh.arena.afterFailedAlloc n.utf8ByteSize) := by
        simp [afterFailedFind, hh]
      exact hleft ▸ hcopy e hh hne
  · simp [get, find, hh]
  · -- the name is lent with the arena held
    obtain ⟨-, -, rfl⟩ := Option.map_eq_some_iff.mp hn
    simp [get, find]

end Lookups

/-- A chunk of the whole memory cannot open, so the first lookup into a fresh arena of that
chunk size fails at its trial copy, and keeps everything. -/
theorem reachable_failureKeeps_chunk :
    letI : Allocator := ⟨fun n => decide (n < 17000000000), fun _ => true, fun _ => true,
      fun _ => true⟩
    let t := Table.empty .polynomial
    let sh : Shared := ⟨Arena.empty ⟨17000000000, 100⟩, false⟩
    Reachable t sh.arena ∧ t.get sh "a" = .error (.chunkAllocation 17000000000) ∧
      FailureKeeps t sh (.chunkAllocation 17000000000) (t.afterFailedGet sh "a") := by
  let _ : Allocator := ⟨fun n => decide (n < 17000000000), fun _ => true, fun _ => true,
    fun _ => true⟩
  intro t sh
  have hr : Reachable t sh.arena := .empty _ _
  have hget : t.get sh "a" = .error (.chunkAllocation 17000000000) := by
    cbv
  exact ⟨hr, hget, (reachable_failureKeeps hr "a").1 _ hget⟩

end Table

end Lexicon
