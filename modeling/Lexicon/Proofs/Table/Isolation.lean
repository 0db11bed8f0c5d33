import Mathlib
import Lexicon.Proofs.Splay.Map
import Lexicon.Proofs.Table.Shared

/-!
# A table is isolated from the tables it shares an arena with

A symbol's name is a handle into the shared arena, and where it lies depends on everything that
every table stored before. But no call of a table looks at a handle other than through the name it
reads as, and a lookup through another table keeps every name. So what a table answers, and what
it shows, depends on its own calls alone: it answers as the same table run alone, on an arena of
any sizing, would answer the same calls, as long as the trial copy of each name looked up can be
made in both arenas. Making a copy can fail for the arena's resources, and then on that arena only;
a call whose copy fails on both sides, or that fails on both after both copies were made, leaves
the two tables showing alike too, and so does any call of another table, failed or not.

* `Table.shows`: a table as its calls can see it: its hasher, its count of symbols, and its tree
  with each bucket as read from the arena.
* `Table.get_seen`, `find_seen`, `setKind_shows`: a call on tables that show alike answers alike,
  and leaves them showing alike.
* `Table.Beside`: a table among others, beside the same table run alone.
* `Table.beside_alike`: along every such pair of runs the two answer and show alike.
-/

namespace Lexicon

/-- What a symbol shows: its kind, and its name as read from the arena. -/
def Symbol.read (a : Arena) (s : Symbol) : Option Kind × Option String := (s.kind, a.resolve? s.name)

namespace Arena

/-- A handle that reads as a string is as long as the string's encoding. -/
theorem len_of_resolve? {a : Arena} {h : Handle} {s : String} (hr : a.resolve? h = some s) :
    h.len = s.utf8ByteSize := by
  obtain ⟨x, hx, hs⟩ := Option.bind_eq_some_iff.mp hr
  unfold bytes? at hx
  split at hx
  · next c hc =>
    split at hx
    · next hin =>
      obtain ⟨hstop, -, -⟩ := hin
      unfold Handle.stop at hstop
      cases hx
      unfold String.fromUTF8? at hs
      split at hs
      · cases hs
        rw [← String.size_toByteArray]
        simp only [String.fromUTF8, ByteArray.size_extract, Handle.stop]
        omega
      · cases hs
    · cases hx
  · cases hx

end Arena

namespace Bucket

/-- What a bucket shows: its symbols as read from the arena, slot by slot, and its room. -/
def read (a : Arena) (b : Bucket) : Array (Option Kind × Option String) × Nat :=
  (b.symbols.map (Symbol.read a), b.capacity)

variable {b c : Bucket} {a a' : Arena}

@[simp] theorem read_empty : empty.read a = (#[], 1) := by
  simp [read, empty]

theorem find_eq_of_read (h : b.read a = c.read a') (n : String) : b.find a n = c.find a' n := by
  have hsym : b.symbols.map (Symbol.read a) = c.symbols.map (Symbol.read a') := congrArg Prod.fst h
  have hb : b.find a n = (b.symbols.map (Symbol.read a)).findIdx? (·.2 == some n) := by
    simp [find, Function.comp_def, Symbol.read]
  have hc : c.find a' n = (c.symbols.map (Symbol.read a')).findIdx? (·.2 == some n) := by
    simp [find, Function.comp_def, Symbol.read]
  rw [hb, hc, hsym]

theorem get?_read (i : Nat) : (b.get? i).map (Symbol.read a) = (b.read a).1[i]? := by
  simp [get?, read]

/-- In an arena that keeps the names, a well-formed bucket reads as before. -/
theorem WellFormed.read_keeps {H : Hasher} {key : Key} (hb : b.WellFormed a H key)
    (hk : a.Keeps a') : b.read a' = b.read a := by
  simp only [read, Prod.mk.injEq, and_true]
  refine Array.map_congr_left fun s hs => ?_
  obtain ⟨m, hr, -⟩ := hb.named s.name (List.mem_map_of_mem (Array.mem_toList_iff.mpr hs))
  simp [Symbol.read, hr, hk _ _ hr]

/-- Buckets that read alike take symbols that read alike in the same slot, and read alike after;
a full bucket asks the allocator for the same room. -/
theorem push_read [Allocator] {s s' : Symbol} (h : b.read a = c.read a') (hs : s.read a = s'.read a') :
    (b.push s).map (fun p => (p.1, p.2.read a)) = (c.push s').map (fun p => (p.1, p.2.read a')) := by
  have hsym : b.symbols.map (Symbol.read a) = c.symbols.map (Symbol.read a') := congrArg Prod.fst h
  have hcap : b.capacity = c.capacity := congrArg Prod.snd h
  have hsize : b.symbols.size = c.symbols.size := by
    simpa using congrArg Array.size hsym
  rw [push_eq, push_eq, hsize, hcap]
  split
  · split
    · rfl
    · simp [Except.map, read, hsym, hs]
  · rfl

/-- Setting a kind shows as setting it in the slot read. -/
theorem read_modify_kind (i : Nat) (k : Kind) :
    (b.modify i fun s => { s with kind := some k }).read a =
      ((b.read a).1.modify i (fun x => (some k, x.2)), (b.read a).2) := by
  simp only [read, modify, Prod.mk.injEq, and_true]
  apply Array.ext_getElem?
  intro j
  simp only [Array.getElem?_map, Array.getElem?_modify]
  split <;> cases b.symbols[j]? <;> rfl

end Bucket

/-- Computations that fail alike and succeed with values that look alike, each continued by steps
that fail alike and succeed alike on values that look alike, fail alike and succeed alike. -/
theorem except_bind_map_congr {ε α α' β β' γ γ' : Type} {x : Except ε α} {y : Except ε α'}
    {f : α → γ} {g : α' → γ} (hxy : x.map f = y.map g) {k : α → Except ε β} {k' : α' → Except ε β'}
    {F : β → γ'} {G : β' → γ'} (hk : ∀ p q, f p = g q → (k p).map F = (k' q).map G) :
    (x >>= k).map F = (y >>= k').map G := by
  cases x with
  | error e =>
    cases y with
    | error e' => simpa [Except.map, bind, Except.bind] using hxy
    | ok q => simp [Except.map] at hxy
  | ok p =>
    cases y with
    | error e' => simp [Except.map] at hxy
    | ok q =>
      simp only [Except.map, Except.ok.injEq] at hxy
      exact hk p q hxy

namespace Table

/-- A table as its calls can see it over its arena: its hasher, its count of symbols, and its
tree with each bucket as read. -/
def shows (t : Table) (a : Arena) :
    Hasher × Nat × SplayTree (Array (Option Kind × Option String) × Nat) :=
  (t.hasher, t.symbols, t.tree.map (Bucket.read a))

/-- An answer with the table and the arena it leaves, as they can be seen. -/
def seen {α : Type} (r : α × Table × Arena) :
    α × Hasher × Nat × SplayTree (Array (Option Kind × Option String) × Nat) :=
  (r.1, r.2.1.shows r.2.2)

variable {t u : Table} {a b a' b' : Arena} {n : String}

theorem tree_shows (hs : t.shows a = u.shows b) :
    t.tree.map (Bucket.read a) = u.tree.map (Bucket.read b) :=
  congrArg (fun x => x.2.2) hs

/-- In an arena that keeps the names, a well-formed table shows as before. -/
theorem WellFormed.shows_keeps (hw : t.WellFormed a) (hk : a.Keeps a') : t.shows a' = t.shows a := by
  simp only [shows, Prod.mk.injEq, true_and]
  exact SplayTree.map_congr _ _ fun e he => (hw.buckets e he).read_keeps hk

/-- Tables that show alike find the same node of a key, and show alike after the search. -/
theorem search_shows (hs : t.shows a = u.shows b) (k : Key) :
    (t.tree.search k).map (fun p => (p.1, p.2.map (Bucket.read a))) =
      (u.tree.search k).map (fun p => (p.1, p.2.map (Bucket.read b))) := by
  rw [SplayTree.map_search, SplayTree.map_search, tree_shows hs]

/-- The bucket of a node, as read, in trees that show alike. -/
theorem bucket_read {T U : SplayTree Bucket} (h : T.map (Bucket.read a) = U.map (Bucket.read b))
    (node : Nat) : ((T.value? node).getD .empty).read a = ((U.value? node).getD .empty).read b := by
  have hv := congrArg (fun T => T.value? node) h
  simp only [SplayTree.value?_map] at hv
  cases hT : T.value? node <;> cases hU : U.value? node <;> simp_all

/-- A name is found in the bucket of a node alike in trees that show alike. -/
theorem find_read {T U : SplayTree Bucket} (h : T.map (Bucket.read a) = U.map (Bucket.read b))
    (node : Nat) (c : String) :
    (T.value? node).bind (·.find a c) = (U.value? node).bind (·.find b c) := by
  have hv := congrArg (fun T => T.value? node) h
  simp only [SplayTree.value?_map] at hv
  cases hT : T.value? node with
  | none =>
    cases hU : U.value? node with
    | none => rfl
    | some y => simp [hT, hU] at hv
  | some x =>
    cases hU : U.value? node with
    | none => simp [hT, hU] at hv
    | some y =>
      simp only [hT, hU, Option.map_some, Option.some.injEq] at hv
      exact Bucket.find_eq_of_read hv c

section Lookups

variable [Allocator]

/-- Trees that show alike give the same node to a new key with a bucket that reads alike. -/
theorem insert_shows {T U : SplayTree Bucket} (h : T.map (Bucket.read a) = U.map (Bucket.read b))
    {v v' : Bucket} (hv : v.read a = v'.read b) (k : Key) :
    (T.insert k v).map (fun p => (p.1, p.2.map (Bucket.read a))) =
      (U.insert k v').map (fun p => (p.1, p.2.map (Bucket.read b))) := by
  rw [SplayTree.map_insert, SplayTree.map_insert, h, hv]

/-- A lookup on tables that show alike, when both trial copies can be made, answers alike and
leaves them showing alike, or fails alike. -/
theorem get_seen (hw : t.WellFormed a) (hv : u.WellFormed b) (hs : t.shows a = u.shows b)
    {tr tr' : Arena.Handle} {a₁ b₁ : Arena} (ht : a.allocLower n = .ok (tr, a₁))
    (hu : b.allocLower n = .ok (tr', b₁)) :
    (t.get ⟨a, false⟩ n).map seen = (u.get ⟨b, false⟩ n).map seen := by
  have hH : t.hasher = u.hasher := congrArg Prod.fst hs
  have hcount : t.symbols = u.symbols := congrArg (fun x => x.2.1) hs
  -- after the trial copies the tables show alike in the new arenas
  have hs₁ : t.shows a₁ = u.shows b₁ := by
    rw [hw.shows_keeps (Arena.allocLower_keeps ht), hv.shows_keeps (Arena.allocLower_keeps hu), hs]
  -- and the copies read as the canonical name in both
  have hnew : (Symbol.ofHandle tr).read a₁ = (Symbol.ofHandle tr').read b₁ := by
    simp [Symbol.read, Symbol.ofHandle, Arena.resolve?_allocLower ht, Arena.resolve?_allocLower hu]
  simp only [get, Bool.false_eq_true, if_false, ht, hu, except_ok_bind, ← hH]
  have hsearch := search_shows hs₁ (t.hasher.hash (canonical n))
  cases hts : t.tree.search (t.hasher.hash (canonical n)) with
  | none =>
    -- a new key: both insert a node for it
    have hus : u.tree.search (t.hasher.hash (canonical n)) = none := by
      rw [hts] at hsearch
      exact Option.map_eq_none_iff.mp hsearch.symm
    have hsingle : (Bucket.single (.ofHandle tr)).read a₁ = (Bucket.single (.ofHandle tr')).read b₁ := by
      simp [Bucket.read, Bucket.single, hnew]
    simp only [hus]
    refine except_bind_map_congr (insert_shows (tree_shows hs₁) hsingle _) ?_
    rintro ⟨node, T⟩ ⟨node', U⟩ hTU
    simp only [Prod.mk.injEq] at hTU
    simp [Except.map, pure, Except.pure, seen, shows, hTU.1, hTU.2, hcount]
  | some p =>
    obtain ⟨node, T⟩ := p
    obtain ⟨⟨node', U⟩, hus, hTU⟩ : ∃ q, u.tree.search (t.hasher.hash (canonical n)) = some q ∧
        (node, T.map (Bucket.read a₁)) = (q.1, q.2.map (Bucket.read b₁)) := by
      rw [hts] at hsearch
      obtain ⟨q, hq, hpq⟩ := Option.map_eq_some_iff.mp hsearch.symm
      exact ⟨q, hq, hpq.symm⟩
    simp only [Prod.mk.injEq] at hTU
    obtain ⟨rfl, hTU⟩ := hTU
    simp only [hus]
    have hbucket := bucket_read hTU node
    rw [← Bucket.find_eq_of_read hbucket]
    cases hf : ((T.value? node).getD .empty).find a₁ (canonical n) with
    | some slot =>
      -- a hit: the searched trees show in the arenas after the copies are given back as before
      have hT : ({ t with tree := T } : Table).WellFormed a := hw.search hts
      have hU : ({ u with tree := U } : Table).WellFormed b := hv.search hus
      have hTa := congrArg (fun x => x.2.2) ((hT.shows_keeps (keeps_giveBack ht)).trans
        (hT.shows_keeps (Arena.allocLower_keeps ht)).symm)
      have hUb := congrArg (fun x => x.2.2) ((hU.shows_keeps (keeps_giveBack hu)).trans
        (hU.shows_keeps (Arena.allocLower_keeps hu)).symm)
      simp only [shows] at hTa hUb
      simp [Except.map, pure, Except.pure, seen, shows, hTa, hUb, hTU, hcount]
    | none =>
      -- the name is new under its key: both append it to the node's bucket
      refine except_bind_map_congr (Bucket.push_read hbucket hnew) ?_
      rintro ⟨slot, B⟩ ⟨slot', B'⟩ hBB
      simp only [Prod.mk.injEq] at hBB
      have hmod : ∀ (V : SplayTree Bucket) (B : Bucket) (c : Arena),
          (V.modify node fun _ => B).map (Bucket.read c) =
            (V.map (Bucket.read c)).modify node fun _ => B.read c :=
        fun V B c => SplayTree.map_modify (Bucket.read c) node (f := fun _ => B) (fun _ => rfl) V
      simp [Except.map, pure, Except.pure, seen, shows, hmod, hTU, hBB.1, hBB.2, hcount]

/-- A search on tables that show alike, when both trial copies can be made, answers alike and
leaves them showing alike. -/
theorem find_seen (hw : t.WellFormed a) (hv : u.WellFormed b) (hs : t.shows a = u.shows b)
    {tr tr' : Arena.Handle} {a₁ b₁ : Arena} (ht : a.allocLower n = .ok (tr, a₁))
    (hu : b.allocLower n = .ok (tr', b₁)) :
    (t.find ⟨a, false⟩ n).map seen = (u.find ⟨b, false⟩ n).map seen := by
  have hH : t.hasher = u.hasher := congrArg Prod.fst hs
  have hcount : t.symbols = u.symbols := congrArg (fun x => x.2.1) hs
  have hs₁ : t.shows a₁ = u.shows b₁ := by
    rw [hw.shows_keeps (Arena.allocLower_keeps ht), hv.shows_keeps (Arena.allocLower_keeps hu), hs]
  simp only [find, Bool.false_eq_true, if_false, ht, hu, except_ok_bind, ← hH]
  have hsearch := search_shows hs₁ (t.hasher.hash (canonical n))
  cases hts : t.tree.search (t.hasher.hash (canonical n)) with
  | none =>
    have hus : u.tree.search (t.hasher.hash (canonical n)) = none := by
      rw [hts] at hsearch
      exact Option.map_eq_none_iff.mp hsearch.symm
    -- nothing found: both tables stay, and show in the arenas after the copies as before
    have hta := tree_shows ((hw.shows_keeps (keeps_giveBack ht)).trans
      (hs.trans (hv.shows_keeps (keeps_giveBack hu)).symm))
    simp [hus, Except.map, pure, Except.pure, seen, shows, hta, hcount]
  | some p =>
    obtain ⟨node, T⟩ := p
    obtain ⟨⟨node', U⟩, hus, hTU⟩ : ∃ q, u.tree.search (t.hasher.hash (canonical n)) = some q ∧
        (node, T.map (Bucket.read a₁)) = (q.1, q.2.map (Bucket.read b₁)) := by
      rw [hts] at hsearch
      obtain ⟨q, hq, hpq⟩ := Option.map_eq_some_iff.mp hsearch.symm
      exact ⟨q, hq, hpq.symm⟩
    simp only [Prod.mk.injEq] at hTU
    obtain ⟨rfl, hTU⟩ := hTU
    have hT : ({ t with tree := T } : Table).WellFormed a := hw.search hts
    have hU : ({ u with tree := U } : Table).WellFormed b := hv.search hus
    have hTa := congrArg (fun x => x.2.2) ((hT.shows_keeps (keeps_giveBack ht)).trans
      (hT.shows_keeps (Arena.allocLower_keeps ht)).symm)
    have hUb := congrArg (fun x => x.2.2) ((hU.shows_keeps (keeps_giveBack hu)).trans
      (hU.shows_keeps (Arena.allocLower_keeps hu)).symm)
    simp only [shows] at hTa hUb
    simp [hus, Except.map, pure, Except.pure, seen, shows, hTa, hUb, hTU, hcount, find_read hTU]

end Lookups

/-! ## What a table shows -/

theorem symbol?_read (t : Table) (a : Arena) (id : SymbolId) :
    (t.symbol? id).map (Symbol.read a) =
      ((t.tree.map (Bucket.read a)).value? id.node).bind (·.1[id.slot]?) := by
  simp [symbol?, SplayTree.value?_map, Option.map_bind, Option.bind_map, Bucket.get?_read]

theorem name?_read (t : Table) (a : Arena) (id : SymbolId) :
    t.name? a id = ((t.symbol? id).map (Symbol.read a)).bind (·.2) := by
  simp [name?, Option.bind_map, Function.comp_def, Symbol.read]

theorem iter_read (t : Table) (a : Arena) :
    t.iter.map (fun p => (p.1, p.2.read a)) = (t.tree.map (Bucket.read a)).entries.flatMap
      fun e => e.value.1.toList.zipIdx.map fun x => ((⟨e.id, x.2⟩ : SymbolId), x.1) := by
  simp [iter, List.map_flatMap, List.flatMap_map, Bucket.read, List.zipIdx_map, Function.comp_def]

theorem collisionCount_read (t : Table) (a : Arena) :
    t.collisionCount =
      ((t.tree.map (Bucket.read a)).entries.filter fun e => 1 < e.value.1.size).length := by
  rw [collisionCount, SplayTree.entries_map, List.filter_map, List.length_map]
  congr 2
  funext e
  exact decide_eq_decide.mpr (by simp [Bucket.read, Bucket.len])

theorem clear_read (t : Table) (a : Arena) :
    t.clear.1 = ⟨(t.tree.map (Bucket.read a)).drain.1.length,
      (((t.tree.map (Bucket.read a)).drain.1).map fun p => p.2.1.size).foldr (· + ·) 0⟩ := by
  simp [clear, SplayTree.drain_map, Function.comp_def, Bucket.read, Bucket.len]

/-- A symbol of a well-formed table has a name that reads as a string, and is as long as it. -/
theorem WellFormed.name_len (hw : t.WellFormed a) {id : SymbolId} {s : Symbol}
    (hs : t.symbol? id = some s) : ∃ m, a.resolve? s.name = some m ∧ s.name.len = m.utf8ByteSize := by
  obtain ⟨e, he, -, hget⟩ := (symbol?_eq_some hw.tree.nodup).mp hs
  obtain ⟨m, hr, -⟩ := (hw.buckets e he).named _ (Bucket.name_mem_names hget)
  exact ⟨_, hr, Arena.len_of_resolve? hr⟩

/-- Setting a kind on tables that show alike succeeds alike, and leaves them showing alike. -/
theorem setKind_shows (hs : t.shows a = u.shows b) (id : SymbolId) (k : Kind) :
    (t.setKind id k).map (·.shows a) = (u.setKind id k).map (·.shows b) := by
  have hsym : (t.symbol? id).map (Symbol.read a) = (u.symbol? id).map (Symbol.read b) := by
    rw [symbol?_read, symbol?_read, tree_shows hs]
  -- the kind is set in the slot as read
  have hmod : ∀ (V : Table) (c : Arena),
      ({ V with tree := V.tree.modify id.node (·.modify id.slot fun s => { s with kind := some k }) } :
        Table).shows c = (V.hasher, V.symbols, (V.tree.map (Bucket.read c)).modify id.node
          fun v => (v.1.modify id.slot fun x => (some k, x.2), v.2)) := by
    intro V c
    simp only [shows]
    rw [@SplayTree.map_modify _ _ (Bucket.read c) id.node
      (·.modify id.slot fun s => { s with kind := some k })
      (fun v => (v.1.modify id.slot fun x => (some k, x.2), v.2))
      (fun B => Bucket.read_modify_kind id.slot k)]
  unfold setKind
  cases ht : t.symbol? id with
  | none =>
    cases hu : u.symbol? id with
    | none => rfl
    | some s => simp [ht, hu] at hsym
  | some s =>
    cases hu : u.symbol? id with
    | none => simp [ht, hu] at hsym
    | some s' =>
      simp only [Option.map_some, hmod, tree_shows hs]
      rw [show t.hasher = u.hasher from congrArg Prod.fst hs,
        show t.symbols = u.symbols from congrArg (fun x => x.2.1) hs]

/-! ## A table among others beside the same table alone -/

section Runs

variable [Allocator]

/-- A table among others that share its arena, beside the same table run alone on an arena of its
own. Both start empty with one hasher, on any arenas. A call on the table is a step when it
succeeds on both sides, or when it fails on both sides with its trial copies made on both or on
neither; a failed call leaves what `afterFailedGet` or `afterFailedFind` says. The lookups and
searches of the other tables change the shared arena, whether they succeed or fail, and their
other calls change neither arena. Every call is made on its own, not from inside another table's
read of a name. -/
inductive Beside : Table → Arena → Table → Arena → Prop
  | start (H : Hasher) (a b : Arena) : Beside (Table.empty H) a (Table.empty H) b
  | get {t u t' u' : Table} {a b a' b' : Arena} {n : String} {id id' : SymbolId} :
      Beside t a u b → t.get ⟨a, false⟩ n = .ok (id, t', a') →
      u.get ⟨b, false⟩ n = .ok (id', u', b') → Beside t' a' u' b'
  | find {t u t' u' : Table} {a b a' b' : Arena} {n : String} {r r' : Option SymbolId} :
      Beside t a u b → t.find ⟨a, false⟩ n = .ok (r, t', a') →
      u.find ⟨b, false⟩ n = .ok (r', u', b') → Beside t' a' u' b'
  | getFailed {t u t' u' : Table} {a b a' b' : Arena} {n : String} {e e' : StoreError} :
      Beside t a u b → t.get ⟨a, false⟩ n = .error e → u.get ⟨b, false⟩ n = .error e' →
      (a.allocLower n).isOk = (b.allocLower n).isOk →
      t.afterFailedGet ⟨a, false⟩ n = (t', a') → u.afterFailedGet ⟨b, false⟩ n = (u', b') →
      Beside t' a' u' b'
  | findFailed {t u t' u' : Table} {a b a' b' : Arena} {n : String} {e e' : StoreError} :
      Beside t a u b → t.find ⟨a, false⟩ n = .error e → u.find ⟨b, false⟩ n = .error e' →
      t.afterFailedFind ⟨a, false⟩ n = (t', a') → u.afterFailedFind ⟨b, false⟩ n = (u', b') →
      Beside t' a' u' b'
  | setKind {t u t' u' : Table} {a b : Arena} {id : SymbolId} {k : Kind} :
      Beside t a u b → t.setKind id k = some t' → u.setKind id k = some u' → Beside t' a u' b
  | clear {t u : Table} {a b : Arena} : Beside t a u b → Beside t.clear.2 a u.clear.2 b
  | otherGet {t u t₀ t₀' : Table} {a b a' : Arena} {n : String} {id : SymbolId} :
      Beside t a u b → t₀.get ⟨a, false⟩ n = .ok (id, t₀', a') → Beside t a' u b
  | otherFind {t u t₀ t₀' : Table} {a b a' : Arena} {n : String} {r : Option SymbolId} :
      Beside t a u b → t₀.find ⟨a, false⟩ n = .ok (r, t₀', a') → Beside t a' u b
  | otherGetFailed {t u t₀ t₀' : Table} {a b a' : Arena} {n : String} {e : StoreError} :
      Beside t a u b → t₀.get ⟨a, false⟩ n = .error e → t₀.afterFailedGet ⟨a, false⟩ n = (t₀', a') →
      Beside t a' u b
  | otherFindFailed {t u t₀ t₀' : Table} {a b a' : Arena} {n : String} {e : StoreError} :
      Beside t a u b → t₀.find ⟨a, false⟩ n = .error e → t₀.afterFailedFind ⟨a, false⟩ n = (t₀', a') →
      Beside t a' u b

end Runs

/-- Tables that show alike still show alike in arenas that keep their names. -/
theorem shows_keeps_both (hw : t.WellFormed a) (hv : u.WellFormed b) (hs : t.shows a = u.shows b)
    (ha : a.Keeps a') (hb : b.Keeps b') : t.shows a' = u.shows b' :=
  (hw.shows_keeps ha).trans (hs.trans (hv.shows_keeps hb).symm)

theorem seen_eq_of_ok {α : Type} {x y : Except StoreError (α × Table × Arena)}
    (h : x.map seen = y.map seen) {r r' : α × Table × Arena} (hx : x = .ok r) (hy : y = .ok r') :
    r.1 = r'.1 ∧ r.2.1.shows r.2.2 = r'.2.1.shows r'.2.2 := by
  subst hx hy
  simp only [Except.map, Except.ok.injEq, seen, Prod.mk.injEq] at h
  exact h

theorem map_fst_eq_of_seen {α : Type} {x y : Except StoreError (α × Table × Arena)}
    (h : x.map seen = y.map seen) : x.map (·.1) = y.map (·.1) := by
  cases x <;> cases y <;> simp_all [Except.map, seen]

/-- Tables that show alike give every id the same record, name included. -/
theorem symbol_read_eq (hs : t.shows a = u.shows b) (id : SymbolId) :
    (t.symbol? id).map (Symbol.read a) = (u.symbol? id).map (Symbol.read b) := by
  rw [symbol?_read, symbol?_read, tree_shows hs]

/-- A well-formed table shows the same names in an arena that keeps them. -/
theorem WellFormed.name?_keeps (hw : t.WellFormed a) (hk : a.Keeps a') (id : SymbolId) :
    t.name? a' id = t.name? a id := by
  rw [name?_read, name?_read, symbol?_read, symbol?_read, tree_shows (hw.shows_keeps hk)]

section Runs

variable [Allocator]

/-- Failed lookups of one name on two tables that show alike, whose trial copies were made on both
sides or on neither, leave them showing alike: without the copies nothing changes, and with them
each leaves what a search of the name leaves. -/
theorem afterFailedGet_shows {t' u' : Table} (hw : t.WellFormed a) (hv : u.WellFormed b)
    (hs : t.shows a = u.shows b) (hcopy : (a.allocLower n).isOk = (b.allocLower n).isOk)
    (hlt : t.afterFailedGet ⟨a, false⟩ n = (t', a')) (hlu : u.afterFailedGet ⟨b, false⟩ n = (u', b')) :
    t'.shows a' = u'.shows b' := by
  cases halloc : a.allocLower n with
  | error x =>
    cases balloc : b.allocLower n with
    | error y =>
      rw [afterFailedGet_of_copy_error halloc] at hlt
      rw [afterFailedGet_of_copy_error balloc] at hlu
      cases hlt
      cases hlu
      exact shows_keeps_both hw hv hs
        (Arena.restored_afterFailedAlloc a _).keeps (Arena.restored_afterFailedAlloc b _).keeps
    | ok q => simp [Except.isOk, Except.toBool, halloc, balloc] at hcopy
  | ok p =>
    cases balloc : b.allocLower n with
    | error y => simp [Except.isOk, Except.toBool, halloc, balloc] at hcopy
    | ok q =>
      obtain ⟨r, hft⟩ := find_eq_afterFailedGet (t := t)
        (show (⟨a, false⟩ : Shared).held = false from rfl) halloc
      obtain ⟨r', hfu⟩ := find_eq_afterFailedGet (t := u)
        (show (⟨b, false⟩ : Shared).held = false from rfl) balloc
      rw [hlt] at hft
      rw [hlu] at hfu
      exact (seen_eq_of_ok (find_seen hw hv hs halloc balloc) hft hfu).2

/-- Along a run beside, both tables are in states they reach, and they show alike. -/
theorem Beside.shows (h : Beside t a u b) : Reachable t a ∧ Reachable u b ∧ t.shows a = u.shows b := by
  induction h with
  | start H a b => exact ⟨.empty H a, .empty H b, by simp [Table.shows, Table.empty]⟩
  | get _ ht hu ih =>
    obtain ⟨hrt, hru, hs⟩ := ih
    obtain ⟨-, tr, a₁, halloc, -⟩ := get_eq_ok ht
    obtain ⟨-, tr', b₁, balloc, -⟩ := get_eq_ok hu
    have hseen := get_seen hrt.wellFormed hru.wellFormed hs halloc balloc
    exact ⟨.get hrt ht, .get hru hu, (seen_eq_of_ok hseen ht hu).2⟩
  | find _ ht hu ih =>
    obtain ⟨hrt, hru, hs⟩ := ih
    obtain ⟨-, tr, a₁, halloc, -⟩ := find_eq_ok ht
    obtain ⟨-, tr', b₁, balloc, -⟩ := find_eq_ok hu
    have hseen := find_seen hrt.wellFormed hru.wellFormed hs halloc balloc
    exact ⟨.find hrt ht, .find hru hu, (seen_eq_of_ok hseen ht hu).2⟩
  | getFailed _ _ _ hcopy hlt hlu ih =>
    obtain ⟨hrt, hru, hs⟩ := ih
    exact ⟨hrt.afterFailedGet hlt, hru.afterFailedGet hlu,
      afterFailedGet_shows hrt.wellFormed hru.wellFormed hs hcopy hlt hlu⟩
  | @findFailed t u t' u' a b a' b' n e e' _ _ _ hlt hlu ih =>
    obtain ⟨hrt, hru, hs⟩ := ih
    refine ⟨hrt.afterFailedFind hlt, hru.afterFailedFind hlu, ?_⟩
    -- a failed search changes no table
    cases hlt
    cases hlu
    exact shows_keeps_both hrt.wellFormed hru.wellFormed hs
      (Arena.restored_afterFailedAlloc a _).keeps (Arena.restored_afterFailedAlloc b _).keeps
  | @setKind t u t' u' a b id k _ ht hu ih =>
    obtain ⟨hrt, hru, hs⟩ := ih
    have hk := setKind_shows hs id k
    rw [ht, hu] at hk
    exact ⟨.setKind hrt ht, .setKind hru hu, Option.some.inj hk⟩
  | @clear t u a b _ ih =>
    obtain ⟨hrt, hru, hs⟩ := ih
    have hH : t.hasher = u.hasher := congrArg Prod.fst hs
    exact ⟨.clear hrt, .clear hru, by simp [Table.shows, Table.clear, hH]⟩
  | otherGet _ hg ih =>
    obtain ⟨hrt, hru, hs⟩ := ih
    exact ⟨.share hrt (get_keeps hg), hru, (hrt.wellFormed.shows_keeps (get_keeps hg)).trans hs⟩
  | otherFind _ hf ih =>
    obtain ⟨hrt, hru, hs⟩ := ih
    exact ⟨.share hrt (find_keeps hf), hru, (hrt.wellFormed.shows_keeps (find_keeps hf)).trans hs⟩
  | otherGetFailed _ _ hl ih =>
    obtain ⟨hrt, hru, hs⟩ := ih
    have hk := (restored_afterFailedGet hl).keeps
    exact ⟨.share hrt hk, hru, (hrt.wellFormed.shows_keeps hk).trans hs⟩
  | otherFindFailed _ _ hl ih =>
    obtain ⟨hrt, hru, hs⟩ := ih
    have hk := (restored_afterFailedFind hl).keeps
    exact ⟨.share hrt hk, hru, (hrt.wellFormed.shows_keeps hk).trans hs⟩

/-- What a table among others and the same table run alone have in common. They have as many
symbols, nodes and colliding nodes, and the same root key. They list the same ids with the same
kinds and names, and give every id the same record (kind, name and its length) and the same
name. A lookup or a search answers alike (the same id or none, or the same error) whenever the
trial copy of the name can be made on both arenas. Setting a kind succeeds alike, and a teardown
releases as much. A lookup or a search through any other table sharing the arena, whether it
succeeds or fails, leaves every name of the table as it reads. -/
structure Alike (t : Table) (a : Arena) (u : Table) (b : Arena) : Prop where
  len : t.len = u.len
  nodeCount : t.nodeCount = u.nodeCount
  rootKey : t.rootKey? = u.rootKey?
  collisionCount : t.collisionCount = u.collisionCount
  iter : t.iter.map (fun p => (p.1, p.2.read a)) = u.iter.map (fun p => (p.1, p.2.read b))
  symbol : ∀ id, (t.symbol? id).map (fun s => (s.read a, s.name.len)) =
    (u.symbol? id).map (fun s => (s.read b, s.name.len))
  name : ∀ id, t.name? a id = u.name? b id
  get : ∀ n tr a₁ tr' b₁, a.allocLower n = .ok (tr, a₁) → b.allocLower n = .ok (tr', b₁) →
    (t.get ⟨a, false⟩ n).map (·.1) = (u.get ⟨b, false⟩ n).map (·.1)
  find : ∀ n tr a₁ tr' b₁, a.allocLower n = .ok (tr, a₁) → b.allocLower n = .ok (tr', b₁) →
    (t.find ⟨a, false⟩ n).map (·.1) = (u.find ⟨b, false⟩ n).map (·.1)
  setKind : ∀ id k, (t.setKind id k).isSome = (u.setKind id k).isSome
  clear : t.clear.1 = u.clear.1
  other_get : ∀ (t₀ : Table) n id t₀' a', t₀.get ⟨a, false⟩ n = .ok (id, t₀', a') →
    ∀ id, t.name? a' id = t.name? a id
  other_find : ∀ (t₀ : Table) n r t₀' a', t₀.find ⟨a, false⟩ n = .ok (r, t₀', a') →
    ∀ id, t.name? a' id = t.name? a id
  other_get_failed : ∀ (t₀ : Table) n e t₀' a', t₀.get ⟨a, false⟩ n = .error e →
    t₀.afterFailedGet ⟨a, false⟩ n = (t₀', a') → ∀ id, t.name? a' id = t.name? a id
  other_find_failed : ∀ (t₀ : Table) n e t₀' a', t₀.find ⟨a, false⟩ n = .error e →
    t₀.afterFailedFind ⟨a, false⟩ n = (t₀', a') → ∀ id, t.name? a' id = t.name? a id

/-- A table among others, along any run of calls on it and on the others, answers and shows as
the same table run alone on an arena of any sizing, as long as each trial copy could be made on
both arenas; and the others' lookups never change what its names read. -/
theorem beside_alike (h : Beside t a u b) : Alike t a u b := by
  obtain ⟨hrt, hru, hs⟩ := h.shows
  have hw := hrt.wellFormed
  have hv := hru.wellFormed
  have htree := tree_shows hs
  have hsym := symbol_read_eq hs
  refine ⟨congrArg (fun x => x.2.1) hs, ?_, ?_, ?_, ?_, fun id => ?_, fun id => ?_,
    fun n _ _ _ _ ht hu => map_fst_eq_of_seen (get_seen hw hv hs ht hu),
    fun n _ _ _ _ ht hu => map_fst_eq_of_seen (find_seen hw hv hs ht hu), fun id k => ?_, ?_,
    fun _ _ _ _ _ hg => hw.name?_keeps (get_keeps hg),
    fun _ _ _ _ _ hf => hw.name?_keeps (find_keeps hf),
    fun _ _ _ _ _ _ hl => hw.name?_keeps (restored_afterFailedGet hl).keeps,
    fun _ _ _ _ _ _ hl => hw.name?_keeps (restored_afterFailedFind hl).keeps⟩
  · simpa [nodeCount] using congrArg SplayTree.size htree
  · simpa [rootKey?] using congrArg SplayTree.rootKey? htree
  · rw [collisionCount_read t a, collisionCount_read u b, htree]
  · rw [iter_read, iter_read, htree]
  · -- the length of a name is that of the string it reads as
    have hsid := hsym id
    cases ht : t.symbol? id with
    | none =>
      cases hu : u.symbol? id with
      | none => rfl
      | some s' => simp [ht, hu] at hsid
    | some s =>
      cases hu : u.symbol? id with
      | none => simp [ht, hu] at hsid
      | some s' =>
        simp only [ht, hu, Option.map_some, Option.some.injEq] at hsid ⊢
        obtain ⟨m, hm, hlen⟩ := hw.name_len ht
        obtain ⟨m', hm', hlen'⟩ := hv.name_len hu
        have hmm : m = m' := by
          have h2 := congrArg Prod.snd hsid
          simp only [Symbol.read, hm, hm', Option.some.injEq] at h2
          exact h2
        rw [hsid, hlen, hlen', hmm]
  · rw [name?_read, name?_read, hsym id]
  · simpa using congrArg Option.isSome (setKind_shows hs id k)
  · rw [clear_read t a, clear_read u b, htree]

end Runs

/-- A table among others: another table first stores `x` in the shared arena, and then `Ab` is
looked up both there and alone on an arena of two-byte chunks. The name lies at offset 1 in one
arena and at offset 0 in the other, and the two tables answer and show alike. -/
theorem beside_alike_moved_name :
    let key := Hasher.polynomial.hash "ab"
    let t : Table := ⟨⟨.node .leaf ⟨0, key, ⟨#[⟨none, ⟨0, 1, 2⟩⟩], 1⟩⟩ .leaf, 1⟩, .polynomial, 1⟩
    let a : Arena := ⟨#[⟨"xab".toUTF8, 20000⟩], 100, ⟨20000, 100⟩, some ⟨0, 1, 2⟩, 2⟩
    let u : Table := ⟨⟨.node .leaf ⟨0, key, ⟨#[⟨none, ⟨0, 0, 2⟩⟩], 1⟩⟩ .leaf, 1⟩, .polynomial, 1⟩
    let b : Arena := ⟨#[⟨"ab".toUTF8, 2⟩], 1, ⟨2, 1⟩, some ⟨0, 0, 2⟩, 1⟩
    letI := Allocator.granting
    Beside t a u b ∧ Alike t a u b := by
  let _ : Allocator := Allocator.granting
  intro key t a u b
  have h₀ : (Table.empty .polynomial).get ⟨Arena.empty {}, false⟩ "x" =
      .ok (⟨0, 0⟩, ⟨⟨.node .leaf ⟨0, Hasher.polynomial.hash "x", ⟨#[⟨none, ⟨0, 0, 1⟩⟩], 1⟩⟩ .leaf, 1⟩,
        .polynomial, 1⟩, ⟨#[⟨"x".toUTF8, 20000⟩], 100, ⟨20000, 100⟩, some ⟨0, 0, 1⟩, 1⟩) := by
    cbv
  have h₁ : (Table.empty .polynomial).get
      ⟨⟨#[⟨"x".toUTF8, 20000⟩], 100, ⟨20000, 100⟩, some ⟨0, 0, 1⟩, 1⟩, false⟩ "Ab" =
      .ok (⟨0, 0⟩, t, a) := by
    cbv
  have h₂ : (Table.empty .polynomial).get ⟨Arena.empty ⟨2, 1⟩, false⟩ "Ab" = .ok (⟨0, 0⟩, u, b) := by
    cbv
  have hb : Beside t a u b :=
    .get (.otherGet (.start .polynomial (Arena.empty {}) (Arena.empty ⟨2, 1⟩)) h₀) h₁ h₂
  exact ⟨hb, beside_alike hb⟩

/-- The same lookup on the same empty table succeeds on a fresh arena of the default sizing, and
fails on a fresh arena whose chunks the allocator cannot give. -/
theorem get_depends_on_arena_sizing :
    letI : Allocator := ⟨fun n => decide (n < 18446744073709551615), fun _ => true, fun _ => true,
      fun _ => true⟩
    ((Table.empty .polynomial).get ⟨Arena.empty {}, false⟩ "a").map (·.1) = .ok ⟨0, 0⟩ ∧
      ((Table.empty .polynomial).get ⟨Arena.empty ⟨18446744073709551615, 100⟩, false⟩ "a").map
        (·.1) = .error (.chunkAllocation 18446744073709551615) := by
  let _ : Allocator := ⟨fun n => decide (n < 18446744073709551615), fun _ => true, fun _ => true,
    fun _ => true⟩
  constructor <;> cbv

end Table

end Lexicon
