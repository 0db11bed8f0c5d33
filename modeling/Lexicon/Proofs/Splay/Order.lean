import Lexicon.Splay.Lemmas

/-!
# A splay tree as a key-sorted list

A splay tree stands for the list of its entries in order. Every operation moves that list as an
operation on a key-sorted list would: an insertion puts the new entry after every entry whose key
is at most its own and before all others, a search (and so every splay) leaves the list as it
was, a change of a value touches the entry of that number only, and emptying the tree empties
the list and numbers the next node 0 again.

* `insertRight`: the list operation that an insertion performs.
* `toList_plug_leafPath`, `locate_eq_none_iff`: where the descent of an insertion lands, and that
  a search misses only keys that no entry has.
* `SplayTree.WellFormed`: the nodes are numbered `0` to `count - 1`, each once, in key order.
* `SplayTree.Reachable`: the trees that the operations build from the empty one; all are
  well formed (`Reachable.wellFormed`).
* `SplayTree.MovesAsSortedList`, `SplayTree.inOrder_refines_sorted_list`: the list view of every
  operation, and that it holds on every reachable tree.
-/

namespace Lexicon.Splay

variable {α : Type}

/-- `l` with `e` put after every entry whose key is at most `e.key` and before every other one:
in a key-sorted list, after the last entry of a key at most `e.key`. -/
def insertRight (l : List (Entry α)) (e : Entry α) : List (Entry α) :=
  l.filter (·.key ≤ e.key) ++ e :: l.filter (e.key < ·.key)

/-- The entry with its value changed by `f` if it is numbered `id`, else the entry itself. -/
def Entry.update (id : Nat) (f : α → α) (e : Entry α) : Entry α :=
  if e.id = id then { e with value := f e.value } else e

/-! ## Key order -/

theorem pairwise_node {l r : Tree α} {e : Entry α} :
    (Tree.node l e r).toList.Pairwise (·.key ≤ ·.key) ↔
      l.toList.Pairwise (·.key ≤ ·.key) ∧ r.toList.Pairwise (·.key ≤ ·.key) ∧
        (∀ x ∈ l.toList, x.key ≤ e.key) ∧ ∀ x ∈ r.toList, e.key ≤ x.key := by
  simp only [Tree.toList_node, List.pairwise_append, List.pairwise_cons, List.mem_cons]
  constructor
  · rintro ⟨hl, ⟨hr', hr⟩, hx⟩
    exact ⟨hl, hr, fun x hx' => hx x hx' e (.inl rfl), hr'⟩
  · rintro ⟨hl, hr, hle, hge⟩
    refine ⟨hl, ⟨hge, hr⟩, fun x hx y hy => ?_⟩
    rcases hy with rfl | hy
    · exact hle x hx
    · exact UInt64.le_trans (hle x hx) (hge y hy)

theorem pairwise_insertRight {l : List (Entry α)} (e : Entry α)
    (hs : l.Pairwise (·.key ≤ ·.key)) : (insertRight l e).Pairwise (·.key ≤ ·.key) := by
  simp only [insertRight, List.pairwise_append, List.pairwise_cons, List.mem_cons, List.mem_filter,
    decide_eq_true_eq]
  refine ⟨hs.filter _, ⟨fun x hx => UInt64.le_of_lt hx.2, hs.filter _⟩, ?_⟩
  rintro x ⟨-, hx⟩ y (rfl | ⟨-, hy⟩)
  · exact hx
  · exact UInt64.le_of_lt (UInt64.lt_of_le_of_lt hx hy)

theorem perm_insertRight (l : List (Entry α)) (e : Entry α) : (insertRight l e).Perm (e :: l) := by
  have hsplit : (l.filter (·.key ≤ e.key) ++ l.filter (e.key < ·.key)).Perm l := by
    have := List.filter_append_perm (fun x : Entry α => decide (x.key ≤ e.key)) l
    simpa only [← decide_not, UInt64.not_le] using this
  exact List.perm_middle.trans (hsplit.cons e)

/-! ## The descent of an insertion -/

theorem leafPath_eq_append (k : Key) (t : Tree α) (path : List (Frame α)) :
    t.leafPath k path = t.leafPath k [] ++ path := by
  induction t generalizing path with
  | leaf => rfl
  | node l e r ihl ihr =>
    simp only [Tree.leafPath]
    split
    · rw [ihl, ihl [⟨.left, e, r⟩]]; simp
    · rw [ihr, ihr [⟨.right, e, l⟩]]; simp

theorem plug_append (p q : List (Frame α)) (c : Tree α) : plug (p ++ q) c = plug q (plug p c) := by
  induction p generalizing c with
  | nil => rfl
  | cons f p ih => exact ih (f.attach c)

/-- The descent of an insertion of key `k` into a key-sorted tree ends where a subtree put in
place of the leaf comes after every entry of key at most `k` and before every other one. -/
theorem toList_plug_leafPath (k : Key) (c : Tree α) :
    ∀ t : Tree α, t.toList.Pairwise (·.key ≤ ·.key) →
      (plug (t.leafPath k []) c).toList =
        t.toList.filter (·.key ≤ k) ++ c.toList ++ t.toList.filter (k < ·.key)
  | .leaf, _ => by simp [Tree.leafPath, plug]
  | .node l e r, hs => by
    obtain ⟨hl, hr, hle, hge⟩ := pairwise_node.mp hs
    simp only [Tree.leafPath]
    split
    · next hk =>
      -- going left: every entry on the right has a key above `k`
      have hr₁ : r.toList.filter (·.key ≤ k) = [] := by
        simp only [List.filter_eq_nil_iff, decide_eq_true_eq, UInt64.not_le]
        exact fun x hx => UInt64.lt_of_lt_of_le hk (hge x hx)
      have hr₂ : r.toList.filter (k < ·.key) = r.toList := by
        simp only [List.filter_eq_self, decide_eq_true_eq]
        exact fun x hx => UInt64.lt_of_lt_of_le hk (hge x hx)
      rw [leafPath_eq_append, plug_append]
      simp only [plug, Frame.attach, Tree.toList_node]
      rw [toList_plug_leafPath k c l hl]
      simp [List.filter_append, hk, UInt64.not_le.mpr hk, hr₁, hr₂]
    · next hk =>
      -- going right: every entry on the left has a key at most `k`
      have hk' : e.key ≤ k := UInt64.not_lt.mp hk
      have hl₁ : l.toList.filter (·.key ≤ k) = l.toList := by
        simp only [List.filter_eq_self, decide_eq_true_eq]
        exact fun x hx => UInt64.le_trans (hle x hx) hk'
      have hl₂ : l.toList.filter (k < ·.key) = [] := by
        simp only [List.filter_eq_nil_iff, decide_eq_true_eq, UInt64.not_lt]
        exact fun x hx => UInt64.le_trans (hle x hx) hk'
      rw [leafPath_eq_append, plug_append]
      simp only [plug, Frame.attach, Tree.toList_node]
      rw [toList_plug_leafPath k c r hr]
      simp [List.filter_append, hk, hk', hl₁, hl₂]

/-! ## The descent of a search -/

/-- The node a search stops at, put back along its path, is the tree searched. -/
theorem locate_plug (k : Key) :
    ∀ (t : Tree α) (path : List (Frame α)) {l r : Tree α} {e : Entry α} {p : List (Frame α)},
      t.locate k path = some (l, e, r, p) → plug p (.node l e r) = plug path t
  | .leaf, _, _, _, _, _, h => by simp [Tree.locate] at h
  | .node tl te tr, path, l, r, e, p, h => by
    simp only [Tree.locate] at h
    split at h
    · exact locate_plug k tl _ h
    · split at h
      · exact locate_plug k tr _ h
      · simp only [Option.some.injEq, Prod.mk.injEq] at h
        obtain ⟨rfl, rfl, rfl, rfl⟩ := h
        rfl

/-- In a key-sorted tree a search misses exactly the keys that no entry has. -/
theorem locate_eq_none_iff (k : Key) :
    ∀ (t : Tree α) (path : List (Frame α)), t.toList.Pairwise (·.key ≤ ·.key) →
      (t.locate k path = none ↔ ∀ x ∈ t.toList, x.key ≠ k)
  | .leaf, _, _ => by simp [Tree.locate]
  | .node l e r, path, hs => by
    obtain ⟨hl, hr, hle, hge⟩ := pairwise_node.mp hs
    simp only [Tree.locate, Tree.toList_node, List.mem_append, List.mem_cons]
    split
    · next hk =>
      rw [locate_eq_none_iff k l _ hl]
      -- the key is below the node's, so neither the node nor its right subtree has it
      have hright : ∀ x ∈ r.toList, x.key ≠ k := fun x hx =>
        (UInt64.ne_of_lt (UInt64.lt_of_lt_of_le hk (hge x hx))).symm
      constructor
      · rintro h x (hx | rfl | hx)
        · exact h x hx
        · exact (UInt64.ne_of_lt hk).symm
        · exact hright x hx
      · exact fun h x hx => h x (.inl hx)
    · split
      · next hk' hk =>
        rw [locate_eq_none_iff k r _ hr]
        have hleft : ∀ x ∈ l.toList, x.key ≠ k := fun x hx =>
          UInt64.ne_of_lt (UInt64.lt_of_le_of_lt (hle x hx) hk)
        constructor
        · rintro h x (hx | rfl | hx)
          · exact hleft x hx
          · exact UInt64.ne_of_lt hk
          · exact h x hx
        · exact fun h x hx => h x (.inr (.inr hx))
      · next hk' hk =>
        simp only [reduceCtorEq, false_iff]
        exact fun h => h e (.inr (.inl rfl))
          (UInt64.le_antisymm (UInt64.not_lt.mp hk') (UInt64.not_lt.mp hk))

/-! ## Changing one value -/

theorem Entry.update_of_ne {id : Nat} {f : α → α} {e : Entry α} (h : e.id ≠ id) :
    e.update id f = e :=
  if_neg h

theorem map_update_of_forall_ne {id : Nat} {f : α → α} :
    ∀ {l : List (Entry α)}, (∀ x ∈ l, x.id ≠ id) → l.map (Entry.update id f) = l
  | [], _ => rfl
  | x :: l, h => by
    rw [List.map_cons, Entry.update_of_ne (h x (.head _)),
      map_update_of_forall_ne fun y hy => h y (.tail _ hy)]

theorem toList_modify (id : Nat) (f : α → α) :
    ∀ t : Tree α, (t.toList.map (·.id)).Nodup →
      (t.modify id f).toList = t.toList.map (Entry.update id f)
  | .leaf, _ => rfl
  | .node l e r, hnd => by
    rw [Tree.toList_node, List.map_append, List.map_cons] at hnd
    obtain ⟨hndl, hndr', hdisj⟩ := List.nodup_append.mp hnd
    obtain ⟨hne, hndr⟩ := List.nodup_cons.mp hndr'
    simp only [Tree.modify]
    split
    · next he =>
      -- the numbers below the node differ from its own, so no entry there changes
      have hl : l.toList.map (Entry.update id f) = l.toList :=
        map_update_of_forall_ne fun x hx hx' =>
          hdisj x.id (List.mem_map_of_mem hx) e.id (.head _) (hx'.trans he.symm)
      have hr : r.toList.map (Entry.update id f) = r.toList :=
        map_update_of_forall_ne fun x hx hx' =>
          hne (by rw [← hx'.trans he.symm]; exact List.mem_map_of_mem hx)
      simp [hl, hr, Entry.update, he]
    · next he =>
      simp [toList_modify id f l hndl, toList_modify id f r hndr, Entry.update, he]

end Lexicon.Splay

namespace Lexicon.SplayTree

open Splay

variable {α : Type} {t t' : SplayTree α} {k : Key} {id : Nat}

@[simp] theorem Entry.id_update (i : Nat) (f : α → α) (e : Entry α) : (e.update i f).id = e.id := by
  unfold Entry.update; split <;> rfl

@[simp] theorem Entry.key_update (i : Nat) (f : α → α) (e : Entry α) :
    (e.update i f).key = e.key := by
  unfold Entry.update; split <;> rfl

/-! ## Each operation on the list of entries -/

/-- A search that hits splays its node up and leaves the entries and the count as they were. -/
theorem search_entries (h : t.search k = some (id, t')) :
    t'.entries = t.entries ∧ t'.size = t.size := by
  unfold search at h
  split at h
  · next l e r path hl =>
    simp only [Option.some.injEq, Prod.mk.injEq] at h
    obtain ⟨rfl, rfl⟩ := h
    refine ⟨?_, rfl⟩
    simp only [entries]
    rw [toList_splayUp, locate_plug k t.root [] hl]
    rfl
  · simp at h

/-- In a key-sorted tree a search misses exactly when no entry has the key. -/
theorem search_eq_none_iff (hs : t.entries.Pairwise (·.key ≤ ·.key)) (k : Key) :
    t.search k = none ↔ ∀ e ∈ t.entries, e.key ≠ k := by
  unfold entries at hs ⊢
  rw [← locate_eq_none_iff k t.root [] hs]
  unfold search
  split <;> simp_all

theorem insert_ok [Allocator] (v : α) (h : t.size ≤ fieldMax)
    (hg : Allocator.grantsNodes (t.size + 1) = true) :
    ∃ t', t.insert k v = .ok (t.size, t') :=
  ⟨_, insert_eq_ok.mpr ⟨h, hg, rfl, rfl⟩⟩

/-- An insertion into a key-sorted tree puts the new entry right after the entries of key at
most its own. -/
theorem insert_entries [Allocator] {v : α} (hs : t.entries.Pairwise (·.key ≤ ·.key))
    (h : t.insert k v = .ok (id, t')) :
    id = t.size ∧ t'.size = t.size + 1 ∧ t'.entries = insertRight t.entries ⟨id, k, v⟩ := by
  obtain ⟨-, -, rfl, rfl⟩ := insert_eq_ok.mp h
  refine ⟨rfl, rfl, ?_⟩
  simp only [entries, toList_splayUp]
  rw [toList_plug_leafPath k _ t.root hs]
  simp [insertRight]

/-- A lookup-or-insert either hits, as a search, or misses and inserts `make ()`. -/
theorem getOrInsert_eq_ok [Allocator] {make : Unit → α} {b : Bool} :
    t.getOrInsert k make = .ok (id, b, t') ↔
      b = false ∧ t.search k = some (id, t') ∨
        b = true ∧ t.search k = none ∧ t.insert k (make ()) = .ok (id, t') := by
  unfold getOrInsert
  split
  · next id₀ t₀ hs =>
    constructor
    · intro h
      cases h
      exact .inl ⟨rfl, hs⟩
    · rintro (⟨rfl, h⟩ | ⟨-, h, -⟩) <;> rw [hs] at h <;> cases h
      rfl
  · next hs =>
    cases hi : t.insert k (make ()) with
    | error err => simp [hs, bind, Except.bind]
    | ok r =>
      obtain ⟨id₁, t₁⟩ := r
      simp only [bind, Except.bind, pure, Except.pure]
      constructor
      · intro h
        cases h
        exact .inr ⟨rfl, hs, rfl⟩
      · rintro (⟨-, h⟩ | ⟨rfl, -, h⟩)
        · rw [hs] at h; cases h
        · cases h; rfl

/-- Changing the value of one node changes that entry's value and nothing else. -/
theorem modify_entries (hnd : (t.entries.map (·.id)).Nodup) (i : Nat) (f : α → α) :
    (t.modify i f).entries = t.entries.map (Entry.update i f) ∧ (t.modify i f).size = t.size :=
  ⟨toList_modify i f t.root hnd, rfl⟩

/-! ## Well-formed trees -/

/-- The invariant of every tree the operations build: its nodes are numbered `0` to
`size - 1`, each once, and its entries are in key order. -/
structure WellFormed (t : SplayTree α) : Prop where
  ids : (t.entries.map (·.id)).Perm (List.range t.size)
  sorted : t.entries.Pairwise (·.key ≤ ·.key)

theorem WellFormed.nodup (hw : t.WellFormed) : (t.entries.map (·.id)).Nodup :=
  hw.ids.nodup_iff.mpr List.nodup_range

theorem WellFormed.length_entries (hw : t.WellFormed) : t.entries.length = t.size := by
  simpa using hw.ids.length_eq

theorem WellFormed.empty : (empty : SplayTree α).WellFormed :=
  ⟨.nil, .nil⟩

theorem WellFormed.search (hw : t.WellFormed) (h : t.search k = some (id, t')) :
    t'.WellFormed := by
  obtain ⟨he, hs⟩ := search_entries h
  exact ⟨he ▸ hs ▸ hw.ids, he ▸ hw.sorted⟩

theorem WellFormed.insert [Allocator] {v : α} (hw : t.WellFormed) (h : t.insert k v = .ok (id, t')) :
    t'.WellFormed := by
  obtain ⟨rfl, hsz, he⟩ := insert_entries hw.sorted h
  refine ⟨?_, he ▸ pairwise_insertRight _ hw.sorted⟩
  rw [he, hsz, List.range_succ]
  -- the new number is the old count, appended to the old numbers
  have hperm := (perm_insertRight t.entries ⟨t.size, k, v⟩).map (·.id)
  exact hperm.trans ((hw.ids.cons t.size).trans (List.perm_append_singleton _ _).symm)

theorem WellFormed.modify (hw : t.WellFormed) (i : Nat) (f : α → α) :
    (t.modify i f).WellFormed := by
  obtain ⟨he, hsz⟩ := modify_entries hw.nodup i f
  refine ⟨?_, ?_⟩
  · rw [he, hsz, List.map_map]
    simpa [Function.comp_def] using hw.ids
  · rw [he, List.pairwise_map]
    simpa using hw.sorted

theorem WellFormed.getOrInsert [Allocator] {make : Unit → α} {b : Bool} (hw : t.WellFormed)
    (h : t.getOrInsert k make = .ok (id, b, t')) : t'.WellFormed := by
  rcases getOrInsert_eq_ok.mp h with ⟨-, hs⟩ | ⟨-, -, hi⟩
  · exact hw.search hs
  · exact hw.insert hi

/-- The trees that the operations build from the empty one. A failed insertion returns an error
and leaves its tree to the caller unchanged, so it adds no tree. -/
inductive Reachable [Allocator] : SplayTree α → Prop
  | empty : Reachable .empty
  | insert {t t' : SplayTree α} {k : Key} {v : α} {id : Nat} :
      Reachable t → t.insert k v = .ok (id, t') → Reachable t'
  | getOrInsert {t t' : SplayTree α} {k : Key} {make : Unit → α} {id : Nat} {b : Bool} :
      Reachable t → t.getOrInsert k make = .ok (id, b, t') → Reachable t'
  | search {t t' : SplayTree α} {k : Key} {id : Nat} :
      Reachable t → t.search k = some (id, t') → Reachable t'
  | modify {t : SplayTree α} (i : Nat) (f : α → α) : Reachable t → Reachable (t.modify i f)
  | clear {t : SplayTree α} : Reachable t → Reachable t.clear.2
  | drain {t : SplayTree α} : Reachable t → Reachable t.drain.2

theorem Reachable.wellFormed [Allocator] (h : t.Reachable) : t.WellFormed := by
  induction h with
  | empty => exact .empty
  | insert _ hi ih => exact ih.insert hi
  | getOrInsert _ hg ih => exact ih.getOrInsert hg
  | search _ hs ih => exact ih.search hs
  | modify i f _ ih => exact ih.modify i f
  | clear _ _ => exact .empty
  | drain _ _ => exact .empty

/-- The laws by which the in-order entries of `t` move as a key-sorted list numbered `0` to
`size - 1`: an insertion, which succeeds whenever the count fits and the allocator grants room
for the node, numbers the new node by the count and puts it after every entry of key at most its
own; a search misses only absent keys and leaves the list as it was; a lookup-or-insert is a
search that hits, or an insertion after a miss; a change of a value touches the entry of that
number only; emptying gives the empty list and count 0, so that numbering starts again at 0. -/
structure MovesAsSortedList [Allocator] (t : SplayTree α) : Prop where
  sorted : t.entries.Pairwise (·.key ≤ ·.key)
  numbered : (t.entries.map (·.id)).Perm (List.range t.size)
  insert_ok : ∀ (k : Key) (v : α), t.size ≤ fieldMax → Allocator.grantsNodes (t.size + 1) = true →
    ∃ t', t.insert k v = .ok (t.size, t')
  insert : ∀ (k : Key) (v : α) id t', t.insert k v = .ok (id, t') →
    id = t.size ∧ t'.size = t.size + 1 ∧ t'.entries = insertRight t.entries ⟨id, k, v⟩
  search_none : ∀ k, t.search k = none ↔ ∀ e ∈ t.entries, e.key ≠ k
  search : ∀ k id t', t.search k = some (id, t') → t'.size = t.size ∧ t'.entries = t.entries
  getOrInsert : ∀ k make id b t', t.getOrInsert k make = .ok (id, b, t') →
    b = false ∧ t'.size = t.size ∧ t'.entries = t.entries ∨
      b = true ∧ t.search k = none ∧ t.insert k (make ()) = .ok (id, t')
  modify : ∀ i f, (t.modify i f).size = t.size ∧
    (t.modify i f).entries = t.entries.map (Entry.update i f)
  clear : t.clear.2.entries = [] ∧ t.clear.2.size = 0
  drain : t.drain.2.entries = [] ∧ t.drain.2.size = 0

/-- On every reachable tree, each operation moves the in-order entries as the same operation
moves a key-sorted list. -/
theorem inOrder_refines_sorted_list [Allocator] (h : t.Reachable) : t.MovesAsSortedList := by
  have hw := h.wellFormed
  refine ⟨hw.sorted, hw.ids, fun k v hk hg => insert_ok v hk hg,
    fun k v id t' hi => insert_entries hw.sorted hi, search_eq_none_iff hw.sorted,
    fun k id t' hs => (search_entries hs).symm, ?_, fun i f => (modify_entries hw.nodup i f).symm,
    ⟨rfl, rfl⟩, ⟨rfl, rfl⟩⟩
  intro k make id b t' hg
  rcases getOrInsert_eq_ok.mp hg with ⟨rfl, hs⟩ | hmiss
  · exact .inl ⟨rfl, (search_entries hs).symm⟩
  · exact .inr hmiss

/-- Two insertions of one key: the second node goes right of the first and is splayed above it. -/
theorem inOrder_refines_sorted_list_equal_keys :
    letI := Allocator.granting
    (⟨.node (.node .leaf ⟨0, 5, ()⟩ .leaf) ⟨1, 5, ()⟩ .leaf, 2⟩ : SplayTree Unit).Reachable ∧
      (⟨.node (.node .leaf ⟨0, 5, ()⟩ .leaf) ⟨1, 5, ()⟩ .leaf, 2⟩ :
        SplayTree Unit).MovesAsSortedList := by
  let _ : Allocator := Allocator.granting
  have h₁ : (empty : SplayTree Unit).insert 5 () = .ok (0, ⟨.node .leaf ⟨0, 5, ()⟩ .leaf, 1⟩) := rfl
  have h₂ : (⟨.node .leaf ⟨0, 5, ()⟩ .leaf, 1⟩ : SplayTree Unit).insert 5 () =
      .ok (1, ⟨.node (.node .leaf ⟨0, 5, ()⟩ .leaf) ⟨1, 5, ()⟩ .leaf, 2⟩) := rfl
  have hr := Reachable.insert (Reachable.insert .empty h₁) h₂
  exact ⟨hr, inOrder_refines_sorted_list hr⟩

end Lexicon.SplayTree
