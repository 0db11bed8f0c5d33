import Lexicon.Splay.Lemmas

/-!
# Mapping the values of a splay tree

The operations of a splay tree look at keys and node numbers only, never at values. So a function
applied to every value commutes with each of them: a search, an insertion, a change of one value,
the in-order view and the teardown. Two trees whose values look alike under some view stay so
under the same operations, and answer them alike.

* `Splay.Tree.map`, `SplayTree.map`: a function applied to every value.
* `SplayTree.map_search`, `map_insert`, `map_modify`, `value?_map`, `entries_map`: the laws.
-/

namespace Lexicon

namespace Splay

variable {α β : Type}

/-- The entry with `g` applied to its value. -/
def Entry.map (g : α → β) (e : Entry α) : Entry β := ⟨e.id, e.key, g e.value⟩

variable (g : α → β)

@[simp] theorem Entry.id_map (e : Entry α) : (e.map g).id = e.id := rfl

@[simp] theorem Entry.key_map (e : Entry α) : (e.map g).key = e.key := rfl

@[simp] theorem Entry.value_map (e : Entry α) : (e.map g).value = g e.value := rfl

namespace Tree

/-- The tree with `g` applied to every value. -/
def map {α β : Type} (g : α → β) : Tree α → Tree β
  | leaf => leaf
  | node l e r => node (map g l) (e.map g) (map g r)

@[simp] theorem map_leaf : (leaf : Tree α).map g = leaf := rfl

@[simp] theorem map_node (l : Tree α) (e : Entry α) (r : Tree α) :
    (node l e r).map g = node (l.map g) (e.map g) (r.map g) := rfl

theorem map_rotateRight (t : Tree α) : t.rotateRight.map g = (t.map g).rotateRight := by
  rcases t with _ | ⟨_ | ⟨a, x, b⟩, p, c⟩ <;> rfl

theorem map_rotateLeft (t : Tree α) : t.rotateLeft.map g = (t.map g).rotateLeft := by
  rcases t with _ | ⟨a, p, _ | ⟨b, x, c⟩⟩ <;> rfl

theorem map_onChild (d : Side) {op : Tree α → Tree α} {op' : Tree β → Tree β}
    (hop : ∀ s, (op s).map g = op' (s.map g)) (t : Tree α) :
    (t.onChild d op).map g = (t.map g).onChild d op' := by
  cases t with
  | leaf => rfl
  | node l e r => cases d <;> simp [onChild, hop]

@[simp] theorem root?_map (t : Tree α) : (t.map g).root? = t.root?.map (Entry.map g) := by
  cases t <;> rfl

@[simp] theorem size_map (t : Tree α) : (t.map g).size = t.size := by
  induction t with
  | leaf => rfl
  | node l e r ihl ihr => simp [size, ihl, ihr]

@[simp] theorem toList_map (t : Tree α) : (t.map g).toList = t.toList.map (Entry.map g) := by
  induction t with
  | leaf => rfl
  | node l e r ihl ihr => simp [ihl, ihr]

@[simp] theorem postOrder_map (t : Tree α) :
    (t.map g).postOrder = t.postOrder.map (Entry.map g) := by
  induction t with
  | leaf => rfl
  | node l e r ihl ihr => simp [ihl, ihr]

theorem find?_map (id : Nat) (t : Tree α) : (t.map g).find? id = (t.find? id).map (Entry.map g) := by
  induction t with
  | leaf => rfl
  | node l e r ihl ihr =>
    by_cases he : e.id = id
    · simp [find?, he]
    · simp only [map_node, find?, Entry.id_map, he, if_false, ihl, ihr]
      cases l.find? id <;> rfl

/-- Maps that agree on the values of a tree agree on the tree. -/
theorem map_congr {g' : α → β} (t : Tree α) (h : ∀ e ∈ t.toList, g e.value = g' e.value) :
    t.map g = t.map g' := by
  induction t with
  | leaf => rfl
  | node l e r ihl ihr =>
    simp only [toList_node, List.mem_append, List.mem_cons] at h
    simp only [map_node]
    rw [ihl fun x hx => h x (.inl hx), ihr fun x hx => h x (.inr (.inr hx))]
    simp [Entry.map, h e (.inr (.inl rfl))]

/-- Changing one value commutes with the map when the change does on single values. -/
theorem map_modify (id : Nat) {f : α → α} {f' : β → β} (hf : ∀ x, g (f x) = f' (g x)) (t : Tree α) :
    (t.modify id f).map g = (t.map g).modify id f' := by
  induction t with
  | leaf => rfl
  | node l e r ihl ihr =>
    by_cases he : e.id = id
    · simp [modify, he, Entry.map, hf]
    · simp [modify, he, ihl, ihr]

end Tree

/-- The frame with `g` applied to its entry's value and to its other subtree. -/
def Frame.map {α β : Type} (g : α → β) (f : Frame α) : Frame β :=
  ⟨f.side, f.entry.map g, f.other.map g⟩

@[simp] theorem Frame.side_map (f : Frame α) : (f.map g).side = f.side := rfl

theorem map_bringUp (d : Side) (t : Tree α) : (d.bringUp t).map g = d.bringUp (t.map g) := by
  cases d
  · exact Tree.map_rotateRight g t
  · exact Tree.map_rotateLeft g t

theorem map_attach (f : Frame α) (c : Tree α) : (f.attach c).map g = (f.map g).attach (c.map g) := by
  obtain ⟨d, e, o⟩ := f
  cases d <;> rfl

theorem map_splayUp (c : Tree α) (path : List (Frame α)) :
    (splayUp c path).map g = splayUp (c.map g) (path.map (Frame.map g)) := by
  fun_induction splayUp c path with
  | case1 c => rfl
  | case2 c f => simp [splayUp, map_bringUp, map_attach]
  | case3 c f1 f2 rest s ih =>
    rw [ih]
    simp only [List.map_cons, splayUp, Frame.side_map]
    congr 1
    by_cases hside : f1.side = f2.side
    · simp only [hside, if_true, s, map_bringUp, map_attach]
    · simp only [hside, if_false]
      rw [map_bringUp, Tree.map_onChild g f2.side (map_bringUp g f1.side)]
      simp only [s, map_attach]

theorem locate_map (k : Key) (t : Tree α) (path : List (Frame α)) :
    (t.map g).locate k (path.map (Frame.map g)) =
      (t.locate k path).map fun p => (p.1.map g, p.2.1.map g, p.2.2.1.map g, p.2.2.2.map (Frame.map g)) := by
  induction t generalizing path with
  | leaf => rfl
  | node l e r ihl ihr =>
    simp only [Tree.map_node, Tree.locate, Entry.key_map]
    by_cases h1 : k < e.key
    · simp only [h1, if_true]
      exact ihl (⟨.left, e, r⟩ :: path)
    · by_cases h2 : e.key < k
      · simp only [h1, h2, if_true, if_false]
        exact ihr (⟨.right, e, l⟩ :: path)
      · simp [h1, h2]

theorem leafPath_map (k : Key) (t : Tree α) (path : List (Frame α)) :
    (t.map g).leafPath k (path.map (Frame.map g)) = (t.leafPath k path).map (Frame.map g) := by
  induction t generalizing path with
  | leaf => rfl
  | node l e r ihl ihr =>
    simp only [Tree.map_node, Tree.leafPath, Entry.key_map]
    by_cases h1 : k < e.key
    · simp only [h1, if_true]
      exact ihl (⟨.left, e, r⟩ :: path)
    · simp only [h1, if_false]
      exact ihr (⟨.right, e, l⟩ :: path)

end Splay

namespace SplayTree

open Splay

/-- The tree with `g` applied to every value; the count of nodes created stays. -/
def map {α β : Type} (g : α → β) (t : SplayTree α) : SplayTree β := ⟨t.root.map g, t.count⟩

variable {α β : Type} (g : α → β)

@[simp] theorem map_empty : (empty : SplayTree α).map g = empty := rfl

@[simp] theorem count_map (t : SplayTree α) : (t.map g).count = t.count := rfl

@[simp] theorem size_map (t : SplayTree α) : (t.map g).size = t.size := rfl

@[simp] theorem rootKey?_map (t : SplayTree α) : (t.map g).rootKey? = t.rootKey? := by
  simp [rootKey?, map, Option.map_map, Function.comp_def]

@[simp] theorem entries_map (t : SplayTree α) : (t.map g).entries = t.entries.map (Entry.map g) := by
  simp [entries, map]

theorem map_congr {g' : α → β} (t : SplayTree α) (h : ∀ e ∈ t.entries, g e.value = g' e.value) :
    t.map g = t.map g' := by
  simp [map, Tree.map_congr g t.root h]

theorem value?_map (t : SplayTree α) (id : Nat) : (t.map g).value? id = (t.value? id).map g := by
  simp [value?, map, Tree.find?_map, Option.map_map, Function.comp_def]

theorem drain_map (t : SplayTree α) :
    (t.map g).drain.1 = t.drain.1.map fun p => (p.1, g p.2) := by
  simp [drain, map, Function.comp_def]

theorem map_modify (id : Nat) {f : α → α} {f' : β → β} (hf : ∀ x, g (f x) = f' (g x))
    (t : SplayTree α) : (t.modify id f).map g = (t.map g).modify id f' := by
  simp [modify, map, Tree.map_modify g id hf]

/-- A search in the mapped tree finds the same node, and leaves the mapped tree. -/
theorem map_search (t : SplayTree α) (k : Key) :
    (t.search k).map (fun p => (p.1, p.2.map g)) = (t.map g).search k := by
  have hloc := locate_map g k t.root []
  simp only [List.map_nil] at hloc
  unfold search
  simp only [map, hloc]
  cases t.root.locate k [] with
  | none => rfl
  | some p =>
    obtain ⟨l, e, r, path⟩ := p
    simp [map_splayUp]

/-- An insertion into the mapped tree gives the same node number, and the mapped tree. -/
theorem map_insert [Allocator] (t : SplayTree α) (k : Key) (v : α) :
    (t.insert k v).map (fun p => (p.1, p.2.map g)) = (t.map g).insert k (g v) := by
  have hpath := leafPath_map g k t.root []
  simp only [List.map_nil] at hpath
  unfold insert
  cases hf : fitField "splay tree nodes" t.count with
  | error err => simp [hf, map, bind, Except.bind, Except.map]
  | ok n =>
    cases hg : Allocator.grantsNodes (t.count + 1)
    · simp [hf, hg, map, bind, Except.bind]
      rfl
    · simp [hf, hg, map, bind, Except.bind, pure, Except.pure, Except.map, hpath, map_splayUp,
        Entry.map]

end SplayTree

end Lexicon
