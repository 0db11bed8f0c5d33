import Mathlib
import Lexicon.Proofs.Splay.Walks

/-!
# The node vector refines the splay tree

A node vector represents a splay tree when it stores the tree's shape, names its root and holds
one node for every node the tree has created. Every operation of the vector keeps this: a
search splays the node the tree's search splays, an insertion attaches and splays the node the
tree's insertion does, under the same checks and with the same failures, and the teardown
releases the nodes in the tree's post-order. So every vector that the operations build from the
empty one represents a tree that the tree's operations build, and what is proved of those trees
holds of the vector.

* `SplayNodes.Represents`: the vector and the tree it represents.
* `SplayNodes.Represents.search`, `insert`, `getOrInsert`, `drain`, `clear`: one operation each.
* `SplayNodes.Reachable`, `SplayNodes.Reachable.represents`: the vectors the operations build,
  and the trees they represent.
* `SplayNodes.WellLinked`, `SplayNodes.reachable_links_consistent`: the links of every such vector
  agree with each other and with the keys, and every walk by them ends.
-/

namespace Lexicon.Splay.Tree

variable {α : Type}

/-- With distinct numbers, a tree's rows are the nodes it stores. -/
theorem mem_rows_iff {r : Row α} : ∀ {t : Tree α} {q : Option Nat}, t.ids.Nodup →
    (r ∈ t.rows q ↔ t.nodeAt q r.id = some ⟨r.key, r.left, r.right, r.parent, r.value⟩)
  | leaf, _, _ => by simp [nodeAt]
  | node l e t, q, hnd => by
    obtain ⟨hl, ht, -, -, -⟩ := nodup_ids_node hnd
    simp only [rows_node, List.mem_append, List.mem_cons]
    constructor
    · rintro (h | rfl | h)
      · have hi := (isSome_nodeAt (q := some e.id) (i := r.id) (t := l)).mp (by simp [(mem_rows_iff hl).mp h])
        rw [nodeAt_node_left hnd hi]
        exact (mem_rows_iff hl).mp h
      · exact nodeAt_root q l e t
      · have hi := (isSome_nodeAt (q := some e.id) (i := r.id) (t := t)).mp (by simp [(mem_rows_iff ht).mp h])
        rw [nodeAt_node_right hnd hi]
        exact (mem_rows_iff ht).mp h
    · intro h
      have hmem := (isSome_nodeAt (q := q) (i := r.id) (t := node l e t)).mp (by simp [h])
      rw [ids_node, List.mem_append, List.mem_cons] at hmem
      rcases hmem with hi | hi | hi
      · rw [nodeAt_node_left hnd hi] at h
        exact .inl ((mem_rows_iff hl).mpr h)
      · -- the node's own row: its fields are the ones the tree stores
        rw [hi, nodeAt_root] at h
        cases r
        simp only [Option.some.injEq, Node.mk.injEq] at h hi
        obtain ⟨rfl, rfl, rfl, rfl, rfl⟩ := h
        subst hi
        exact .inr (.inl rfl)
      · rw [nodeAt_node_right hnd hi] at h
        exact .inr (.inr ((mem_rows_iff ht).mpr h))

theorem rootId_eq_none_iff {t : Tree α} : t.rootId = none ↔ t.size = 0 := by
  cases t with
  | leaf => simp [size]
  | node l e r => simp [size]

end Lexicon.Splay.Tree

namespace Lexicon.SplayNodes

open Splay

variable {α : Type} {s s' : SplayNodes α} {T : SplayTree α}

/-- The vector represents the splay tree `T`: it stores `T`'s shape, has `T`'s root as its root
number, and holds as many nodes as `T` has created. -/
structure Represents (s : SplayNodes α) (T : SplayTree α) : Prop where
  shapes : s.Shapes T.root
  root : s.root = T.root.rootId
  count : s.nodes.size = T.count

theorem represents_empty : (empty : SplayNodes α).Represents .empty :=
  ⟨⟨List.nodup_nil, fun _ => by simp [node?, empty, SplayTree.empty, Splay.Tree.nodeAt]⟩, rfl, rfl⟩

theorem ids_splayUp (c : Splay.Tree α) (path : List (Frame α)) :
    (splayUp c path).ids = (plug path c).ids := by
  simp only [Splay.Tree.ids, toList_splayUp]

/-- A new leaf put in along an insertion's descent, and splayed, adds one number. -/
theorem length_ids_insert (t : Splay.Tree α) (k : Key) (x : Entry α) :
    (splayUp (.node .leaf x .leaf) (t.leafPath k [])).ids.length = t.ids.length + 1 := by
  have hlen := (ids_plug_perm (t.leafPath k []) (.node .leaf x .leaf)).length_eq
  rw [Splay.Tree.plug_leafPath] at hlen
  simp only [Splay.Tree.ids_node, Splay.Tree.ids_leaf, List.nil_append, List.singleton_append,
    List.length_cons, plug] at hlen
  rw [ids_splayUp, hlen]

/-- Two vectors storing trees with the same entries hold as many nodes. -/
theorem Shapes.nodes_size_eq {t t' : Splay.Tree α} (hs : s.Shapes t) (hs' : s'.Shapes t')
    (h : t'.toList = t.toList) : s'.nodes.size = s.nodes.size := by
  rw [hs'.size_tree, hs.size_tree, ← Splay.Tree.length_toList, ← Splay.Tree.length_toList, h]

/-- The results of an operation on the vector and on the tree agree: the same failure, or
successes related by `R`. -/
def Agree {ε β γ : Type} (R : β → γ → Prop) : Except ε β → Except ε γ → Prop
  | .error e, .error e' => e = e'
  | .ok b, .ok c => R b c
  | _, _ => False

/-! ## One operation at a time -/

/-- A search on the vector finds the node the tree's search finds and splays it the same way; a
miss leaves both as they were. -/
theorem Represents.search (h : s.Represents T) (k : Key) :
    ∃ s', s.search k = some ((T.search k).map (·.1), s') ∧
      s'.Represents (((T.search k).map (·.2)).getD T) := by
  have hs₀ : s.Shapes (plug [] T.root) := h.shapes
  have hd : s.descend k s.nodes.size s.root = some ((T.root.locate k []).map (·.2.1.id)) := by
    rw [h.root]
    exact hs₀.descend k (h.shapes.size_tree ▸ Nat.le_refl _)
  cases hl : T.root.locate k [] with
  | none =>
    have hT : T.search k = none := by simp [SplayTree.search, hl]
    refine ⟨s, ?_, by simpa [hT] using h⟩
    simp [SplayNodes.search, hd, hl, hT]
  | some res =>
    obtain ⟨l, e, r, path⟩ := res
    have hT : T.search k = some (e.id, { T with root := splayUp (.node l e r) path }) := by
      simp [SplayTree.search, hl]
    have hs₁ : s.Shapes (plug path (.node l e r)) := by
      rw [locate_plug k T.root [] hl]
      exact h.shapes
    obtain ⟨s', hsplay, hroot, hs'⟩ := hs₁.splay
    refine ⟨s', by simp [SplayNodes.search, hd, hl, hsplay, hT], ?_⟩
    obtain ⟨l', r', htop⟩ := splayUp_root path l e r
    have hsize := hs₁.nodes_size_eq hs' (toList_splayUp _ _)
    simp only [hT, Option.map_some, Option.getD_some]
    exact ⟨hs', by rw [hroot, htop]; rfl, hsize.trans h.count⟩

section Inserting

variable [Allocator]

/-- An insertion into the vector checks what the tree's insertion checks, fails as it fails,
and otherwise attaches and splays the node it does, with the same number. -/
theorem Represents.insert (h : s.Represents T) (k : Key) (v : α) :
    ∃ r, s.insert k v = some r ∧
      Agree (fun a b => a.1 = b.1 ∧ a.2.Represents b.2) r (T.insert k v) := by
  have hcount : s.nodes.size = T.size := h.count
  rw [SplayTree.insert_eq]
  unfold SplayNodes.insert fitField
  rw [hcount]
  by_cases hfit : T.size ≤ fieldMax
  · rw [if_pos hfit, if_pos hfit]
    by_cases hg : Allocator.grantsNodes (T.size + 1) = true
    · obtain ⟨s', hatt, hroot, hs'⟩ := h.shapes.attach h.root k v
      rw [hcount] at hatt hroot hs'
      refine ⟨.ok (T.size, s'), by simp only [hg, if_true, hatt, Option.map_some], ?_⟩
      rw [if_pos hg]
      obtain ⟨l', r', htop⟩ := splayUp_root (T.root.leafPath k []) .leaf ⟨T.size, k, v⟩ .leaf
      have hsize := hs'.size_eq
      simp only [size] at hsize
      refine ⟨rfl, hs', by rw [hroot, htop]; rfl, ?_⟩
      -- one more node than the tree had
      rw [hsize, length_ids_insert, Splay.Tree.length_ids, ← h.shapes.size_tree, hcount]
    · rw [Bool.not_eq_true] at hg
      exact ⟨.error (.nodeAllocation (T.size + 1)), by simp [hg], by simp [hg, Agree]⟩
  · rw [if_neg hfit, if_neg hfit]
    exact ⟨_, rfl, rfl⟩

/-- A lookup-or-insert on the vector is the search, and after a miss the insertion, that the
tree's lookup-or-insert makes. -/
theorem Represents.getOrInsert (h : s.Represents T) (k : Key) (make : Unit → α) :
    ∃ r, s.getOrInsert k make = some r ∧
      Agree (fun a b => a.1 = b.1 ∧ a.2.1 = b.2.1 ∧ a.2.2.Represents b.2.2) r
        (T.getOrInsert k make) := by
  obtain ⟨s₁, hs, h₁⟩ := h.search k
  cases hT : T.search k with
  | some res =>
    obtain ⟨i, T₁⟩ := res
    simp only [hT, Option.map_some, Option.getD_some] at hs h₁
    refine ⟨.ok (i, false, s₁), by simp [SplayNodes.getOrInsert, hs], ?_⟩
    simp only [SplayTree.getOrInsert, hT]
    exact ⟨rfl, rfl, h₁⟩
  | none =>
    simp only [hT, Option.map_none, Option.getD_none] at hs h₁
    obtain ⟨r, hr, hagree⟩ := h₁.insert k (make ())
    refine ⟨r.map fun a => (a.1, true, a.2), by simp [SplayNodes.getOrInsert, hs, hr], ?_⟩
    simp only [SplayTree.getOrInsert, hT]
    cases r <;> cases hTi : T.insert k (make ()) <;> rw [hTi] at hagree <;>
      simp_all [Agree, Except.map, bind, Except.bind, pure, Except.pure]

end Inserting

/-! ## The walks over the whole tree -/

theorem inOrder_eq_elim (s : SplayNodes α) :
    s.inOrder = s.root.elim (some []) (s.collectInOrder s.nodes.size) := by
  unfold inOrder
  cases s.root <;> rfl

theorem postOrder_eq_elim (s : SplayNodes α) :
    s.postOrder = s.root.elim (some []) (s.collectPostOrder s.nodes.size) := by
  unfold postOrder
  cases s.root <;> rfl

/-- The in-order walk from the root reaches the numbers of the represented tree in order. -/
theorem Represents.inOrder (h : s.Represents T) : s.inOrder = some T.root.ids := by
  have hs₀ : s.Shapes (plug [] T.root) := h.shapes
  rw [inOrder_eq_elim, h.root]
  exact hs₀.collectInOrder (h.shapes.size_tree ▸ Splay.Tree.height_le_size _)

/-- The post-order walk from the root reaches the numbers of the represented tree children
first. -/
theorem Represents.postOrder (h : s.Represents T) :
    s.postOrder = some (T.root.postOrder.map (·.id)) := by
  have hs₀ : s.Shapes (plug [] T.root) := h.shapes
  rw [postOrder_eq_elim, h.root]
  exact hs₀.collectPostOrder (h.shapes.size_tree ▸ Splay.Tree.height_le_size _)

theorem Represents.size_root (h : s.Represents T) : T.root.size = T.count := by
  rw [← h.shapes.size_tree, h.count]

/-- The teardown of the vector releases what the tree's teardown releases, counts the tree's
nodes, and leaves the empty vector. -/
theorem Represents.drain (h : s.Represents T) : s.drain = some (T.drain.1, T.count, empty) := by
  have hnd : (T.root.postOrder.map (·.id)).Nodup :=
    ((Splay.Tree.postOrder_perm_toList T.root).map _).nodup_iff.mpr h.shapes.nodup
  -- every node the walk reaches is still in its slot when it is taken
  have hin : ∀ x ∈ T.root.postOrder, ∃ n, (s.nodes.map some)[x.id]? = some (some n) ∧
      n.key = x.key ∧ n.value = x.value := by
    intro x hx
    obtain ⟨n, hn, hkey, hvalue⟩ :=
      Splay.Tree.nodeAt_entry (q := none) h.shapes.nodup ((Splay.Tree.postOrder_perm_toList T.root).subset hx)
    refine ⟨n, ?_, hkey, hvalue⟩
    rw [Array.getElem?_map, ← node?, h.shapes.stores, hn, Option.map_some]
  simp only [SplayNodes.drain, h.postOrder, Option.bind_eq_bind, Option.bind_some,
    takeAll_map _ _ hnd hin, List.length_map, Splay.Tree.length_postOrder, h.size_root]
  rfl

/-- Emptying the vector counts the tree's nodes and leaves the empty vector. -/
theorem Represents.clear (h : s.Represents T) : s.clear = some (T.clear.1, empty) := by
  rw [SplayNodes.clear, h.drain]
  simp [SplayTree.clear, SplayTree.drain, Splay.Tree.length_postOrder, h.size_root]

/-! ## Every reachable vector represents a reachable tree -/

section Runs

variable [Allocator]

/-- The vectors that the operations build from the empty one. A failed insertion returns an
error and leaves its vector to the caller unchanged, so it adds no vector. -/
inductive Reachable : SplayNodes α → Prop
  | empty : Reachable empty
  | insert {s s' : SplayNodes α} {k : Key} {v : α} {i : Nat} :
      Reachable s → s.insert k v = some (.ok (i, s')) → Reachable s'
  | getOrInsert {s s' : SplayNodes α} {k : Key} {make : Unit → α} {i : Nat} {b : Bool} :
      Reachable s → s.getOrInsert k make = some (.ok (i, b, s')) → Reachable s'
  | search {s s' : SplayNodes α} {k : Key} {r : Option Nat} :
      Reachable s → s.search k = some (r, s') → Reachable s'
  | drain {s s' : SplayNodes α} {out : List (Key × α)} {n : Nat} :
      Reachable s → s.drain = some (out, n, s') → Reachable s'
  | clear {s s' : SplayNodes α} {n : Nat} :
      Reachable s → s.clear = some (n, s') → Reachable s'

/-- Every vector that the operations build represents a tree that the tree's operations build
by the same calls. -/
theorem Reachable.represents (h : s.Reachable) : ∃ T : SplayTree α, T.Reachable ∧ s.Represents T := by
  induction h with
  | empty => exact ⟨.empty, .empty, represents_empty⟩
  | @insert s s' k v i _ hi ih =>
    obtain ⟨T, hT, hr⟩ := ih
    obtain ⟨r, hr', hagree⟩ := hr.insert k v
    rw [hi] at hr'
    cases hr'
    cases hTi : T.insert k v with
    | error e => simp [hTi, Agree] at hagree
    | ok res =>
      obtain ⟨j, T'⟩ := res
      rw [hTi] at hagree
      obtain ⟨rfl, hrep⟩ := hagree
      exact ⟨T', .insert hT hTi, hrep⟩
  | @getOrInsert s s' k make i b _ hg ih =>
    obtain ⟨T, hT, hr⟩ := ih
    obtain ⟨r, hr', hagree⟩ := hr.getOrInsert k make
    rw [hg] at hr'
    cases hr'
    cases hTg : T.getOrInsert k make with
    | error e => simp [hTg, Agree] at hagree
    | ok res =>
      obtain ⟨j, b', T'⟩ := res
      rw [hTg] at hagree
      obtain ⟨rfl, rfl, hrep⟩ := hagree
      exact ⟨T', .getOrInsert hT hTg, hrep⟩
  | @search s s' k r _ hs ih =>
    obtain ⟨T, hT, hr⟩ := ih
    obtain ⟨s₁, hs₁, hrep⟩ := hr.search k
    rw [hs] at hs₁
    cases hs₁
    cases hTs : T.search k with
    | none => exact ⟨T, hT, by simpa [hTs] using hrep⟩
    | some res => exact ⟨res.2, .search hT hTs, by simpa [hTs] using hrep⟩
  | @drain s s' out n _ hd ih =>
    obtain ⟨T, hT, hr⟩ := ih
    rw [hr.drain] at hd
    cases hd
    exact ⟨_, .drain hT, represents_empty⟩
  | @clear s s' n _ hc ih =>
    obtain ⟨T, hT, hr⟩ := ih
    rw [hr.clear] at hc
    cases hc
    exact ⟨_, .clear hT, represents_empty⟩

end Runs

/-! ## The links of every reachable vector -/

/-- The links of node `i` as a row. -/
def rowOf (i : Nat) (n : Node α) : Row α := ⟨i, n.key, n.value, n.left, n.right, n.parent⟩

/-- The links of every node of the vector, by number. -/
def rows (s : SplayNodes α) : List (Row α) :=
  (List.range s.nodes.size).filterMap fun i => (s.node? i).map (rowOf i)

theorem mem_rows {r : Row α} :
    r ∈ s.rows ↔ s.node? r.id = some ⟨r.key, r.left, r.right, r.parent, r.value⟩ := by
  unfold rows
  rw [List.mem_filterMap]
  constructor
  · rintro ⟨i, -, hi⟩
    obtain ⟨n, hn, rfl⟩ := Option.map_eq_some_iff.mp hi
    exact hn
  · intro h
    have hlt : r.id < s.nodes.size := by
      by_contra hge
      simp [node?, Array.getElem?_eq_none_iff.mpr (Nat.le_of_not_lt hge)] at h
    exact ⟨r.id, List.mem_range.mpr hlt, by rw [h]; rfl⟩

/-- Every number of the vector has one row. -/
theorem rows_map_id : s.rows.map (·.id) = List.range s.nodes.size := by
  unfold rows
  rw [List.map_filterMap]
  conv => rhs; rw [← List.filterMap_some (l := List.range s.nodes.size)]
  refine List.filterMap_congr fun i hi => ?_
  have hlt := List.mem_range.mp hi
  simp [node?, hlt, rowOf]

/-- A vector that stores a tree has the tree's rows. -/
theorem Shapes.rows_perm {t : Splay.Tree α} (hs : s.Shapes t) : s.rows.Perm (t.rows none) := by
  have hnd : s.rows.Nodup := List.Nodup.of_map (·.id) (rows_map_id ▸ List.nodup_range)
  have hnd' : (t.rows none).Nodup :=
    List.Nodup.of_map (·.id) (by rw [Splay.Tree.map_id_rows]; exact hs.nodup)
  refine (List.perm_ext_iff_of_nodup hnd hnd').mpr fun r => ?_
  rw [mem_rows, Splay.Tree.mem_rows_iff hs.nodup, hs.stores]

/-- Read node by node, the numbers of entries of a stored tree give back their keys and values. -/
theorem Shapes.filterMap_entries {t : Splay.Tree α} (hs : s.Shapes t) {β : Type} (f : Key → α → β)
    {es : List (Entry α)} (hes : es ⊆ t.toList) :
    (es.map (·.id)).filterMap (fun i => (s.node? i).map fun n => f n.key n.value) =
      es.map fun x => f x.key x.value := by
  calc (es.map (·.id)).filterMap (fun i => (s.node? i).map fun n => f n.key n.value)
      = es.filterMap (fun x => some (f x.key x.value)) := by
        rw [List.filterMap_map]
        refine List.filterMap_congr fun x hx => ?_
        obtain ⟨n, hn, hkey, hvalue⟩ := Splay.Tree.nodeAt_entry (q := none) hs.nodup (hes hx)
        simp [hs.stores, hn, hkey, hvalue]
    _ = es.map fun x => f x.key x.value := by simp

section Links

variable [Allocator]

/-- The links of a vector agree with each other and with its keys: the root is unset exactly
when there are no nodes; the rows are linked (`Splay.Linked`: the root is the one node without
a parent, children name their parent, and a node with a parent is its child on exactly one
side); the walk by the child links from the root ends and reaches every number below the size
once, in an order whose keys never decrease; and a search, an insertion and the teardown each
walk to an end. -/
structure WellLinked (s : SplayNodes α) : Prop where
  root_eq_none : s.root = none ↔ s.nodes.size = 0
  linked : Linked s.rows s.root
  inOrder : ∃ order, s.inOrder = some order ∧ order.Perm (List.range s.nodes.size) ∧
    (order.filterMap fun i => (s.node? i).map (·.key)).Pairwise (· ≤ ·)
  search : ∀ k, (s.search k).isSome
  insert : ∀ k v, (s.insert k v).isSome
  drain : s.drain.isSome

/-- A vector representing a well-formed tree is well linked: its links are the tree's rows, and
its walks are the tree's. -/
theorem Represents.wellLinked (h : s.Represents T) (hw : T.WellFormed) : s.WellLinked := by
  refine ⟨?_, ?_, ⟨T.root.ids, h.inOrder, ?_, ?_⟩, fun k => ?_, fun k v => ?_, ?_⟩
  · rw [h.root, Splay.Tree.rootId_eq_none_iff, h.size_root, h.count]
  · -- the tree's rows are linked, and the vector's rows are the tree's in another order
    have hl := Splay.Tree.linked_rows T.root h.shapes.nodup
    rw [h.root]
    exact hl.perm h.shapes.rows_perm.symm
  · rw [h.count]
    exact hw.ids
  · rw [Splay.Tree.ids, h.shapes.filterMap_entries (fun k _ => k) (List.Subset.refl _),
      List.pairwise_map]
    exact hw.sorted
  · obtain ⟨s', hs', -⟩ := h.search k
    simp [hs']
  · obtain ⟨r, hr, -⟩ := h.insert k v
    simp [hr]
  · simp [h.drain]

/-- In every vector the operations build, duplicate keys included, the links agree with each
other and with the keys, no walk by the links runs forever, and every node is reached from the
root exactly once. -/
theorem reachable_links_consistent (h : s.Reachable) : s.WellLinked := by
  obtain ⟨T, hT, hrep⟩ := h.represents
  exact hrep.wellLinked hT.wellFormed

end Links

/-- Keys 1, 3 and 2 inserted in turn: the third goes right of the first, below the second, and a
zig-zag brings it to the root. -/
theorem reachable_links_consistent_zigzag :
    letI := Allocator.granting
    (⟨#[⟨1, none, none, some 2, ()⟩, ⟨3, none, none, some 2, ()⟩, ⟨2, some 0, some 1, none, ()⟩],
      some 2⟩ : SplayNodes Unit).Reachable ∧
    (⟨#[⟨1, none, none, some 2, ()⟩, ⟨3, none, none, some 2, ()⟩, ⟨2, some 0, some 1, none, ()⟩],
      some 2⟩ : SplayNodes Unit).WellLinked := by
  let _ : Allocator := Allocator.granting
  have h₁ : (empty : SplayNodes Unit).insert 1 () =
      some (.ok (0, ⟨#[⟨1, none, none, none, ()⟩], some 0⟩)) := rfl
  have h₂ : (⟨#[⟨1, none, none, none, ()⟩], some 0⟩ : SplayNodes Unit).insert 3 () =
      some (.ok (1, ⟨#[⟨1, none, none, some 1, ()⟩, ⟨3, some 0, none, none, ()⟩], some 1⟩)) := rfl
  have h₃ : (⟨#[⟨1, none, none, some 1, ()⟩, ⟨3, some 0, none, none, ()⟩], some 1⟩ :
      SplayNodes Unit).insert 2 () = some (.ok (2, ⟨#[⟨1, none, none, some 2, ()⟩,
        ⟨3, none, none, some 2, ()⟩, ⟨2, some 0, some 1, none, ()⟩], some 2⟩)) := rfl
  have hr := Reachable.insert (Reachable.insert (Reachable.insert .empty h₁) h₂) h₃
  exact ⟨hr, reachable_links_consistent hr⟩

end Lexicon.SplayNodes
