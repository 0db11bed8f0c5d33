import Mathlib
import Lexicon.Proofs.Splay.Stored

/-!
# Draining the stored splay tree

A teardown walks the child links from the root children first and takes the key and value of
each node it meets out of the vector, then leaves the empty vector, whose next node is number 0
again. The walk follows the current shape: the left subtree, then the right subtree, then the
node. On every vector the operations build it meets every node exactly once, since the walk
reaches each number below the size once, and no node comes before one of its descendants by the
child links.

* `Tree.Descends`: an entry lies in a subtree below the node of another.
* `Tree.postOrder_descendants_first`: in post-order no node comes before one of its descendants.
* `SplayNodes.Child`: one node is a child of another by the vector's links.
* `SplayNodes.DrainsPostOrder`, `SplayNodes.reachable_drainsPostOrder`: what a teardown of a
  reachable vector releases, and what it leaves.
-/

namespace Lexicon.Splay.Tree

variable {α : Type}

/-- `d` lies in a subtree below the node of `e` in `t`: it is a descendant of `e`. -/
def Descends : Tree α → Entry α → Entry α → Prop
  | leaf, _, _ => False
  | node l x r, d, e => (x = e ∧ (d ∈ l.toList ∨ d ∈ r.toList)) ∨ l.Descends d e ∨ r.Descends d e

/-- A descendant and its ancestor are both entries of the tree. -/
theorem Descends.mem {d e : Entry α} : ∀ {t : Tree α}, t.Descends d e → d ∈ t.toList ∧ e ∈ t.toList
  | node l x r, h => by
    rcases h with ⟨rfl, hd⟩ | hl | hr
    · rcases hd with hd | hd <;> simp [hd]
    · obtain ⟨hd, he⟩ := hl.mem
      simp [hd, he]
    · obtain ⟨hd, he⟩ := hr.mem
      simp [hd, he]

/-- Below distinct entries, a descendant of a descendant is a descendant. -/
theorem Descends.trans {c d e : Entry α} : ∀ {t : Tree α}, t.toList.Nodup →
    t.Descends d e → t.Descends c d → t.Descends c e
  | node l x r, hnd, hde, hcd => by
    rw [toList_node, List.nodup_append, List.nodup_cons] at hnd
    obtain ⟨hl, ⟨hxr, hr⟩, hdisj⟩ := hnd
    have hxl : x ∉ l.toList := fun h => hdisj x h x List.mem_cons_self rfl
    have hlr : ∀ y ∈ l.toList, y ∉ r.toList := fun y hy hyr =>
      hdisj y hy y (List.mem_cons_of_mem _ hyr) rfl
    rcases hde with ⟨rfl, hd⟩ | hde | hde
    · -- `e` is the root: `d`, and so everything below it, lies in one of its subtrees
      rcases hcd with ⟨rfl, -⟩ | hcd | hcd
      · rcases hd with hd | hd
        · exact absurd hd hxl
        · exact absurd hd hxr
      · exact .inl ⟨rfl, .inl hcd.mem.1⟩
      · exact .inl ⟨rfl, .inr hcd.mem.1⟩
    · rcases hcd with ⟨rfl, -⟩ | hcd | hcd
      · exact absurd hde.mem.1 hxl
      · exact .inr (.inl (hde.trans hl hcd))
      · exact absurd hcd.mem.2 (hlr _ hde.mem.1)
    · rcases hcd with ⟨rfl, -⟩ | hcd | hcd
      · exact absurd hde.mem.1 hxr
      · exact absurd hde.mem.1 (hlr _ hcd.mem.2)
      · exact .inr (.inr (hde.trans hr hcd))

theorem mem_postOrder {t : Tree α} {x : Entry α} : x ∈ t.postOrder ↔ x ∈ t.toList :=
  (postOrder_perm_toList t).mem_iff

/-- In post-order, no node comes before one of its descendants: at every node the walk lists the
left subtree, then the right subtree, then the node. The entries must be distinct, or a node could
also sit in its own subtree. -/
theorem postOrder_descendants_first : ∀ {t : Tree α}, t.toList.Nodup →
    t.postOrder.Pairwise fun x y => ¬ t.Descends y x
  | leaf, _ => .nil
  | node l e r, hnd => by
    rw [toList_node, List.nodup_append, List.nodup_cons] at hnd
    obtain ⟨hl, ⟨her, hr⟩, hdisj⟩ := hnd
    have hel : e ∉ l.toList := fun h => hdisj e h e List.mem_cons_self rfl
    have hlr : ∀ x ∈ l.toList, x ∉ r.toList := fun x hx hxr =>
      hdisj x hx x (List.mem_cons_of_mem _ hxr) rfl
    -- a node of one subtree has no ancestor or descendant in the other subtree or at the root
    have hleft : ∀ x ∈ l.toList, ∀ y, (node l e r).Descends y x → l.Descends y x := by
      rintro x hx y (⟨rfl, -⟩ | h | h)
      · exact absurd hx hel
      · exact h
      · exact absurd h.mem.2 (hlr x hx)
    have hright : ∀ x ∈ r.toList, ∀ y, (node l e r).Descends y x → r.Descends y x := by
      rintro x hx y (⟨rfl, -⟩ | h | h)
      · exact absurd hx her
      · exact absurd hx (hlr x h.mem.2)
      · exact h
    rw [postOrder_node, List.pairwise_append, List.pairwise_append]
    refine ⟨⟨?_, ?_, ?_⟩, List.pairwise_singleton _ _, ?_⟩
    · exact (postOrder_descendants_first hl).imp_of_mem fun hx _ h hd =>
        h (hleft _ (mem_postOrder.mp hx) _ hd)
    · exact (postOrder_descendants_first hr).imp_of_mem fun hx _ h hd =>
        h (hright _ (mem_postOrder.mp hx) _ hd)
    · -- a node of the right subtree is no ancestor of a node of the left one
      intro x hx y hy hd
      exact hlr _ (hleft _ (mem_postOrder.mp hx) _ hd).mem.1 (mem_postOrder.mp hy)
    · -- the root is nobody's descendant
      intro x hx y hy hd
      rw [List.mem_singleton.mp hy] at hd
      rcases List.mem_append.mp hx with hx | hx
      · exact hel (hleft _ (mem_postOrder.mp hx) _ hd).mem.1
      · exact her (hright _ (mem_postOrder.mp hx) _ hd).mem.1

/-- A child link that a tree stores goes down to a descendant: the children of a node are the
roots of its subtrees. -/
theorem descends_of_nodeAt {i j : Nat} {n : Node α} : ∀ {t : Tree α} {q : Option Nat},
    t.nodeAt q i = some n → n.left = some j ∨ n.right = some j →
      ∃ d e, t.Descends d e ∧ d.id = j ∧ e.id = i
  | node l x r, q, hn, hj => by
    simp only [nodeAt] at hn
    split at hn
    · next hx =>
      cases hn
      simp only [rootId, Option.map_eq_some_iff] at hj
      rcases hj with ⟨d, hd, rfl⟩ | ⟨d, hd, rfl⟩
      · exact ⟨d, x, .inl ⟨rfl, .inl (root?_mem hd)⟩, rfl, hx⟩
      · exact ⟨d, x, .inl ⟨rfl, .inr (root?_mem hd)⟩, rfl, hx⟩
    · rcases Option.or_eq_some_iff.mp hn with hl | ⟨-, hr⟩
      · obtain ⟨d, e, h, hd, he⟩ := descends_of_nodeAt hl hj
        exact ⟨d, e, .inr (.inl h), hd, he⟩
      · obtain ⟨d, e, h, hd, he⟩ := descends_of_nodeAt hr hj
        exact ⟨d, e, .inr (.inr h), hd, he⟩

end Lexicon.Splay.Tree

namespace Lexicon.SplayNodes

open Splay

variable {α : Type} {s : SplayNodes α} {T : SplayTree α}

/-- Node `j` is a child of node `i`: the left or the right link of `i` names `j`. -/
def Child (s : SplayNodes α) (j i : Nat) : Prop :=
  ∃ n, s.node? i = some n ∧ (n.left = some j ∨ n.right = some j)

/-- Following child links down a vector that stores a tree goes from an entry to a descendant. -/
theorem Shapes.descends_of_transGen {t : Splay.Tree α} (hs : s.Shapes t) {i j : Nat}
    (h : Relation.TransGen s.Child j i) : ∃ d e, t.Descends d e ∧ d.id = j ∧ e.id = i := by
  have huniq := List.inj_on_of_nodup_map hs.nodup
  induction h with
  | single hc =>
    obtain ⟨n, hn, hj⟩ := hc
    exact Splay.Tree.descends_of_nodeAt ((hs.stores _).symm.trans hn) hj
  | tail _ hc ih =>
    obtain ⟨d, e, hde, hd, he⟩ := ih
    obtain ⟨n, hn, hk⟩ := hc
    obtain ⟨d', e', hde', hd', he'⟩ := Splay.Tree.descends_of_nodeAt ((hs.stores _).symm.trans hn) hk
    -- the entry the second link leaves from is the one the first link reached
    have hmid : e = d' := huniq hde.mem.2 hde'.mem.1 (he.trans hd'.symm)
    exact ⟨d, e', hde'.trans (hs.nodup.of_map _) (hmid ▸ hde), hd, he'⟩

/-- In the post-order of a stored tree, no node comes before one of its descendants by the
vector's child links. -/
theorem Shapes.postOrder_descendants_first {t : Splay.Tree α} (hs : s.Shapes t) :
    (t.postOrder.map (·.id)).Pairwise fun i j => ¬ Relation.TransGen s.Child j i := by
  have huniq := List.inj_on_of_nodup_map hs.nodup
  rw [List.pairwise_map]
  refine (Splay.Tree.postOrder_descendants_first (hs.nodup.of_map _)).imp_of_mem
    fun hx hy hxy hji => hxy ?_
  obtain ⟨d, e, hde, hd, he⟩ := hs.descends_of_transGen hji
  rwa [huniq hde.mem.1 (Splay.Tree.mem_postOrder.mp hy) hd,
    huniq hde.mem.2 (Splay.Tree.mem_postOrder.mp hx) he] at hde

/-- Read number by number, the nodes of a vector are its nodes in order. -/
theorem filterMap_range_node? {β : Type} (g : Node α → β) :
    (List.range s.nodes.size).filterMap (fun i => (s.node? i).map g) = s.nodes.toList.map g := by
  simp only [node?, Array.getElem?_toList.symm, ← Array.length_toList]
  induction s.nodes.toList with
  | nil => rfl
  | cons n ns ih => simp [List.range_succ_eq_map, List.filterMap_map, ih]

section Draining

variable [Allocator]

/-- What a teardown of `s` does. It walks the child links from the root children first, which
takes each node number below the size exactly once and puts every node after all of its
descendants, and releases the key and value of each node it meets in that order: each node's
once. It releases as many nodes as the vector has, and leaves the empty vector with no root, so
the next insertion creates node 0. Emptying the vector releases as many nodes and leaves the
same empty vector. -/
structure DrainsPostOrder (s : SplayNodes α) : Prop where
  drain : ∃ order, s.postOrder = some order ∧ order.Perm (List.range s.nodes.size) ∧
    order.Pairwise (fun i j => ¬ Relation.TransGen s.Child j i) ∧
    s.drain = some (order.filterMap (fun i => (s.node? i).map fun n => (n.key, n.value)),
      s.nodes.size, empty)
  released : ∀ freed n s', s.drain = some (freed, n, s') →
    freed.Perm (s.nodes.toList.map fun n => (n.key, n.value))
  clear : s.clear = some (s.nodes.size, empty)
  restart : Allocator.grantsNodes 1 = true → ∀ k v, ∃ s', (empty : SplayNodes α).insert k v =
    some (.ok (0, s'))

/-- A vector representing a well-formed tree drains as the tree does: the post-order of the
tree, which numbers every node once. -/
theorem Represents.drainsPostOrder (h : s.Represents T) (hw : T.WellFormed) : s.DrainsPostOrder := by
  have horder : (T.root.postOrder.map (·.id)).Perm (List.range s.nodes.size) := by
    rw [h.count]
    exact ((Splay.Tree.postOrder_perm_toList T.root).map _).trans hw.ids
  have hfreed : (T.root.postOrder.map (·.id)).filterMap
      (fun i => (s.node? i).map fun n => (n.key, n.value)) = T.drain.1 :=
    h.shapes.filterMap_entries Prod.mk (Splay.Tree.postOrder_perm_toList T.root).subset
  refine ⟨⟨_, h.postOrder, horder, h.shapes.postOrder_descendants_first, ?_⟩, ?_, ?_, ?_⟩
  · rw [hfreed, h.drain, h.count]
  · intro freed n s' hd
    rw [h.drain] at hd
    cases hd
    rw [← hfreed, ← filterMap_range_node?]
    exact horder.filterMap _
  · rw [h.clear, h.count]
    simp [SplayTree.clear, SplayTree.drain, Splay.Tree.length_postOrder, h.size_root]
  · -- the empty vector inserts as the empty tree does, which numbers its first node 0
    intro hg k v
    obtain ⟨r, hr, hagree⟩ := represents_empty.insert (α := α) k v
    obtain ⟨t', ht'⟩ := SplayTree.insert_ok (t := SplayTree.empty) (k := k) v (Nat.zero_le _) hg
    rw [ht'] at hagree
    cases r with
    | error e => simp [Agree] at hagree
    | ok res =>
      obtain ⟨i, s'⟩ := res
      obtain ⟨rfl, -⟩ := hagree
      exact ⟨s', hr⟩

/-- In every vector the operations build, a teardown releases every node once, children before
parents, counts them, and leaves the empty vector. -/
theorem reachable_drainsPostOrder (h : s.Reachable) : s.DrainsPostOrder := by
  obtain ⟨T, hT, hrep⟩ := h.represents
  exact hrep.drainsPostOrder hT.wellFormed

end Draining

/-- Keys 1, 3 and 2 inserted in turn leave 2 at the root over 1 and 3; the teardown releases 1,
then 3, then 2. -/
theorem reachable_drainsPostOrder_zigzag :
    letI := Allocator.granting
    (⟨#[⟨1, none, none, some 2, ()⟩, ⟨3, none, none, some 2, ()⟩, ⟨2, some 0, some 1, none, ()⟩],
      some 2⟩ : SplayNodes Unit).Reachable ∧
    (⟨#[⟨1, none, none, some 2, ()⟩, ⟨3, none, none, some 2, ()⟩, ⟨2, some 0, some 1, none, ()⟩],
      some 2⟩ : SplayNodes Unit).drain = some ([(1, ()), (3, ()), (2, ())], 3, empty) ∧
    (⟨#[⟨1, none, none, some 2, ()⟩, ⟨3, none, none, some 2, ()⟩, ⟨2, some 0, some 1, none, ()⟩],
      some 2⟩ : SplayNodes Unit).DrainsPostOrder := by
  let _ : Allocator := Allocator.granting
  have h₁ : (empty : SplayNodes Unit).insert 1 () =
      some (.ok (0, ⟨#[⟨1, none, none, none, ()⟩], some 0⟩)) := rfl
  have h₂ : (⟨#[⟨1, none, none, none, ()⟩], some 0⟩ : SplayNodes Unit).insert 3 () =
      some (.ok (1, ⟨#[⟨1, none, none, some 1, ()⟩, ⟨3, some 0, none, none, ()⟩], some 1⟩)) := rfl
  have h₃ : (⟨#[⟨1, none, none, some 1, ()⟩, ⟨3, some 0, none, none, ()⟩], some 1⟩ :
      SplayNodes Unit).insert 2 () = some (.ok (2, ⟨#[⟨1, none, none, some 2, ()⟩,
        ⟨3, none, none, some 2, ()⟩, ⟨2, some 0, some 1, none, ()⟩], some 2⟩)) := rfl
  have hr := Reachable.insert (Reachable.insert (Reachable.insert .empty h₁) h₂) h₃
  have hd := reachable_drainsPostOrder hr
  obtain ⟨order, horder, -, -, hdrain⟩ := hd.drain
  -- the walk from the root meets nodes 0, 1 and 2 in turn
  obtain rfl : order = [0, 1, 2] := Option.some.inj (horder.symm.trans rfl)
  exact ⟨hr, hdrain.trans rfl, hd⟩

end Lexicon.SplayNodes
