import Lexicon.Splay.Basic

/-!
# The in-order view of a splay tree

The entries of a tree in order are its view. Rotations, and so splaying, keep the view; the
traversals with an accumulator are the plain traversals followed by the accumulator.

* `toList_node`, `postOrder_node`: the traversals node by node.
* `toList_rotateRight`, `toList_rotateLeft`, `toList_bringUp`: a rotation keeps the view.
* `toList_splayUp`: splaying a subtree along a path gives the view of the tree the path
  rebuilds without rotating.
* `splayUp_step`, `splayUp_root`: each step of splaying lifts the splayed node by one or two
  levels, so splaying brings its entry to the root.
* `locate_key`: the node a search locates has the key searched for.
* `SplayTree.search_root`, `SplayTree.insert_root`: after a search that hits, or after an
  insertion, the node it returns is at the root.
-/

namespace Lexicon.Splay

namespace Tree

variable {α : Type}

theorem toListOnto_eq (t : Tree α) (acc : List (Entry α)) :
    t.toListOnto acc = t.toList ++ acc := by
  induction t generalizing acc with
  | leaf => rfl
  | node l e r ihl ihr =>
    show l.toListOnto (e :: r.toListOnto acc) = l.toListOnto (e :: r.toListOnto []) ++ acc
    rw [ihl, ihl, ihr, ihr]
    simp

@[simp] theorem toList_leaf : (leaf : Tree α).toList = [] := rfl

@[simp] theorem toList_node (l : Tree α) (e : Entry α) (r : Tree α) :
    (node l e r).toList = l.toList ++ e :: r.toList := by
  show l.toListOnto (e :: r.toListOnto []) = _
  rw [toListOnto_eq, toListOnto_eq]
  simp [toList]

theorem postOrderOnto_eq (t : Tree α) (acc : List (Entry α)) :
    t.postOrderOnto acc = t.postOrder ++ acc := by
  induction t generalizing acc with
  | leaf => rfl
  | node l e r ihl ihr =>
    show l.postOrderOnto (r.postOrderOnto (e :: acc)) =
      l.postOrderOnto (r.postOrderOnto [e]) ++ acc
    rw [ihl, ihl, ihr, ihr]
    simp

@[simp] theorem postOrder_leaf : (leaf : Tree α).postOrder = [] := rfl

@[simp] theorem postOrder_node (l : Tree α) (e : Entry α) (r : Tree α) :
    (node l e r).postOrder = l.postOrder ++ r.postOrder ++ [e] := by
  show l.postOrderOnto (r.postOrderOnto [e]) = _
  rw [postOrderOnto_eq, postOrderOnto_eq]
  simp

theorem length_toList (t : Tree α) : t.toList.length = t.size := by
  induction t with
  | leaf => rfl
  | node l e r ihl ihr => simp [size, ihl, ihr]; omega

theorem length_postOrder (t : Tree α) : t.postOrder.length = t.size := by
  induction t with
  | leaf => rfl
  | node l e r ihl ihr => simp [size, ihl, ihr]; omega

/-- Children before parents or in order, a tree holds the same entries. -/
theorem postOrder_perm_toList : ∀ t : Tree α, t.postOrder.Perm t.toList
  | .leaf => .nil
  | .node l e r => by
    rw [postOrder_node, toList_node]
    calc List.Perm (l.postOrder ++ r.postOrder ++ [e]) (e :: (l.postOrder ++ r.postOrder)) :=
          List.perm_append_singleton _ _
      List.Perm _ (l.postOrder ++ e :: r.postOrder) := List.perm_middle.symm
      List.Perm _ (l.toList ++ e :: r.toList) :=
          (postOrder_perm_toList l).append ((postOrder_perm_toList r).cons e)

theorem toList_rotateRight (t : Tree α) : t.rotateRight.toList = t.toList := by
  unfold rotateRight
  split <;> simp

theorem toList_rotateLeft (t : Tree α) : t.rotateLeft.toList = t.toList := by
  unfold rotateLeft
  split <;> simp

theorem toList_onChild (d : Side) (op : Tree α → Tree α) (hop : ∀ t, (op t).toList = t.toList)
    (t : Tree α) : (t.onChild d op).toList = t.toList := by
  cases t with
  | leaf => rfl
  | node l e r => cases d <;> simp [onChild, hop]

end Tree

variable {α : Type}

theorem toList_bringUp (d : Side) (t : Tree α) : (d.bringUp t).toList = t.toList := by
  cases d
  · exact Tree.toList_rotateRight t
  · exact Tree.toList_rotateLeft t

/-- The tree a path rebuilds around `c` without rotating. -/
def plug : List (Frame α) → Tree α → Tree α
  | [], c => c
  | f :: rest, c => plug rest (f.attach c)

/-- Attaching subtrees with the same view below the same parent gives the same view. -/
theorem toList_attach_congr (f : Frame α) {a b : Tree α} (h : a.toList = b.toList) :
    (f.attach a).toList = (f.attach b).toList := by
  cases hs : f.side <;> simp [Frame.attach, hs, h]

theorem toList_plug_congr (path : List (Frame α)) {a b : Tree α} (h : a.toList = b.toList) :
    (plug path a).toList = (plug path b).toList := by
  induction path generalizing a b with
  | nil => exact h
  | cons f rest ih => exact ih (toList_attach_congr f h)

theorem toList_splayUp : (c : Tree α) → (path : List (Frame α)) →
    (splayUp c path).toList = (plug path c).toList
  | c, [] => rfl
  | c, [f] => by simp [splayUp, plug, toList_bringUp]
  | c, f1 :: f2 :: rest => by
    rw [splayUp, toList_splayUp _ rest]
    apply toList_plug_congr
    split
    · rw [toList_bringUp, toList_bringUp]
    · rw [toList_bringUp, Tree.toList_onChild _ _ (toList_bringUp f1.side)]

/-- One step of splaying lifts the splayed entry by two levels, or by one at the last step, keeps
it on top of what the step rebuilds, and keeps the entries of the whole tree in order. -/
theorem splayUp_step (l : Tree α) (e : Entry α) (r : Tree α) {path : List (Frame α)}
    (hpath : path ≠ []) :
    ∃ l' r' path', splayUp (.node l e r) path = splayUp (.node l' e r') path' ∧
      path'.length < path.length ∧ path.length ≤ path'.length + 2 ∧
      (plug path' (.node l' e r')).toList = (plug path (.node l e r)).toList := by
  match path, hpath with
  | [f], _ =>
    -- zig: one rotation ends the splay
    obtain ⟨d, fe, o⟩ := f
    obtain ⟨l', r', hs⟩ : ∃ l' r',
        d.bringUp ((⟨d, fe, o⟩ : Frame α).attach (.node l e r)) = .node l' e r' := by
      cases d <;> simp [Side.bringUp, Frame.attach, Tree.rotateRight, Tree.rotateLeft]
    refine ⟨l', r', [], hs, by simp, by simp, ?_⟩
    rw [← hs, plug, plug, plug, toList_bringUp]
  | f1 :: f2 :: rest, _ =>
    -- zig-zig or zig-zag: two rotations, the entry stays on top
    obtain ⟨d1, e1, o1⟩ := f1
    obtain ⟨d2, e2, o2⟩ := f2
    obtain ⟨l', r', hs⟩ : ∃ l' r', (if d1 = d2 then d2.bringUp (d2.bringUp
        ((⟨d2, e2, o2⟩ : Frame α).attach ((⟨d1, e1, o1⟩ : Frame α).attach (.node l e r))))
      else d2.bringUp (((⟨d2, e2, o2⟩ : Frame α).attach ((⟨d1, e1, o1⟩ : Frame α).attach
        (.node l e r))).onChild d2 d1.bringUp)) = .node l' e r' := by
      cases d1 <;> cases d2 <;>
        simp [Frame.attach, Side.bringUp, Tree.onChild, Tree.rotateRight, Tree.rotateLeft]
    refine ⟨l', r', rest, by rw [splayUp]; exact congrArg (splayUp · rest) hs,
      by simp only [List.length_cons]; omega, by simp only [List.length_cons]; omega, ?_⟩
    rw [← toList_splayUp, ← toList_splayUp, splayUp]
    exact congrArg (fun c => (splayUp c rest).toList) hs.symm

/-- Splaying a node along any path keeps its entry at the top: every step lifts it by one or two
levels and leaves it whole, so the splay ends with it at the root. -/
theorem splayUp_root (path : List (Frame α)) (l : Tree α) (e : Entry α) (r : Tree α) :
    ∃ l' r', splayUp (.node l e r) path = .node l' e r' := by
  by_cases hpath : path = []
  · exact ⟨l, r, by rw [hpath]; rfl⟩
  · obtain ⟨l₁, r₁, path₁, hstep, hlt, -, -⟩ := splayUp_step l e r hpath
    rw [hstep]
    exact splayUp_root path₁ l₁ e r₁
termination_by path.length

/-- The node that `locate` stops at has the key searched for. -/
theorem locate_key (k : Key) (t : Tree α) (path : List (Frame α)) {l r : Tree α} {e : Entry α}
    {p : List (Frame α)} (h : t.locate k path = some (l, e, r, p)) : e.key = k := by
  induction t generalizing path with
  | leaf => simp [Tree.locate] at h
  | node tl te tr ihl ihr =>
    simp only [Tree.locate] at h
    by_cases h1 : k < te.key
    · simp only [h1, ite_true] at h
      exact ihl _ h
    · by_cases h2 : te.key < k
      · simp only [h1, h2, ite_true, ite_false] at h
        exact ihr _ h
      · simp only [h1, h2, ite_false, Option.some.injEq, Prod.mk.injEq] at h
        obtain ⟨-, rfl, -, -⟩ := h
        exact UInt64.le_antisymm (UInt64.not_lt.mp h1) (UInt64.not_lt.mp h2)

end Lexicon.Splay

namespace Lexicon.SplayTree

open Splay

variable {α : Type}

/-- A search that hits leaves the node it returns at the root, and that node has the key. -/
theorem search_root (t : SplayTree α) (k : Key) {id : Nat} {t' : SplayTree α}
    (h : t.search k = some (id, t')) : ∃ e, t'.root.root? = some e ∧ e.id = id ∧ e.key = k := by
  unfold search at h
  split at h
  · rename_i l e r path hl
    simp only [Option.some.injEq, Prod.mk.injEq] at h
    obtain ⟨rfl, rfl⟩ := h
    obtain ⟨l', r', hs⟩ := splayUp_root path l e r
    exact ⟨e, by simp [hs, Tree.root?], rfl, locate_key k t.root [] hl⟩
  · simp at h

section Inserting

variable [Allocator] {t t' : SplayTree α} {k : Key} {v : α} {id : Nat}

/-- An insertion succeeds exactly when the count fits a 32-bit field and the allocator grants
room for one more node; the new node is numbered by the count and splayed up from the leaf where
the descent ends. -/
theorem insert_eq_ok :
    t.insert k v = .ok (id, t') ↔ t.size ≤ fieldMax ∧ Allocator.grantsNodes (t.size + 1) = true ∧
      id = t.size ∧
      t' = ⟨splayUp (.node .leaf ⟨t.size, k, v⟩ .leaf) (t.root.leafPath k []), t.size + 1⟩ := by
  unfold insert fitField
  split
  · next h =>
    cases hg : Allocator.grantsNodes (t.count + 1) <;>
      simp [bind, Except.bind, pure, Except.pure, h, hg, size, eq_comm]
  · next h => simp [bind, Except.bind, h, size]

/-- An insertion in one piece: the new node's number must fit a 32-bit field, and the allocator
must grant room for one more node. -/
theorem insert_eq : t.insert k v =
    if t.size ≤ fieldMax then
      if Allocator.grantsNodes (t.size + 1) = true then
        .ok (t.size, ⟨splayUp (.node .leaf ⟨t.size, k, v⟩ .leaf) (t.root.leafPath k []), t.size + 1⟩)
      else .error (.nodeAllocation (t.size + 1))
    else .error (.capacityOverflow "splay tree nodes" t.size) := by
  unfold insert fitField size
  by_cases h : t.count ≤ fieldMax
  · rw [if_pos h, if_pos h]
    cases Allocator.grantsNodes (t.count + 1) <;> rfl
  · rw [if_neg h, if_neg h]
    rfl

/-- An insertion leaves the new node at the root, with the key and value given. -/
theorem insert_root (h : t.insert k v = .ok (id, t')) : t'.root.root? = some ⟨id, k, v⟩ := by
  obtain ⟨-, -, rfl, rfl⟩ := insert_eq_ok.mp h
  obtain ⟨l', r', hs⟩ := splayUp_root (t.root.leafPath k []) .leaf ⟨t.size, k, v⟩ .leaf
  simp [hs, Tree.root?]

end Inserting

end Lexicon.SplayTree
