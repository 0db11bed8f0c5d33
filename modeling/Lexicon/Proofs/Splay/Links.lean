import Mathlib.Logic.Basic
import Mathlib.Data.List.Nodup
import Lexicon.Proofs.Splay.Order

/-!
# The links of a splay tree

The rows of a tree are its nodes as a table linked by node numbers: each row gives a node's
children and its parent. On a tree whose node numbers are distinct the links agree with each
other, and on every reachable tree the table holds the nodes `0` to `size - 1`, each once, in key
order.

* `Tree.rows_node`: the rows node by node.
* `Splay.Linked`: the root is the one row without a parent, a child names its parent back, and a
  row with a parent is that parent's child on exactly one side.
* `Tree.linked_rows`: the rows of a tree with distinct numbers are linked.
-/

namespace Lexicon.Splay

variable {α : Type}

/-- The links of a table of rows agree with each other and with the root `root`: node numbers
are distinct, the root is a row and the only row without a parent, a row's children name it as
their parent, and a row with a parent is that parent's child on exactly one side. -/
structure Linked (rows : List (Row α)) (root : Option Nat) : Prop where
  nodup : (rows.map (·.id)).Nodup
  root_mem : ∀ i, root = some i → ∃ r ∈ rows, r.id = i
  parent_eq_none : ∀ r ∈ rows, r.parent = none ↔ root = some r.id
  child_parent : ∀ r ∈ rows, ∀ c, r.left = some c ∨ r.right = some c →
    ∃ r' ∈ rows, r'.id = c ∧ r'.parent = some r.id
  parent_child : ∀ r ∈ rows, ∀ q, r.parent = some q →
    ∃ r' ∈ rows, r'.id = q ∧ Xor (r'.left = some r.id) (r'.right = some r.id)

/-- Links agree the same way in any order of the rows. -/
theorem Linked.perm {rows rows' : List (Row α)} {root : Option Nat}
    (h : Linked rows root) (hp : rows.Perm rows') : Linked rows' root where
  nodup := (hp.map _).nodup_iff.mp h.nodup
  root_mem i hi := by
    obtain ⟨r, hr, hid⟩ := h.root_mem i hi
    exact ⟨r, hp.subset hr, hid⟩
  parent_eq_none r hr := h.parent_eq_none r (hp.symm.subset hr)
  child_parent r hr c hc := by
    obtain ⟨r', hr', hid, hp'⟩ := h.child_parent r (hp.symm.subset hr) c hc
    exact ⟨r', hp.subset hr', hid, hp'⟩
  parent_child r hr q hq := by
    obtain ⟨r', hr', hid, hx⟩ := h.parent_child r (hp.symm.subset hr) q hq
    exact ⟨r', hp.subset hr', hid, hx⟩

namespace Tree

theorem rowsOnto_eq (p : Option Nat) (t : Tree α) (acc : List (Row α)) :
    rowsOnto p t acc = rows p t ++ acc := by
  induction t generalizing p acc with
  | leaf => rfl
  | node l e r ihl ihr =>
    simp only [rows, rowsOnto]
    rw [ihl, ihl (some e.id) (_ :: rowsOnto (some e.id) r []), ihr, ihr (some e.id) []]
    simp

@[simp] theorem rows_leaf (p : Option Nat) : rows p (leaf : Tree α) = [] := rfl

@[simp] theorem rows_node (p : Option Nat) (l : Tree α) (e : Entry α) (r : Tree α) :
    rows p (node l e r) = rows (some e.id) l ++
      ⟨e.id, e.key, e.value, l.root?.map (·.id), r.root?.map (·.id), p⟩ :: rows (some e.id) r := by
  simp only [rows, rowsOnto]
  rw [rowsOnto_eq, rowsOnto_eq]
  simp [rows]

theorem map_id_rows (p : Option Nat) (t : Tree α) : (rows p t).map (·.id) = t.toList.map (·.id) := by
  induction t generalizing p with
  | leaf => rfl
  | node l e r ihl ihr => simp [ihl, ihr]

theorem pairwise_rows_iff (p : Option Nat) (t : Tree α) :
    (rows p t).Pairwise (·.key ≤ ·.key) ↔ t.toList.Pairwise (·.key ≤ ·.key) := by
  have hkeys : (rows p t).map (·.key) = t.toList.map (·.key) := by
    induction t generalizing p with
    | leaf => rfl
    | node l e r ihl ihr => simp [ihl, ihr]
  rw [← List.pairwise_map (R := (· ≤ ·)), hkeys, List.pairwise_map]

theorem root?_mem {t : Tree α} {e : Entry α} (h : t.root? = some e) : e ∈ t.toList := by
  cases t with
  | leaf => cases h
  | node l e' r =>
    cases h
    simp

/-! ## Links of any tree -/

/-- The row of the root carries the parent the rows were made below. -/
theorem root_row (p : Option Nat) {t : Tree α} {e : Entry α} (h : t.root? = some e) :
    ∃ r ∈ rows p t, r.id = e.id ∧ r.parent = p := by
  cases t with
  | leaf => cases h
  | node l e' r =>
    cases h
    exact ⟨⟨e.id, e.key, e.value, l.root?.map (·.id), r.root?.map (·.id), p⟩, by simp, rfl, rfl⟩

/-- A child named by a row names that row as its parent. -/
theorem rows_child (p : Option Nat) (t : Tree α) {r : Row α} {c : Nat} (hr : r ∈ rows p t)
    (hc : r.left = some c ∨ r.right = some c) : ∃ r' ∈ rows p t, r'.id = c ∧ r'.parent = some r.id := by
  induction t generalizing p with
  | leaf => cases hr
  | node l e t ihl ihr =>
    simp only [rows_node, List.mem_append, List.mem_cons] at hr ⊢
    rcases hr with hr | rfl | hr
    · obtain ⟨r', hr', hid, hp⟩ := ihl _ hr
      exact ⟨r', .inl hr', hid, hp⟩
    · -- the row of the node: its children are the roots of its subtrees
      rcases hc with hc | hc
      · obtain ⟨e', he', rfl⟩ := Option.map_eq_some_iff.mp hc
        obtain ⟨r', hr', hid, hp⟩ := root_row (some e.id) he'
        exact ⟨r', .inl hr', hid, hp⟩
      · obtain ⟨e', he', rfl⟩ := Option.map_eq_some_iff.mp hc
        obtain ⟨r', hr', hid, hp⟩ := root_row (some e.id) he'
        exact ⟨r', .inr (.inr hr'), hid, hp⟩
    · obtain ⟨r', hr', hid, hp⟩ := ihr _ hr
      exact ⟨r', .inr (.inr hr'), hid, hp⟩

/-- A row whose parent is `q` is the root row below `q`, or a child of the row numbered `q`. -/
theorem rows_parent (p : Option Nat) (t : Tree α) {r : Row α} {q : Nat} (hr : r ∈ rows p t)
    (hq : r.parent = some q) :
    p = some q ∧ t.root?.map (·.id) = some r.id ∨
      ∃ r' ∈ rows p t, r'.id = q ∧ (r'.left = some r.id ∨ r'.right = some r.id) := by
  induction t generalizing p with
  | leaf => cases hr
  | node l e t ihl ihr =>
    simp only [rows_node, List.mem_append, List.mem_cons] at hr
    simp only [rows_node, List.mem_append, List.mem_cons, root?, Option.map_some]
    rcases hr with hr | rfl | hr
    · rcases ihl _ hr with ⟨hq', hroot⟩ | ⟨r', hr', hid, hlr⟩
      · -- the root of the left subtree hangs from the node on the left
        cases hq'
        exact .inr ⟨_, .inr (.inl rfl), rfl, .inl hroot⟩
      · exact .inr ⟨r', .inl hr', hid, hlr⟩
    · exact .inl ⟨hq, rfl⟩
    · rcases ihr _ hr with ⟨hq', hroot⟩ | ⟨r', hr', hid, hlr⟩
      · cases hq'
        exact .inr ⟨_, .inr (.inl rfl), rfl, .inr hroot⟩
      · exact .inr ⟨r', .inr (.inr hr'), hid, hlr⟩

/-- Only the root row has no parent, and only when the rows were made below none. -/
theorem rows_parent_none (p : Option Nat) (t : Tree α) {r : Row α} (hr : r ∈ rows p t)
    (hn : r.parent = none) : p = none ∧ t.root?.map (·.id) = some r.id := by
  induction t generalizing p with
  | leaf => cases hr
  | node l e t ihl ihr =>
    simp only [rows_node, List.mem_append, List.mem_cons] at hr
    rcases hr with hr | rfl | hr
    · cases (ihl _ hr).1
    · exact ⟨hn, rfl⟩
    · cases (ihr _ hr).1

/-- With distinct numbers, no row names one node as both its children. -/
theorem rows_left_ne_right (p : Option Nat) (t : Tree α) (hnd : (t.toList.map (·.id)).Nodup)
    {r : Row α} {c : Nat} (hr : r ∈ rows p t) (hl : r.left = some c) : r.right ≠ some c := by
  induction t generalizing p with
  | leaf => cases hr
  | node l e t ihl ihr =>
    rw [toList_node, List.map_append, List.map_cons] at hnd
    obtain ⟨hndl, hndr', hdisj⟩ := List.nodup_append.mp hnd
    simp only [rows_node, List.mem_append, List.mem_cons] at hr
    rcases hr with hr | rfl | hr
    · exact ihl _ hndl hr
    · -- the two children come from the two subtrees, whose numbers are disjoint
      intro hc
      obtain ⟨el, hel, rfl⟩ := Option.map_eq_some_iff.mp hl
      obtain ⟨er, her, hid⟩ := Option.map_eq_some_iff.mp hc
      exact hdisj _ (List.mem_map_of_mem (root?_mem hel)) _
        (.tail _ (List.mem_map_of_mem (root?_mem her))) hid.symm
    · exact ihr _ (List.nodup_cons.mp hndr').2 hr

/-- The rows of a tree with distinct node numbers, made below no parent, are linked. -/
theorem linked_rows (t : Tree α) (hnd : (t.toList.map (·.id)).Nodup) :
    Linked (rows none t) (t.root?.map (·.id)) := by
  have hnd' : ((rows none t).map (·.id)).Nodup := by rwa [map_id_rows]
  -- two rows with one number are one row
  have huniq : ∀ r₁ ∈ rows none t, ∀ r₂ ∈ rows none t, r₁.id = r₂.id → r₁ = r₂ :=
    List.inj_on_of_nodup_map hnd'
  refine ⟨hnd', ?_, ?_, fun r hr c hc => rows_child none t hr hc, ?_⟩
  · intro i hi
    obtain ⟨e, he, rfl⟩ := Option.map_eq_some_iff.mp hi
    obtain ⟨r, hr, hid, -⟩ := root_row none he
    exact ⟨r, hr, hid⟩
  · intro r hr
    refine ⟨fun hn => (rows_parent_none none t hr hn).2, fun hroot => ?_⟩
    obtain ⟨e, he, hid⟩ := Option.map_eq_some_iff.mp hroot
    obtain ⟨r₀, hr₀, hid₀, hp₀⟩ := root_row none he
    rwa [← huniq r₀ hr₀ r hr (hid₀.trans hid)]
  · intro r hr q hq
    rcases rows_parent none t hr hq with ⟨hq', -⟩ | ⟨r', hr', hid, hlr⟩
    · cases hq'
    · refine ⟨r', hr', hid, ?_⟩
      rcases hlr with hl | hr''
      · exact .inl ⟨hl, rows_left_ne_right none t hnd hr' hl⟩
      · exact .inr ⟨hr'', fun hl => rows_left_ne_right none t hnd hr' hl hr''⟩

end Tree

end Lexicon.Splay
