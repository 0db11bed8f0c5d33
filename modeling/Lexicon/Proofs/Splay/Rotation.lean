import Mathlib
import Lexicon.Splay.Nodes
import Lexicon.Proofs.Splay.Links

/-!
# Rotations of the stored splay tree

A vector of nodes stores a tree when the node of every number is the one the tree gives it: its
key and value, the numbers of its children, and the number of its parent (`Tree.nodeAt`). A
node's place in a tree is its path, the frames from its parent up to the root, and what the tree
stores outside a subtree depends on that subtree only through the number of its root.

A rotation of the vector rewrites the links of at most four nodes: the node lifted, its parent,
the root of the subtree that changes sides, and the grandparent. On a vector that stores a tree,
it rewrites exactly what lifting the node above its parent changes in the tree, so the vector
then stores the rotated tree (`SplayNodes.Shapes.rotate`). Splaying is a run of such rotations,
one or two a step, each lifting the node one or two levels; so the walk up the parent links ends
within as many steps as there are nodes, with the vector storing the tree that splaying the
entry gives (`SplayNodes.Shapes.splay`).

* `Tree.nodeAt`, `SplayNodes.Shapes`: the nodes a tree stores, and a vector that stores a tree.
* `Tree.nodeAt_plug_of_mem`, `Tree.nodeAt_plug_of_not_mem`: inside and outside a subtree.
* `SplayNodes.Shapes.rotate`, `Shapes.splayStep`, `Shapes.splay`: rotations and splaying.
* `SplayNodes.rotate_and_splay_keep_links`: the laws of rotating and splaying.
-/

namespace Lexicon.Splay

variable {α : Type}

/-- The number of the parent that a path records: the entry of its nearest frame, none at the
root. -/
def parentId (path : List (Frame α)) : Option Nat := path.head?.map (·.entry.id)

@[simp] theorem parentId_nil : parentId ([] : List (Frame α)) = none := rfl

@[simp] theorem parentId_cons (f : Frame α) (rest : List (Frame α)) :
    parentId (f :: rest) = some f.entry.id := rfl

namespace Tree

/-- The numbers of the nodes, in order. -/
def ids (t : Tree α) : List Nat := t.toList.map (·.id)

@[simp] theorem ids_leaf : (leaf : Tree α).ids = [] := rfl

@[simp] theorem ids_node (l : Tree α) (e : Entry α) (r : Tree α) :
    (node l e r).ids = l.ids ++ e.id :: r.ids := by
  simp [ids]

/-- The number of the root. -/
def rootId (t : Tree α) : Option Nat := t.root?.map (·.id)

@[simp] theorem rootId_leaf : (leaf : Tree α).rootId = none := rfl

@[simp] theorem rootId_node (l : Tree α) (e : Entry α) (r : Tree α) :
    (node l e r).rootId = some e.id := rfl

theorem rootId_mem {t : Tree α} {i : Nat} (h : t.rootId = some i) : i ∈ t.ids := by
  cases t with
  | leaf => cases h
  | node l e r =>
    cases h
    simp

theorem rootId_ne {t : Tree α} {i : Nat} (h : i ∉ t.ids) : t.rootId ≠ some i :=
  fun h' => h (rootId_mem h')

/-- The stored node numbered `i` of a tree hanging below the node numbered `q`: its key, the
numbers of its children and of its parent, and its value. -/
def nodeAt (q : Option Nat) : Tree α → Nat → Option (Node α)
  | leaf, _ => none
  | node l e r, i =>
    if e.id = i then some ⟨e.key, l.rootId, r.rootId, q, e.value⟩
    else (l.nodeAt (some e.id) i).or (r.nodeAt (some e.id) i)

theorem nodeAt_eq_none {q : Option Nat} {i : Nat} : ∀ {t : Tree α}, i ∉ t.ids → t.nodeAt q i = none
  | leaf, _ => rfl
  | node l e r, h => by
    simp only [ids_node, List.mem_append, List.mem_cons, not_or] at h
    simp [nodeAt, Ne.symm h.2.1, nodeAt_eq_none h.1, nodeAt_eq_none h.2.2]

/-- A tree stores a node exactly for its numbers. -/
theorem isSome_nodeAt {q : Option Nat} {i : Nat} : ∀ {t : Tree α}, (t.nodeAt q i).isSome ↔ i ∈ t.ids
  | leaf => by simp [nodeAt]
  | node l e r => by
    by_cases h : e.id = i
    · simp [nodeAt, h]
    · simp [nodeAt, h, Option.isSome_or, isSome_nodeAt, Ne.symm h]

theorem nodeAt_root (q : Option Nat) (l : Tree α) (e : Entry α) (r : Tree α) :
    (node l e r).nodeAt q e.id = some ⟨e.key, l.rootId, r.rootId, q, e.value⟩ := by
  simp [nodeAt]

/-- Distinct numbers in a node: distinct in each subtree, the root's in neither, and none in
both. -/
theorem nodup_ids_node {l : Tree α} {e : Entry α} {r : Tree α} (hnd : (node l e r).ids.Nodup) :
    l.ids.Nodup ∧ r.ids.Nodup ∧ e.id ∉ l.ids ∧ e.id ∉ r.ids ∧ ∀ i ∈ l.ids, i ∉ r.ids := by
  rw [ids_node] at hnd
  obtain ⟨hl, hr', hdisj⟩ := List.nodup_append.mp hnd
  obtain ⟨he, hr⟩ := List.nodup_cons.mp hr'
  exact ⟨hl, hr, fun h => hdisj _ h _ List.mem_cons_self rfl, he,
    fun i hi hr => hdisj _ hi _ (List.mem_cons_of_mem _ hr) rfl⟩

theorem nodeAt_node_left {l : Tree α} {e : Entry α} {r : Tree α} {q : Option Nat} {i : Nat}
    (hnd : (node l e r).ids.Nodup) (hi : i ∈ l.ids) :
    (node l e r).nodeAt q i = l.nodeAt (some e.id) i := by
  obtain ⟨-, -, hel, -, hlr⟩ := nodup_ids_node hnd
  have hne : e.id ≠ i := fun h => hel (h ▸ hi)
  simp [nodeAt, hne, nodeAt_eq_none (hlr i hi)]

theorem nodeAt_node_right {l : Tree α} {e : Entry α} {r : Tree α} {q : Option Nat} {i : Nat}
    (hnd : (node l e r).ids.Nodup) (hi : i ∈ r.ids) :
    (node l e r).nodeAt q i = r.nodeAt (some e.id) i := by
  obtain ⟨-, -, -, her, hlr⟩ := nodup_ids_node hnd
  have hne : e.id ≠ i := fun h => her (h ▸ hi)
  have hl : i ∉ l.ids := fun h => hlr i h hi
  simp [nodeAt, hne, nodeAt_eq_none hl]

/-- Hung below another parent, a tree stores the same nodes, but for its root's parent. -/
theorem nodeAt_reparent (q q' : Option Nat) (t : Tree α) (i : Nat) :
    t.nodeAt q' i =
      (t.nodeAt q i).map fun n => if t.rootId = some i then { n with parent := q' } else n := by
  cases t with
  | leaf => rfl
  | node l e r =>
    by_cases h : e.id = i
    · subst h
      simp [nodeAt]
    · have h' : ¬some e.id = some i := fun h' => h (Option.some.inj h')
      simp only [nodeAt, h, if_false, rootId_node, h']
      simp

end Tree

/-- The stored node of the parent that a frame records, with `c` as its child on the frame's
side and `q` as its parent. -/
def Frame.stored (f : Frame α) (c q : Option Nat) : Node α :=
  match f.side with
  | .left => ⟨f.entry.key, c, f.other.rootId, q, f.entry.value⟩
  | .right => ⟨f.entry.key, f.other.rootId, c, q, f.entry.value⟩

theorem Frame.stored_setChild (f : Frame α) (c c' q : Option Nat) :
    (f.stored c q).setChild f.side c' = f.stored c' q := by
  obtain ⟨d, e, o⟩ := f
  cases d <;> rfl

theorem Frame.stored_withParent (f : Frame α) (c q q' : Option Nat) :
    { f.stored c q with parent := q' } = f.stored c q' := by
  obtain ⟨d, e, o⟩ := f
  cases d <;> rfl

@[simp] theorem Frame.stored_parent (f : Frame α) (c q : Option Nat) : (f.stored c q).parent = q := by
  obtain ⟨d, e, o⟩ := f
  cases d <;> rfl

@[simp] theorem Frame.child_stored (f : Frame α) (c q : Option Nat) : (f.stored c q).child f.side = c := by
  obtain ⟨d, e, o⟩ := f
  cases d <;> rfl

@[simp] theorem Frame.child_stored_other (f : Frame α) (c q : Option Nat) :
    (f.stored c q).child f.side.other = f.other.rootId := by
  obtain ⟨d, e, o⟩ := f
  cases d <;> rfl

/-- The parent node names its child on the frame's side, unless its other child is that node
too. -/
theorem Frame.sideOf_stored {f : Frame α} {x : Nat} (q : Option Nat) (hx : f.other.rootId ≠ some x) :
    (f.stored (some x) q).sideOf x = f.side := by
  obtain ⟨d, e, o⟩ := f
  cases d
  · simp [Frame.stored, Node.sideOf]
  · simp [Frame.stored, Node.sideOf, hx]

/-- Relinking the child `p` of a parent node to `x` stores `x` on the frame's side. -/
theorem Frame.relink_stored {f : Frame α} {p : Nat} (x : Nat) (q : Option Nat)
    (hp : f.other.rootId ≠ some p) :
    (if (f.stored (some p) q).left = some p then { f.stored (some p) q with left := some x }
      else { f.stored (some p) q with right := some x }) = f.stored (some x) q := by
  obtain ⟨d, e, o⟩ := f
  cases d
  · simp [Frame.stored]
  · simp [Frame.stored, hp]

theorem Frame.ids_attach (f : Frame α) (c : Tree α) :
    (f.attach c).ids.Perm (c.ids ++ f.entry.id :: f.other.ids) := by
  unfold Frame.attach
  split
  · simp
  · simpa using List.perm_append_comm.trans (List.perm_middle.symm)

theorem Frame.mem_ids_attach {f : Frame α} {c : Tree α} {i : Nat} :
    i ∈ (f.attach c).ids ↔ i ∈ c.ids ∨ i = f.entry.id ∨ i ∈ f.other.ids := by
  rw [(f.ids_attach c).mem_iff]
  simp

/-- Distinct numbers below a frame's node: distinct in the subtree and in the other subtree, the
node's in neither, and none in both. -/
theorem Frame.nodup_attach {f : Frame α} {c : Tree α} (hnd : (f.attach c).ids.Nodup) :
    c.ids.Nodup ∧ f.other.ids.Nodup ∧ f.entry.id ∉ c.ids ∧ f.entry.id ∉ f.other.ids ∧
      ∀ i ∈ c.ids, i ∉ f.other.ids := by
  obtain ⟨d, e, o⟩ := f
  cases d
  · exact Tree.nodup_ids_node hnd
  · obtain ⟨ho, hc, heo, hec, hoc⟩ := Tree.nodup_ids_node hnd
    exact ⟨hc, ho, hec, heo, fun i hi ho' => hoc i ho' hi⟩

@[simp] theorem Frame.rootId_attach (f : Frame α) (c : Tree α) :
    (f.attach c).rootId = some f.entry.id := by
  unfold Frame.attach
  split <;> rfl

theorem Frame.nodeAt_attach_self (f : Frame α) (c : Tree α) (q : Option Nat) :
    (f.attach c).nodeAt q f.entry.id = some (f.stored c.rootId q) := by
  obtain ⟨d, e, o⟩ := f
  cases d <;> simp [Frame.attach, Frame.stored, Tree.nodeAt_root]

theorem Frame.nodeAt_attach_of_mem {f : Frame α} {c : Tree α} {q : Option Nat} {i : Nat}
    (hnd : (f.attach c).ids.Nodup) (hi : i ∈ c.ids) :
    (f.attach c).nodeAt q i = c.nodeAt (some f.entry.id) i := by
  obtain ⟨d, e, o⟩ := f
  cases d
  · exact Tree.nodeAt_node_left hnd hi
  · exact Tree.nodeAt_node_right hnd hi

theorem Frame.nodeAt_attach_of_other {f : Frame α} {c : Tree α} {q : Option Nat} {i : Nat}
    (hnd : (f.attach c).ids.Nodup) (hi : i ∈ f.other.ids) :
    (f.attach c).nodeAt q i = f.other.nodeAt (some f.entry.id) i := by
  obtain ⟨d, e, o⟩ := f
  cases d
  · exact Tree.nodeAt_node_right hnd hi
  · exact Tree.nodeAt_node_left hnd hi

/-! ## Inside and outside a subtree -/

theorem ids_sublist_plug (path : List (Frame α)) (c : Tree α) : c.ids.Sublist (plug path c).ids := by
  induction path generalizing c with
  | nil => exact List.Sublist.refl _
  | cons f rest ih =>
    refine List.Sublist.trans ?_ (ih (f.attach c))
    obtain ⟨d, e, o⟩ := f
    cases d
    · simp [Frame.attach]
    · simp [Frame.attach]

/-- The parent a path records lies outside the subtree below it. -/
theorem parentId_not_mem {path : List (Frame α)} {c : Tree α} {i : Nat}
    (hnd : (plug path c).ids.Nodup) (hi : parentId path = some i) : i ∉ c.ids := by
  cases path with
  | nil => cases hi
  | cons f rest =>
    cases hi
    exact (Frame.nodup_attach ((ids_sublist_plug rest _).nodup hnd)).2.2.1

theorem mem_plug_of_parentId {path : List (Frame α)} {c : Tree α} {i : Nat}
    (hi : parentId path = some i) : i ∈ (plug path c).ids := by
  cases path with
  | nil => cases hi
  | cons f rest =>
    cases hi
    exact (ids_sublist_plug rest _).subset (Frame.mem_ids_attach.mpr (.inr (.inl rfl)))

/-- Every frame of a path adds a node above the subtree. -/
theorem length_ids_plug (path : List (Frame α)) (c : Tree α) :
    c.ids.length + path.length ≤ (plug path c).ids.length := by
  induction path generalizing c with
  | nil => simp [plug]
  | cons f rest ih =>
    have h := (Frame.ids_attach f c).length_eq
    have := ih (f.attach c)
    simp only [List.length_append, List.length_cons] at h
    simp only [plug, List.length_cons]
    omega

/-- Every node of a tree sits at the end of a path from the root. -/
theorem exists_plug_of_mem {t : Tree α} {i : Nat} (h : i ∈ t.ids) :
    ∃ path l e r, e.id = i ∧ t = plug path (.node l e r) := by
  induction t with
  | leaf => simp at h
  | node tl te tr ihl ihr =>
    rw [Tree.ids_node, List.mem_append, List.mem_cons] at h
    rcases h with h | h | h
    · obtain ⟨path, l, e, r, hi, hl⟩ := ihl h
      exact ⟨path ++ [⟨.left, te, tr⟩], l, e, r, hi, by rw [plug_append, ← hl]; rfl⟩
    · exact ⟨[], tl, te, tr, h.symm, rfl⟩
    · obtain ⟨path, l, e, r, hi, hr⟩ := ihr h
      exact ⟨path ++ [⟨.right, te, tl⟩], l, e, r, hi, by rw [plug_append, ← hr]; rfl⟩

/-- Inside a subtree, the whole tree stores what the subtree stores below the parent its path
records. -/
theorem nodeAt_plug_of_mem {path : List (Frame α)} {c : Tree α} {i : Nat}
    (hnd : (plug path c).ids.Nodup) (hi : i ∈ c.ids) :
    (plug path c).nodeAt none i = c.nodeAt (parentId path) i := by
  induction path generalizing c with
  | nil => rfl
  | cons f rest ih =>
    have hnd₁ : (f.attach c).ids.Nodup := (ids_sublist_plug rest _).nodup hnd
    rw [plug, ih hnd (Frame.mem_ids_attach.mpr (.inl hi)), parentId_cons]
    exact Frame.nodeAt_attach_of_mem hnd₁ hi

/-- Outside a subtree, what the whole tree stores depends on the subtree only through the number
of its root, which the nearest frame's node names as its child. -/
theorem nodeAt_plug_of_not_mem {path : List (Frame α)} {c c' : Tree α} {i : Nat}
    (hnd : (plug path c).ids.Nodup) (hnd' : (plug path c').ids.Nodup) (hi : i ∉ c.ids)
    (hi' : i ∉ c'.ids) (hroot : c.rootId = c'.rootId ∨ ∀ g ∈ path.head?, g.entry.id ≠ i) :
    (plug path c').nodeAt none i = (plug path c).nodeAt none i := by
  induction path generalizing c c' with
  | nil => rw [plug, plug, Tree.nodeAt_eq_none hi, Tree.nodeAt_eq_none hi']
  | cons g rest ih =>
    have hnd₁ : (g.attach c).ids.Nodup := (ids_sublist_plug rest _).nodup hnd
    have hnd₁' : (g.attach c').ids.Nodup := (ids_sublist_plug rest _).nodup hnd'
    simp only [plug]
    by_cases hg : g.entry.id = i
    · -- the nearest frame's node names the subtree's root, which is the same on both sides
      subst hg
      have hsame : c.rootId = c'.rootId := hroot.resolve_right (by simp)
      rw [nodeAt_plug_of_mem (c := g.attach c') hnd' (Frame.mem_ids_attach.mpr (.inr (.inl rfl))),
        nodeAt_plug_of_mem (c := g.attach c) hnd (Frame.mem_ids_attach.mpr (.inr (.inl rfl))),
        Frame.nodeAt_attach_self, Frame.nodeAt_attach_self, hsame]
    · by_cases ho : i ∈ g.other.ids
      · rw [nodeAt_plug_of_mem (c := g.attach c') hnd' (Frame.mem_ids_attach.mpr (.inr (.inr ho))),
          nodeAt_plug_of_mem (c := g.attach c) hnd (Frame.mem_ids_attach.mpr (.inr (.inr ho))),
          Frame.nodeAt_attach_of_other hnd₁' ho, Frame.nodeAt_attach_of_other hnd₁ ho]
      · -- past the nearest frame both subtrees hang below the same node
        have hout : ∀ {t : Tree α}, i ∉ t.ids → i ∉ (g.attach t).ids := fun ht h => by
          rcases Frame.mem_ids_attach.mp h with h | h | h
          · exact ht h
          · exact hg h.symm
          · exact ho h
        exact ih hnd hnd' (hout hi) (hout hi') (.inl (by simp))

end Lexicon.Splay

namespace Lexicon.SplayNodes

open Splay

variable {α : Type} {s s' : SplayNodes α}

/-! ## Writes to the node vector -/

/-- The write of `f` to the node numbered `j`, when `o` names it. -/
def writeAt (o : Option Nat) (f : Node α → Node α) (j : Nat) (n : Node α) : Node α :=
  if o = some j then f n else n

/-- The vector `s'` is `s` with the node numbered `j` rewritten by `w j`, for every `j`, and
the same root. -/
structure Writes (s s' : SplayNodes α) (w : Nat → Node α → Node α) : Prop where
  root : s'.root = s.root
  node? : ∀ j, s'.node? j = (s.node? j).map (w j)

theorem Writes.trans {w₁ w₂ : Nat → Node α → Node α} {s'' : SplayNodes α} (h₁ : Writes s s' w₁)
    (h₂ : Writes s' s'' w₂) : Writes s s'' fun j => w₂ j ∘ w₁ j :=
  ⟨h₂.root.trans h₁.root, fun j => by rw [h₂.node?, h₁.node?, Option.map_map]⟩

theorem Writes.isSome {w : Nat → Node α → Node α} (h : Writes s s' w) (j : Nat) :
    (s'.node? j).isSome = (s.node? j).isSome := by
  rw [h.node?, Option.isSome_map]

theorem modifyNode_eq_some {i : Nat} (f : Node α → Node α) (hi : (s.node? i).isSome) :
    ∃ s', s.modifyNode i f = some s' := by
  have : i < s.nodes.size := by
    by_contra h
    simp [node?, Array.getElem?_eq_none_iff.mpr (Nat.le_of_not_lt h)] at hi
  simp [modifyNode, this]

theorem writes_modifyNode {i : Nat} {f : Node α → Node α} (h : s.modifyNode i f = some s') :
    Writes s s' (writeAt (some i) f) := by
  unfold modifyNode at h
  split at h
  · cases h
    refine ⟨rfl, fun j => ?_⟩
    by_cases hij : i = j
    · subst hij
      have : writeAt (some i) f i = f := funext fun n => by simp [writeAt]
      simp [node?, Array.getElem?_modify, this]
    · have : writeAt (some i) f j = id := funext fun n => by simp [writeAt, hij]
      simp [node?, Array.getElem?_modify, hij, this]
  · cases h

theorem modifySome_eq_some {o : Option Nat} (f : Node α → Node α)
    (ho : ∀ i, o = some i → (s.node? i).isSome) : ∃ s', s.modifySome o f = some s' := by
  cases o with
  | none => exact ⟨s, rfl⟩
  | some i => exact modifyNode_eq_some f (ho i rfl)

theorem writes_modifySome {o : Option Nat} {f : Node α → Node α} (h : s.modifySome o f = some s') :
    Writes s s' (writeAt o f) := by
  cases o with
  | none =>
    cases h
    have : ∀ j, writeAt none f j = id := fun j => funext fun n => by simp [writeAt]
    exact ⟨rfl, fun j => by simp [this]⟩
  | some i => exact writes_modifyNode h

/-- The writes of lifting `x` above its parent `p`, which holds it on side `d`: `moved` is the
root of the subtree that changes sides and `grand` the parent of `p`. -/
def rotWrites (x p : Nat) (d : Side) (moved grand : Option Nat) (j : Nat) : Node α → Node α :=
  writeAt (some x) ({ · with parent := grand }) j ∘
  writeAt grand (fun n => if n.left = some p then { n with left := some x }
    else { n with right := some x }) j ∘
  writeAt moved ({ · with parent := some p }) j ∘
  writeAt (some p) ({ · with parent := some x }) j ∘
  writeAt (some x) (·.setChild d.other (some p)) j ∘
  writeAt (some p) (·.setChild d moved) j

/-- A rotation whose nodes all exist succeeds, and writes what `rotWrites` says. -/
theorem rotate_writes {x p : Nat} {pn xn : Node α} (hp : s.node? p = some pn)
    (hx : s.node? x = some xn)
    (hm : ∀ m, xn.child (pn.sideOf x).other = some m → (s.node? m).isSome)
    (hg : ∀ g, pn.parent = some g → (s.node? g).isSome) :
    ∃ s', s.rotate x p = some s' ∧
      Writes s s' (rotWrites x p (pn.sideOf x) (xn.child (pn.sideOf x).other) pn.parent) := by
  -- each write keeps every node in place, so the next one finds its node
  have hp' : (s.node? p).isSome := by simp [hp]
  have hx' : (s.node? x).isSome := by simp [hx]
  obtain ⟨s₁, h₁⟩ := modifyNode_eq_some (·.setChild (pn.sideOf x) (xn.child (pn.sideOf x).other)) hp'
  have w₁ := writes_modifyNode h₁
  obtain ⟨s₂, h₂⟩ := modifyNode_eq_some (·.setChild (pn.sideOf x).other (some p)) (w₁.isSome x ▸ hx')
  have w₂ := w₁.trans (writes_modifyNode h₂)
  obtain ⟨s₃, h₃⟩ := modifyNode_eq_some ({ · with parent := some x }) (w₂.isSome p ▸ hp')
  have w₃ := w₂.trans (writes_modifyNode h₃)
  obtain ⟨s₄, h₄⟩ := modifySome_eq_some ({ · with parent := some p })
    fun m hm' => w₃.isSome m ▸ hm m hm'
  have w₄ := w₃.trans (writes_modifySome h₄)
  obtain ⟨s₅, h₅⟩ := modifySome_eq_some (s := s₄) (o := pn.parent)
    (fun n => if n.left = some p then { n with left := some x } else { n with right := some x })
    fun g hg' => w₄.isSome g ▸ hg g hg'
  have w₅ := w₄.trans (writes_modifySome h₅)
  obtain ⟨s₆, h₆⟩ := modifyNode_eq_some ({ · with parent := pn.parent }) (w₅.isSome x ▸ hx')
  refine ⟨s₆, ?_, w₅.trans (writes_modifyNode h₆)⟩
  simp only [rotate, hp, hx, Option.bind_eq_bind, Option.bind_some, h₁, h₂, h₃, h₄, h₅, h₆]

section RotationWrites

variable {x p j : Nat} {d : Side} {moved grand : Option Nat}

/-- The lifted node takes its parent on the other side, and its parent's parent. -/
theorem rotWrites_lifted (hp : p ≠ x) (hm : moved ≠ some x) (hg : grand ≠ some x) :
    rotWrites (α := α) x p d moved grand x = fun n =>
      { n.setChild d.other (some p) with parent := grand } := by
  funext n
  simp [rotWrites, writeAt, hp, hm, hg]

/-- The parent takes the subtree that changes sides, and the lifted node as its parent. -/
theorem rotWrites_parent (hp : p ≠ x) (hm : moved ≠ some p) (hg : grand ≠ some p) :
    rotWrites (α := α) x p d moved grand p = fun n =>
      { n.setChild d moved with parent := some x } := by
  funext n
  simp [rotWrites, writeAt, Ne.symm hp, hm, hg]

/-- The parent's parent names the lifted node where it named the parent. -/
theorem rotWrites_grand (hx : j ≠ x) (hp : j ≠ p) (hm : moved ≠ some j) (hg : grand = some j) :
    rotWrites (α := α) x p d moved grand j = fun n =>
      if n.left = some p then { n with left := some x } else { n with right := some x } := by
  funext n
  simp [rotWrites, writeAt, Ne.symm hx, Ne.symm hp, hm, hg]

/-- Any other node gets a new parent only as the root of the subtree that changes sides. -/
theorem rotWrites_below (hx : j ≠ x) (hp : j ≠ p) (hg : grand ≠ some j) :
    rotWrites (α := α) x p d moved grand j = writeAt moved ({ · with parent := some p }) j := by
  funext n
  simp [rotWrites, writeAt, Ne.symm hx, Ne.symm hp, hg]

/-- Nodes that no write of a rotation names keep what they hold. -/
theorem rotWrites_of_ne (hx : j ≠ x) (hp : j ≠ p) (hm : moved ≠ some j) (hg : grand ≠ some j) :
    rotWrites (α := α) x p d moved grand j = id := by
  rw [rotWrites_below hx hp hg]
  funext n
  simp [writeAt, hm]

end RotationWrites

end Lexicon.SplayNodes

namespace Lexicon.Splay

open SplayNodes

variable {α : Type}

/-! ## One rotation in a tree -/

/-- The subtree `c` put back below the parent `f` records, and then lifted above it. -/
def Frame.rotate (f : Frame α) (c : Tree α) : Tree α := f.side.bringUp (f.attach c)

/-- A rotation swaps the two frames above the subtree that changes sides: below `f`'s node the
lifted node's frame `g` holds it on one side, and after the rotation `f` holds it on the
other. -/
theorem Frame.rotate_attach {f g : Frame α} (b : Tree α) (hside : g.side = f.side.other) :
    f.rotate (g.attach b) = g.attach (f.attach b) := by
  obtain ⟨d, p, o⟩ := f
  obtain ⟨d', x, a⟩ := g
  cases d <;> cases hside <;> rfl

theorem Frame.ids_rotate (f : Frame α) (c : Tree α) : (f.rotate c).ids = (f.attach c).ids := by
  simp only [Tree.ids, Frame.rotate, toList_bringUp]

theorem toList_plug_rotate (f : Frame α) (rest : List (Frame α)) (c : Tree α) :
    (plug rest (f.rotate c)).toList = (plug (f :: rest) c).toList :=
  toList_plug_congr rest (toList_bringUp f.side (f.attach c))

theorem ids_plug_rotate (f : Frame α) (rest : List (Frame α)) (c : Tree α) :
    (plug rest (f.rotate c)).ids = (plug (f :: rest) c).ids := by
  rw [Tree.ids, toList_plug_rotate, Tree.ids]

/-- Every node is the root of a frame's other subtree below its parent, on the other side. -/
theorem Frame.exists_attach (d : Side) (l : Tree α) (e : Entry α) (r : Tree α) :
    ∃ (g : Frame α) (b : Tree α), g.side = d.other ∧ g.entry = e ∧ Tree.node l e r = g.attach b := by
  cases d
  · exact ⟨⟨.right, e, l⟩, r, rfl, rfl, rfl⟩
  · exact ⟨⟨.left, e, r⟩, l, rfl, rfl, rfl⟩

theorem Frame.attach_eq_node (f : Frame α) (c : Tree α) : ∃ l r, f.attach c = .node l f.entry r := by
  obtain ⟨d, e, o⟩ := f
  cases d
  · exact ⟨c, o, rfl⟩
  · exact ⟨o, c, rfl⟩

/-- A rotation keeps the lifted node on top. -/
theorem Frame.rotate_node (f : Frame α) (l : Tree α) (e : Entry α) (r : Tree α) :
    ∃ l' r', f.rotate (.node l e r) = .node l' e r' := by
  obtain ⟨g, b, hside, rfl, hc⟩ := Frame.exists_attach f.side l e r
  rw [hc, Frame.rotate_attach b hside]
  exact Frame.attach_eq_node g _

/-- Lifting the node of `g` above the node of `f`, in the subtree of `f`'s node hanging below
`q`: every node holds what the rotation's writes make of it, where the subtree `b` changes
sides. -/
theorem Frame.nodeAt_rotate {f g : Frame α} {b : Tree α} {q : Option Nat}
    (hside : g.side = f.side.other) (hnd : (f.attach (g.attach b)).ids.Nodup)
    (hq : ∀ i, q = some i → i ∉ (f.attach (g.attach b)).ids) (j : Nat) :
    (g.attach (f.attach b)).nodeAt q j =
      ((f.attach (g.attach b)).nodeAt q j).map (rotWrites g.entry.id f.entry.id f.side b.rootId q j) := by
  obtain ⟨hnd₁, -, hp₁, -, hdisj⟩ := Frame.nodup_attach hnd
  obtain ⟨-, -, hxb, hxa, hba⟩ := Frame.nodup_attach hnd₁
  have hnd' : (g.attach (f.attach b)).ids.Nodup := by
    rwa [← Frame.rotate_attach b hside, Frame.ids_rotate]
  have hmem : ∀ {i}, i ∈ (f.attach (g.attach b)).ids ↔
      i ∈ b.ids ∨ i = g.entry.id ∨ i ∈ g.other.ids ∨ i = f.entry.id ∨ i ∈ f.other.ids := by
    intro i
    simp only [Frame.mem_ids_attach, or_assoc]
  have hpx : f.entry.id ≠ g.entry.id := fun h => hp₁ (Frame.mem_ids_attach.mpr (.inr (.inl h)))
  have hpb : f.entry.id ∉ b.ids := fun h => hp₁ (Frame.mem_ids_attach.mpr (.inl h))
  have hpa : f.entry.id ∉ g.other.ids := fun h => hp₁ (Frame.mem_ids_attach.mpr (.inr (.inr h)))
  have hqj : ∀ {i}, i ∈ (f.attach (g.attach b)).ids → q ≠ some i := fun hi hqi => hq _ hqi hi
  by_cases hjx : j = g.entry.id
  · -- the lifted node takes the parent on the other side, and the parent's parent
    subst hjx
    have hqx := hqj (hmem.mpr (.inr (.inl rfl)))
    rw [Frame.nodeAt_attach_self, Frame.rootId_attach,
      Frame.nodeAt_attach_of_mem hnd (Frame.mem_ids_attach.mpr (.inr (.inl rfl))),
      Frame.nodeAt_attach_self, rotWrites_lifted hpx (Tree.rootId_ne hxb) hqx, Option.map_some,
      ← hside, Frame.stored_setChild, Frame.stored_withParent]
  by_cases hjp : j = f.entry.id
  · -- the parent takes the subtree that changes sides, below the lifted node
    subst hjp
    have hqp := hqj (hmem.mpr (.inr (.inr (.inr (.inl rfl)))))
    rw [Frame.nodeAt_attach_of_mem hnd' (Frame.mem_ids_attach.mpr (.inr (.inl rfl))),
      Frame.nodeAt_attach_self, Frame.nodeAt_attach_self, Frame.rootId_attach,
      rotWrites_parent hpx (Tree.rootId_ne hpb) hqp, Option.map_some, Frame.stored_setChild,
      Frame.stored_withParent]
  have hnd₂ : (f.attach b).ids.Nodup := (Frame.nodup_attach hnd').1
  by_cases hjb : j ∈ b.ids
  · -- the subtree that changes sides: only its root gets a new parent
    have hqb := hqj (hmem.mpr (.inl hjb))
    rw [Frame.nodeAt_attach_of_mem hnd' (Frame.mem_ids_attach.mpr (.inl hjb)),
      Frame.nodeAt_attach_of_mem hnd₂ hjb,
      Frame.nodeAt_attach_of_mem hnd (Frame.mem_ids_attach.mpr (.inl hjb)),
      Frame.nodeAt_attach_of_mem hnd₁ hjb, Tree.nodeAt_reparent (some g.entry.id),
      rotWrites_below hjx hjp hqb]
    rfl
  -- every other node keeps its parent and children
  have hmoved : b.rootId ≠ some j := Tree.rootId_ne hjb
  by_cases hja : j ∈ g.other.ids
  · rw [rotWrites_of_ne hjx hjp hmoved (hqj (hmem.mpr (.inr (.inr (.inl hja))))), Option.map_id,
      id_eq, Frame.nodeAt_attach_of_other hnd' hja,
      Frame.nodeAt_attach_of_mem hnd (Frame.mem_ids_attach.mpr (.inr (.inr hja))),
      Frame.nodeAt_attach_of_other hnd₁ hja]
  by_cases hjo : j ∈ f.other.ids
  · rw [rotWrites_of_ne hjx hjp hmoved (hqj (hmem.mpr (.inr (.inr (.inr (.inr hjo)))))),
      Option.map_id, id_eq, Frame.nodeAt_attach_of_mem hnd' (Frame.mem_ids_attach.mpr (.inr (.inr hjo))),
      Frame.nodeAt_attach_of_other hnd₂ hjo, Frame.nodeAt_attach_of_other hnd hjo]
  have hout : j ∉ (f.attach (g.attach b)).ids := fun h => by
    rcases hmem.mp h with h | h | h | h | h
    · exact hjb h
    · exact hjx h
    · exact hja h
    · exact hjp h
    · exact hjo h
  have hout' : j ∉ (g.attach (f.attach b)).ids := by
    rwa [← Frame.rotate_attach b hside, Frame.ids_rotate]
  rw [Tree.nodeAt_eq_none hout, Tree.nodeAt_eq_none hout', Option.map_none]

/-- A rotation in a whole tree: every node holds what the rotation's writes make of it, the
parent of the rotated subtree included, which now names the lifted node. -/
theorem nodeAt_plug_rotate {f g : Frame α} {b : Tree α} {rest : List (Frame α)}
    (hside : g.side = f.side.other) (hnd : (plug (f :: rest) (g.attach b)).ids.Nodup) (j : Nat) :
    (plug rest (f.rotate (g.attach b))).nodeAt none j =
      ((plug (f :: rest) (g.attach b)).nodeAt none j).map
        (rotWrites g.entry.id f.entry.id f.side b.rootId (parentId rest) j) := by
  have hnd' : (plug rest (f.rotate (g.attach b))).ids.Nodup := ids_plug_rotate f rest _ ▸ hnd
  replace hnd : (plug rest (f.attach (g.attach b))).ids.Nodup := hnd
  have hnd₁ : (f.attach (g.attach b)).ids.Nodup := (ids_sublist_plug rest _).nodup hnd
  rw [Frame.rotate_attach b hside] at hnd' ⊢
  have hids : (g.attach (f.attach b)).ids = (f.attach (g.attach b)).ids := by
    rw [← Frame.rotate_attach b hside, Frame.ids_rotate]
  by_cases hj : j ∈ (f.attach (g.attach b)).ids
  · -- inside the rotated subtree
    rw [nodeAt_plug_of_mem hnd' (hids ▸ hj), plug, nodeAt_plug_of_mem hnd hj]
    exact Frame.nodeAt_rotate hside hnd₁ (fun i hi => parentId_not_mem hnd hi) j
  -- outside it only the parent of the rotated subtree changes
  have hjx : j ≠ g.entry.id := fun h =>
    hj (Frame.mem_ids_attach.mpr (.inl (Frame.mem_ids_attach.mpr (.inr (.inl h)))))
  have hjp : j ≠ f.entry.id := fun h => hj (Frame.mem_ids_attach.mpr (.inr (.inl h)))
  have hjb : b.rootId ≠ some j := fun h =>
    hj (Frame.mem_ids_attach.mpr (.inl (Frame.mem_ids_attach.mpr (.inl (Tree.rootId_mem h)))))
  cases rest with
  | nil =>
    simp only [plug]
    rw [Tree.nodeAt_eq_none (hids ▸ hj), Tree.nodeAt_eq_none hj, Option.map_none]
  | cons h rest =>
    by_cases hjh : h.entry.id = j
    · -- the parent of the rotated subtree names the lifted node where it named the parent
      subst hjh
      have hhnd : (h.attach (f.attach (g.attach b))).ids.Nodup := (ids_sublist_plug rest _).nodup hnd
      have hpo : h.other.rootId ≠ some f.entry.id :=
        Tree.rootId_ne fun ho => (Frame.nodup_attach hhnd).2.2.2.2 _
          (Frame.mem_ids_attach.mpr (.inr (.inl rfl))) ho
      rw [plug, plug, plug, nodeAt_plug_of_mem (c := h.attach (g.attach (f.attach b))) hnd'
          (Frame.mem_ids_attach.mpr (.inr (.inl rfl))),
        nodeAt_plug_of_mem (c := h.attach (f.attach (g.attach b))) hnd
          (Frame.mem_ids_attach.mpr (.inr (.inl rfl))),
        Frame.nodeAt_attach_self, Frame.nodeAt_attach_self, Frame.rootId_attach, Frame.rootId_attach,
        rotWrites_grand hjx hjp hjb (by simp), Option.map_some, Frame.relink_stored _ _ hpo]
    · rw [rotWrites_of_ne hjx hjp hjb (by simpa using hjh), Option.map_id, id_eq]
      exact nodeAt_plug_of_not_mem hnd hnd' hj (hids ▸ hj) (.inr (by simpa using hjh))

/-! ## Splaying in a tree -/

theorem Tree.onChild_attach (f : Frame α) (op : Tree α → Tree α) (t : Tree α) :
    (f.attach t).onChild f.side op = f.attach (op t) := by
  obtain ⟨d, e, o⟩ := f
  cases d <;> rfl

/-- A zig-zig step, with the parent and the grandparent on one side, is one rotation below a
frame that holds the grandparent's part: the parent's rotation above the grandparent leaves the
node where the parent was. -/
theorem splayUp_zigZig {f₁ f₂ : Frame α} (hd : f₁.side = f₂.side) (c : Tree α) (rest : List (Frame α)) :
    f₂.rotate (f₁.attach c) = Frame.attach ⟨f₁.side, f₁.entry, f₂.attach f₁.other⟩ c ∧
    splayUp c (f₁ :: f₂ :: rest) = splayUp (Frame.rotate ⟨f₁.side, f₁.entry, f₂.attach f₁.other⟩ c) rest := by
  have hrot : f₂.rotate (f₁.attach c) = Frame.attach ⟨f₁.side, f₁.entry, f₂.attach f₁.other⟩ c := by
    obtain ⟨d₁, e₁, o₁⟩ := f₁
    obtain ⟨d₂, e₂, o₂⟩ := f₂
    cases hd
    cases d₁ <;> rfl
  refine ⟨hrot, ?_⟩
  rw [splayUp, if_pos hd]
  congr 1
  show f₂.side.bringUp (f₂.rotate (f₁.attach c)) = _
  rw [hrot, Frame.rotate, ← hd]

/-- A zig-zag step, with the parent and the grandparent on different sides, is a rotation above
the parent and then one above the grandparent. -/
theorem splayUp_zigZag {f₁ f₂ : Frame α} (hd : f₁.side ≠ f₂.side) (c : Tree α) (rest : List (Frame α)) :
    splayUp c (f₁ :: f₂ :: rest) = splayUp (f₂.rotate (f₁.rotate c)) rest := by
  rw [splayUp, if_neg hd, Tree.onChild_attach]
  rfl

end Lexicon.Splay

namespace Lexicon.SplayNodes

open Splay

variable {α : Type} {s s' : SplayNodes α}

/-! ## A vector storing a tree -/

/-- The vector stores the tree `t`: the tree's numbers are distinct, and each number holds the
node that the tree gives it, with its key, value, children and parent, and no other number holds
one. The root number is not part of it: splaying sets it only once the node is at the top. -/
structure Shapes (s : SplayNodes α) (t : Splay.Tree α) : Prop where
  nodup : t.ids.Nodup
  stores : ∀ i, s.node? i = t.nodeAt none i

theorem Shapes.isSome_node? {t : Splay.Tree α} (hs : s.Shapes t) {i : Nat} : (s.node? i).isSome ↔ i ∈ t.ids := by
  rw [hs.stores, Splay.Tree.isSome_nodeAt]

/-- The vector holds exactly the tree's nodes, so as many as the tree has. -/
theorem Shapes.size_eq {t : Splay.Tree α} (hs : s.Shapes t) : s.size = t.ids.length := by
  have hperm : (List.range s.size).Perm t.ids := by
    refine (List.perm_ext_iff_of_nodup List.nodup_range hs.nodup).mpr fun i => ?_
    rw [List.mem_range, ← hs.isSome_node?, ← Option.ne_none_iff_isSome, node?, Ne,
      Array.getElem?_eq_none_iff, size]
    omega
  simpa using hperm.length_eq

theorem Shapes.withRoot {t : Splay.Tree α} (hs : s.Shapes t) (r : Option Nat) : Shapes { s with root := r } t :=
  ⟨hs.nodup, hs.stores⟩

/-- Storing a tree is a check over the vector's numbers: the tree has as many distinct numbers
as the vector has nodes, and each node is the one the tree gives its number. -/
theorem shapes_iff {t : Splay.Tree α} : s.Shapes t ↔
    t.ids.Nodup ∧ s.size = t.ids.length ∧ ∀ i < s.size, s.node? i = t.nodeAt none i := by
  refine ⟨fun hs => ⟨hs.nodup, hs.size_eq, fun i _ => hs.stores i⟩, fun ⟨hnd, hsize, hlt⟩ => ⟨hnd, ?_⟩⟩
  -- the numbers below the size are all in the tree, so they are all its numbers
  have hsub : ∀ i ∈ List.range s.size, i ∈ t.ids := fun i hi => by
    rw [List.mem_range] at hi
    rw [← Splay.Tree.isSome_nodeAt (q := none), ← hlt i hi, ← Option.ne_none_iff_isSome, node?, Ne,
      Array.getElem?_eq_none_iff]
    simp only [size] at hi
    omega
  have hperm : (List.range s.size).Perm t.ids :=
    (List.subperm_of_subset List.nodup_range hsub).perm_of_length_le (by simp [hsize])
  intro i
  by_cases hi : i < s.size
  · exact hlt i hi
  · have hout : i ∉ t.ids := fun h => hi (List.mem_range.mp (hperm.mem_iff.mpr h))
    rw [Splay.Tree.nodeAt_eq_none hout, node?, Array.getElem?_eq_none_iff.mpr (by simp only [size] at hi; omega)]

instance [DecidableEq α] (t : Splay.Tree α) : Decidable (s.Shapes t) := decidable_of_iff _ shapes_iff.symm

/-- The node of a frame's parent names the subtree's root on the frame's side, and the frame
above as its parent. -/
theorem Shapes.node?_frame {f : Frame α} {rest : List (Frame α)} {c : Splay.Tree α}
    (hs : s.Shapes (plug (f :: rest) c)) :
    s.node? f.entry.id = some (f.stored c.rootId (parentId rest)) := by
  rw [hs.stores, plug, nodeAt_plug_of_mem (c := f.attach c) hs.nodup
    (Frame.mem_ids_attach.mpr (.inr (.inl rfl))), Frame.nodeAt_attach_self]

/-- The node at the top of a subtree names the parent its path records. -/
theorem Shapes.node?_top {path : List (Frame α)} {l r : Splay.Tree α} {e : Entry α}
    (hs : s.Shapes (plug path (.node l e r))) :
    s.node? e.id = some ⟨e.key, l.rootId, r.rootId, parentId path, e.value⟩ := by
  rw [hs.stores, nodeAt_plug_of_mem hs.nodup (by simp), Splay.Tree.nodeAt_root]

/-- A rotation of a node above its parent in a vector storing a tree succeeds, keeps the root
number, and leaves the vector storing the tree with the node lifted. -/
theorem Shapes.rotate {f : Frame α} {rest : List (Frame α)} {l r : Splay.Tree α} {e : Entry α}
    (hs : s.Shapes (plug (f :: rest) (.node l e r))) :
    ∃ s', s.rotate e.id f.entry.id = some s' ∧ s'.root = s.root ∧
      s'.Shapes (plug rest (f.rotate (.node l e r))) := by
  obtain ⟨g, b, hside, rfl, hc⟩ := Frame.exists_attach f.side l e r
  rw [hc] at hs ⊢
  have hnd₁ : (f.attach (g.attach b)).ids.Nodup := (ids_sublist_plug rest _).nodup hs.nodup
  obtain ⟨hnd₂, -, -, -, hdisj⟩ := Frame.nodup_attach hnd₁
  have hxo : f.other.rootId ≠ some g.entry.id :=
    Splay.Tree.rootId_ne (hdisj _ (Frame.mem_ids_attach.mpr (.inr (.inl rfl))))
  have hx : s.node? g.entry.id = some (g.stored b.rootId (some f.entry.id)) := by
    rw [hs.stores, plug, nodeAt_plug_of_mem (c := f.attach (g.attach b)) hs.nodup
      (Frame.mem_ids_attach.mpr (.inl (Frame.mem_ids_attach.mpr (.inr (.inl rfl))))),
      parentId, Frame.nodeAt_attach_of_mem hnd₁ (Frame.mem_ids_attach.mpr (.inr (.inl rfl))),
      Frame.nodeAt_attach_self]
  have hp := hs.node?_frame
  rw [Frame.rootId_attach] at hp
  -- the nodes a rotation writes are all in the tree
  have hin : ∀ i ∈ (f.attach (g.attach b)).ids, (s.node? i).isSome := fun i hi =>
    hs.isSome_node?.mpr ((ids_sublist_plug rest _).subset hi)
  have hmoved : (g.stored b.rootId (some f.entry.id)).child
      ((f.stored (some g.entry.id) (parentId rest)).sideOf g.entry.id).other = b.rootId := by
    rw [Frame.sideOf_stored _ hxo, ← hside, Frame.child_stored]
  obtain ⟨s', hrot, hw⟩ := rotate_writes hp hx
    (fun m hm => hin m (Frame.mem_ids_attach.mpr (.inl (Frame.mem_ids_attach.mpr
      (.inl (Splay.Tree.rootId_mem (hmoved ▸ hm)))))))
    (fun i hi => hs.isSome_node?.mpr (mem_plug_of_parentId (c := f.attach (g.attach b))
      (by simpa using hi)))
  rw [hmoved, Frame.sideOf_stored _ hxo, Frame.stored_parent] at hw
  refine ⟨s', hrot, hw.root, ids_plug_rotate f rest _ ▸ hs.nodup, fun j => ?_⟩
  rw [hw.node?, hs.stores, nodeAt_plug_rotate hside hs.nodup j]

/-! ## Splaying a vector storing a tree -/

/-- A zig step: a node whose parent is the root is rotated above it. -/
theorem Shapes.zig {f : Frame α} {l r : Splay.Tree α} {e : Entry α}
    (hs : s.Shapes (plug [f] (.node l e r))) :
    ∃ s', s.splayStep e.id f.entry.id = some s' ∧ s'.root = s.root ∧
      s'.Shapes (f.rotate (.node l e r)) := by
  have hp := hs.node?_frame
  simp only [splayStep, hp, Option.bind_eq_bind, Option.bind_some, Frame.stored_parent, parentId_nil]
  exact hs.rotate

/-- The side a parent holds its child on, read from a vector storing a tree, is the frame's. -/
theorem Shapes.sideOf {f : Frame α} {rest : List (Frame α)} {c : Splay.Tree α} {x : Nat}
    (hs : s.Shapes (plug (f :: rest) c)) (hx : c.rootId = some x) :
    (f.stored (some x) (parentId rest)).sideOf x = f.side := by
  have hnd := (ids_sublist_plug rest _).nodup hs.nodup
  refine Frame.sideOf_stored _ (Splay.Tree.rootId_ne fun ho => ?_)
  exact (Frame.nodup_attach hnd).2.2.2.2 x (Splay.Tree.rootId_mem hx) ho

/-- A step of two rotations, for a node with a grandparent: zig-zig when the parent and the
grandparent hold it on one side, zig-zag otherwise. Either way the vector then stores the tree
that the step of splaying gives, with the node on top. -/
theorem Shapes.zigTwo {f₁ f₂ : Frame α} {rest : List (Frame α)} {l r : Splay.Tree α} {e : Entry α}
    (hs : s.Shapes (plug (f₁ :: f₂ :: rest) (.node l e r))) :
    ∃ s', s.splayStep e.id f₁.entry.id = some s' ∧ s'.root = s.root ∧ ∃ l' r',
      splayUp (.node l e r) (f₁ :: f₂ :: rest) = splayUp (.node l' e r') rest ∧
        s'.Shapes (plug rest (.node l' e r')) := by
  have hs₂ : s.Shapes (plug (f₂ :: rest) (f₁.attach (.node l e r))) := hs
  have hp := hs.node?_frame
  have hg := hs₂.node?_frame
  rw [Frame.rootId_attach] at hg
  have hside₁ : (f₁.stored (some e.id) (some f₂.entry.id)).sideOf e.id = f₁.side := hs.sideOf rfl
  simp only [splayStep, hp, hg, Option.bind_eq_bind, Option.bind_some, Frame.stored_parent,
    parentId_cons, Splay.Tree.rootId_node, hside₁, hs₂.sideOf (Frame.rootId_attach _ _)]
  by_cases hd : f₁.side = f₂.side
  · -- zig-zig: the parent above the grandparent, then the node above the parent
    rw [if_pos hd]
    obtain ⟨hrot, hsplay⟩ := splayUp_zigZig hd (.node l e r) rest
    obtain ⟨l₁, r₁, h₁⟩ := Frame.attach_eq_node f₁ (.node l e r)
    have hs₁ : s.Shapes (plug (f₂ :: rest) (.node l₁ f₁.entry r₁)) := h₁ ▸ hs₂
    obtain ⟨s₁, hrot₁, hroot₁, hs₁'⟩ := hs₁.rotate
    rw [← h₁, hrot] at hs₁'
    obtain ⟨s₂, hrot₂, hroot₂, hs₂'⟩ := (hs₁' : s₁.Shapes (plug (_ :: rest) (.node l e r))).rotate
    obtain ⟨l', r', hc'⟩ := Frame.rotate_node ⟨f₁.side, f₁.entry, f₂.attach f₁.other⟩ l e r
    exact ⟨s₂, by simp [hrot₁, hrot₂], hroot₂.trans hroot₁, l', r', by rw [hsplay, hc'],
      hc' ▸ hs₂'⟩
  · -- zig-zag: the node above the parent, then above the grandparent
    rw [if_neg hd]
    obtain ⟨s₁, hrot₁, hroot₁, hs₁⟩ := hs.rotate
    obtain ⟨l₁, r₁, h₁⟩ := Frame.rotate_node f₁ l e r
    rw [h₁] at hs₁
    obtain ⟨s₂, hrot₂, hroot₂, hs₂'⟩ := hs₁.rotate
    obtain ⟨l', r', hc'⟩ := Frame.rotate_node f₂ l₁ e r₁
    exact ⟨s₂, by simp [hrot₁, hrot₂], hroot₂.trans hroot₁, l', r',
      by rw [splayUp_zigZag hd, h₁, hc'], hc' ▸ hs₂'⟩

/-- One step of splaying a node with a parent succeeds and lifts it by one or two levels. -/
theorem Shapes.splayStep_lifts {f : Frame α} {rest : List (Frame α)} {l r : Splay.Tree α} {e : Entry α}
    (hs : s.Shapes (plug (f :: rest) (.node l e r))) :
    ∃ s₁ path' l' r', s.splayStep e.id f.entry.id = some s₁ ∧
      s₁.Shapes (plug path' (.node l' e r')) ∧ path'.length < rest.length + 1 ∧
      rest.length + 1 ≤ path'.length + 2 ∧
      splayUp (.node l e r) (f :: rest) = splayUp (.node l' e r') path' := by
  cases rest with
  | nil =>
    obtain ⟨s₁, hstep, -, hs₁⟩ := hs.zig
    obtain ⟨l', r', h'⟩ := Frame.rotate_node f l e r
    exact ⟨s₁, [], l', r', hstep, h' ▸ hs₁, by simp, by simp, h'⟩
  | cons f₂ rest =>
    obtain ⟨s₁, hstep, -, l', r', hsplay, hs₁⟩ := hs.zigTwo
    exact ⟨s₁, rest, l', r', hstep, hs₁, by simp only [List.length_cons]; omega,
      by simp only [List.length_cons]; omega, hsplay⟩

/-- The splay loop on a vector storing a tree, from a node whose path has fewer frames than
there is fuel: it ends with the node at the root, the vector storing the tree that splaying the
node gives. -/
theorem Shapes.splayLoop {path : List (Frame α)} {l r : Splay.Tree α} {e : Entry α} {fuel : Nat}
    (hs : s.Shapes (plug path (.node l e r))) (hfuel : path.length < fuel) :
    ∃ s', splayLoop e.id fuel s = some s' ∧ s'.root = some e.id ∧
      s'.Shapes (splayUp (.node l e r) path) := by
  -- induction on the fuel: each step takes one or two frames off the path
  induction fuel generalizing s l r path with
  | zero => cases hfuel
  | succ fuel ih =>
    have hx := hs.node?_top
    cases path with
    | nil => exact ⟨_, by simp [splayLoop, hx], rfl, hs.withRoot _⟩
    | cons f rest =>
      obtain ⟨s₁, path', l', r', hstep, hs₁, hlt, -, hsplay⟩ := hs.splayStep_lifts
      obtain ⟨s', hloop, hroot, hs'⟩ := ih hs₁ (by simp only [List.length_cons] at hfuel; omega)
      exact ⟨s', by simp [splayLoop, hx, hstep, hloop], hroot, hsplay ▸ hs'⟩

/-- Splaying a node of a vector storing a tree succeeds: the vector's size is fuel enough, since
the node's path has fewer frames than the tree has nodes. -/
theorem Shapes.splay {path : List (Frame α)} {l r : Splay.Tree α} {e : Entry α}
    (hs : s.Shapes (plug path (.node l e r))) :
    ∃ s', s.splay e.id = some s' ∧ s'.root = some e.id ∧ s'.Shapes (splayUp (.node l e r) path) := by
  have hlen := length_ids_plug path (.node l e r)
  have hsize := hs.size_eq
  simp only [Splay.Tree.ids_node, List.length_append, List.length_cons] at hlen
  exact hs.splayLoop (by simp only [size] at hsize; omega)

/-- A node with a parent sits below a frame, and the frame's entry is the parent. -/
theorem Shapes.exists_frame {path : List (Frame α)} {l r : Splay.Tree α} {e : Entry α} {xn : Node α}
    {p : Nat} (hs : s.Shapes (plug path (.node l e r))) (hx : s.node? e.id = some xn)
    (hp : xn.parent = some p) : ∃ f rest, path = f :: rest ∧ f.entry.id = p := by
  rw [hs.node?_top] at hx
  cases hx
  cases path with
  | nil => cases hp
  | cons f rest => exact ⟨f, rest, rfl, Option.some.inj hp⟩

/-! ## The laws of rotating and splaying -/

/-- Rotating a node `x` above its parent `p` succeeds and leaves the vector storing a tree with
the entries of `t` in order. `x` takes `p`'s parent, none when `p` was the root, and holds `p` on
the side away from the one it hung on; `p` hangs from `x`; and `p`'s former parent names `x`
where it named `p`, its other child unchanged. The root number is left as it was. -/
def RotatesInPlace (s : SplayNodes α) (t : Splay.Tree α) : Prop :=
  ∀ x p xn pn, s.node? x = some xn → xn.parent = some p → s.node? p = some pn →
    ∃ s' t', s.rotate x p = some s' ∧ s'.Shapes t' ∧ t'.toList = t.toList ∧ s'.root = s.root ∧
      (∃ xn', s'.node? x = some xn' ∧ xn'.parent = pn.parent ∧
        xn'.child (pn.sideOf x).other = some p) ∧
      (∃ pn', s'.node? p = some pn' ∧ pn'.parent = some x) ∧
      ∀ g gn, pn.parent = some g → s.node? g = some gn →
        ∃ gn', s'.node? g = some gn' ∧ gn'.child (gn.sideOf p) = some x ∧
          gn'.child (gn.sideOf p).other = gn.child (gn.sideOf p).other

/-- The laws of rotating and splaying in a vector `s` that stores the tree `t`. -/
structure RotationLaws (s : SplayNodes α) (t : Splay.Tree α) : Prop where
  rotate : s.RotatesInPlace t
  /-- A step of splaying a node with a parent succeeds and lifts it by one or two levels,
  leaving the vector storing a tree with the same entries in order. -/
  step : ∀ path l e r, t = plug path (.node l e r) → ∀ xn p, s.node? e.id = some xn →
    xn.parent = some p → ∃ s₁ path' l' r', s.splayStep e.id p = some s₁ ∧
      s₁.Shapes (plug path' (.node l' e r')) ∧ (plug path' (.node l' e r')).toList = t.toList ∧
      path'.length < path.length ∧ path.length ≤ path'.length + 2
  /-- Splaying any node succeeds, and ends with it at the root and without a parent, the vector
  storing a tree with the same entries in order. -/
  splay : ∀ x ∈ t.ids, ∃ s' t', s.splay x = some s' ∧ s'.Shapes t' ∧ t'.toList = t.toList ∧
    s'.root = some x ∧ ∃ xn, s'.node? x = some xn ∧ xn.parent = none

/-- A rotation rewires the lifted node, its parent and the parent's parent as a rotation in
place should. -/
theorem Shapes.rotatesInPlace {t : Splay.Tree α} (hs : s.Shapes t) : s.RotatesInPlace t := by
  intro x p xn pn hxn hparent hpn
  have hx : x ∈ t.ids := hs.isSome_node?.mp (by simp [hxn])
  obtain ⟨path, l, e, r, rfl, rfl⟩ := exists_plug_of_mem hx
  obtain ⟨f, rest, rfl, rfl⟩ := hs.exists_frame hxn hparent
  rw [hs.node?_frame, Splay.Tree.rootId_node] at hpn
  cases hpn
  have hside := hs.sideOf (x := e.id) rfl
  obtain ⟨s', hrot, hroot, hs'⟩ := hs.rotate
  refine ⟨s', _, hrot, hs', toList_plug_rotate f rest _, hroot, ?_⟩
  -- read the three rewired nodes off the tree the vector now stores
  obtain ⟨g, b, hgside, hge, hc⟩ := Frame.exists_attach f.side l e r
  rw [hc, Frame.rotate_attach b hgside] at hs'
  have hs'₁ : s'.Shapes (plug (g :: rest) (f.attach b)) := hs'
  have hs'₂ : s'.Shapes (plug (f :: g :: rest) b) := hs'
  refine ⟨⟨_, hge ▸ hs'₁.node?_frame, by simp, ?_⟩, ⟨_, hs'₂.node?_frame, by simp [hge]⟩, ?_⟩
  · rw [hside, ← hgside, Frame.child_stored, Frame.rootId_attach]
  intro gi gn hgi hgn
  simp only [Frame.stored_parent] at hgi
  cases rest with
  | nil => cases hgi
  | cons h rest =>
    cases hgi
    have hs₀ : s.Shapes (plug (h :: rest) (f.attach (.node l e r))) := hs
    have hs'₀ : s'.Shapes (plug (h :: rest) (g.attach (f.attach b))) := hs'
    rw [hs₀.node?_frame, Frame.rootId_attach] at hgn
    cases hgn
    rw [hs₀.sideOf (Frame.rootId_attach _ _), hs'₀.node?_frame, Frame.rootId_attach, hge]
    exact ⟨_, rfl, by simp, by simp⟩

/-- For every vector that stores a tree: a rotation of a node above its parent keeps the vector
storing a tree with the same entries in order, puts the node in its parent's place and the
parent below it; each step of splaying lifts the node by one or two levels; and splaying any
node succeeds and ends with it at the root. -/
theorem rotate_and_splay_keep_links {t : Splay.Tree α} (hs : s.Shapes t) : s.RotationLaws t := by
  refine ⟨hs.rotatesInPlace, ?_, ?_⟩
  · intro path l e r ht xn p hxn hp
    subst ht
    obtain ⟨f, rest, rfl, rfl⟩ := hs.exists_frame hxn hp
    obtain ⟨s₁, path', l', r', hstep, hs₁, hlt, hle, hsplay⟩ := hs.splayStep_lifts
    refine ⟨s₁, path', l', r', hstep, hs₁, ?_, hlt, hle⟩
    rw [← toList_splayUp, ← hsplay, toList_splayUp]
  · intro x hx
    obtain ⟨path, l, e, r, rfl, rfl⟩ := exists_plug_of_mem hx
    obtain ⟨s', hsplay, hroot, hs'⟩ := hs.splay
    obtain ⟨l', r', htop⟩ := splayUp_root path l e r
    have hs'' : s'.Shapes (plug [] (.node l' e r')) := htop ▸ hs'
    exact ⟨s', _, hsplay, hs', toList_splayUp _ _, hroot, _, hs''.node?_top, rfl⟩

/-- Keys 1, 2 and 3 stored with 2 at the root: the laws hold, for a rotation of either child
above the root and for splaying any of the three nodes. -/
theorem rotate_and_splay_keep_links_three :
    let s : SplayNodes Unit :=
      ⟨#[⟨1, none, none, some 2, ()⟩, ⟨3, none, none, some 2, ()⟩, ⟨2, some 0, some 1, none, ()⟩],
        some 2⟩
    let t : Splay.Tree Unit := .node (.node .leaf ⟨0, 1, ()⟩ .leaf) ⟨2, 2, ()⟩ (.node .leaf ⟨1, 3, ()⟩ .leaf)
    s.Shapes t ∧ s.RotationLaws t := by
  intro s t
  have hs : s.Shapes t := by decide
  exact ⟨hs, rotate_and_splay_keep_links hs⟩

end Lexicon.SplayNodes
