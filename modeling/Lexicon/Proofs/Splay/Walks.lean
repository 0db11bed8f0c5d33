import Mathlib
import Lexicon.Proofs.Splay.Rotation

/-!
# Walks over the stored splay tree

Every operation of the node vector walks its links: a search walks down from the root by the
keys, an insertion walks down to the leaf where the new node goes, and the views and the
teardown walk the child links, in order or children first. On a vector that stores a tree, each
walk gives what the matching function of the tree gives (`locate`, `leafPath`, `toList`,
`postOrder`), within as many steps as the vector has nodes; and attaching a new node below the
parent the walk finds, then splaying it, stores the tree that an insertion into the tree builds.

* `SplayNodes.Shapes.descend`, `Shapes.leafParent`: the walks down.
* `SplayNodes.Shapes.collectInOrder`, `Shapes.collectPostOrder`: the walks over the child links.
* `SplayNodes.takeAll_map`: taking the nodes out of the vector in a given order.
* `SplayNodes.Shapes.node?_push_leaf`, `Shapes.link_leaf`: a new node pushed, then linked below
  its parent.
* `SplayNodes.Shapes.attach`: a new node linked below its parent and splayed to the root.
-/

namespace Lexicon.Splay

variable {α : Type}

namespace Tree

theorem length_ids (t : Tree α) : t.ids.length = t.size := by
  simp [ids, length_toList]

theorem mem_ids_of_mem {t : Tree α} {x : Entry α} (h : x ∈ t.toList) : x.id ∈ t.ids :=
  List.mem_map_of_mem h

theorem height_le_size : ∀ t : Tree α, t.height ≤ t.size
  | leaf => Nat.le_refl 0
  | node l _ r => by
    have := height_le_size l
    have := height_le_size r
    simp only [height, size]
    omega

/-- A tree stores each of its entries under its number, with its key and value. -/
theorem nodeAt_entry {x : Entry α} : ∀ {t : Tree α} {q : Option Nat}, t.ids.Nodup →
    x ∈ t.toList → ∃ n, t.nodeAt q x.id = some n ∧ n.key = x.key ∧ n.value = x.value
  | leaf, _, _, h => by simp at h
  | node l e r, q, hnd, h => by
    obtain ⟨hl, hr, -, -, -⟩ := nodup_ids_node hnd
    rw [toList_node, List.mem_append, List.mem_cons] at h
    rcases h with h | rfl | h
    · rw [nodeAt_node_left hnd (mem_ids_of_mem h)]
      exact nodeAt_entry hl h
    · exact ⟨_, nodeAt_root q l x r, rfl, rfl⟩
    · rw [nodeAt_node_right hnd (mem_ids_of_mem h)]
      exact nodeAt_entry hr h

/-- Putting a leaf back along an insertion's descent gives the tree it started from. -/
theorem plug_leafPath (k : Key) : ∀ (t : Tree α) (path : List (Frame α)),
    plug (t.leafPath k path) .leaf = plug path t
  | leaf, _ => rfl
  | node l e r, path => by
    simp only [leafPath]
    split
    · exact plug_leafPath k l _
    · exact plug_leafPath k r _

/-- Every frame an insertion's descent adds goes left exactly below a greater key. -/
theorem side_of_mem_leafPath (k : Key) : ∀ (t : Tree α) (path : List (Frame α)) (f : Frame α),
    f ∈ t.leafPath k path → f ∈ path ∨ f.side = if k < f.entry.key then .left else .right
  | leaf, _, _, h => .inl h
  | node l e r, path, f, h => by
    simp only [leafPath] at h
    split at h
    · next hk =>
      rcases side_of_mem_leafPath k l _ f h with h | h
      · rcases List.mem_cons.mp h with rfl | h
        · exact .inr (by simp [hk])
        · exact .inl h
      · exact .inr h
    · next hk =>
      rcases side_of_mem_leafPath k r _ f h with h | h
      · rcases List.mem_cons.mp h with rfl | h
        · exact .inr (by simp [hk])
        · exact .inl h
      · exact .inr h

end Tree

/-- Linking a new child `i` below a parent with no child on the side its key points to, which
is the frame's side, stores the child there. -/
theorem Frame.link_stored {f : Frame α} {k : Key} (i : Nat) (q : Option Nat)
    (hside : f.side = if k < f.entry.key then .left else .right) :
    (if k < (f.stored none q).key then { f.stored none q with left := some i }
      else { f.stored none q with right := some i }) = f.stored (some i) q := by
  obtain ⟨d, e, o⟩ := f
  by_cases hk : k < e.key
  · simp only [hk, if_true] at hside
    subst hside
    simp [Frame.stored, hk]
  · simp only [hk, if_false] at hside
    subst hside
    simp [Frame.stored, hk]

/-- A subtree's numbers and those of the rest of the tree make up the tree's numbers. -/
theorem ids_plug_perm (path : List (Frame α)) (c : Tree α) :
    (plug path c).ids.Perm (c.ids ++ (plug path .leaf).ids) := by
  induction path generalizing c with
  | nil => simp [plug]
  | cons f rest ih =>
    have hleaf : List.Perm (plug rest (f.attach .leaf)).ids
        ((f.entry.id :: f.other.ids) ++ (plug rest .leaf).ids) := by
      simpa using (ih (f.attach .leaf)).trans ((Frame.ids_attach f .leaf).append_right _)
    calc List.Perm (plug rest (f.attach c)).ids ((f.attach c).ids ++ (plug rest .leaf).ids) := ih _
      List.Perm _ (c.ids ++ ((f.entry.id :: f.other.ids) ++ (plug rest .leaf).ids)) := by
          rw [← List.append_assoc]
          exact (Frame.ids_attach f c).append_right _
      List.Perm _ (c.ids ++ (plug rest (f.attach .leaf)).ids) := hleaf.symm.append_left _

end Lexicon.Splay

namespace Lexicon.SplayNodes

open Splay

variable {α : Type} {s : SplayNodes α}

/-! ## The walks down -/

theorem Shapes.lt_size {t : Splay.Tree α} (hs : s.Shapes t) {i : Nat} (hi : i ∈ t.ids) : i < s.size := by
  have := hs.isSome_node?.mpr hi
  rw [← Option.ne_none_iff_isSome, node?, Ne, Array.getElem?_eq_none_iff] at this
  simp only [size]
  omega

theorem Shapes.size_tree {t : Splay.Tree α} (hs : s.Shapes t) : s.nodes.size = t.size := by
  rw [← Splay.Tree.length_ids, ← hs.size_eq]
  rfl

/-- The walk down by key `k` from the root of a stored subtree finds the node `locate` finds,
within as many steps as the subtree has nodes. -/
theorem Shapes.descend (k : Key) : ∀ {c : Splay.Tree α} {path : List (Frame α)} {fuel : Nat},
    s.Shapes (plug path c) → c.size ≤ fuel →
      s.descend k fuel c.rootId = some ((c.locate k path).map (·.2.1.id))
  | .leaf, _, fuel, _, _ => by cases fuel <;> rfl
  | .node l e r, path, fuel, hs, hfuel => by
    obtain ⟨fuel, rfl⟩ : ∃ f, fuel = f + 1 := ⟨fuel - 1, by simp only [Splay.Tree.size] at hfuel; omega⟩
    have hsl : s.Shapes (plug (⟨.left, e, r⟩ :: path) l) := hs
    have hsr : s.Shapes (plug (⟨.right, e, l⟩ :: path) r) := hs
    simp only [Splay.Tree.size] at hfuel
    simp only [Splay.Tree.rootId_node, SplayNodes.descend, hs.node?_top, Option.bind_eq_bind,
      Option.bind_some, Splay.Tree.locate]
    by_cases hk : k < e.key
    · simp only [if_pos hk]
      exact Shapes.descend k hsl (by omega)
    · by_cases hk' : e.key < k
      · simp only [if_neg hk, if_pos hk']
        exact Shapes.descend k hsr (by omega)
      · simp [hk, hk']

/-- The walk down to where a node of key `k` goes, from the root of a stored subtree, finds the
parent that the insertion's descent records. -/
theorem Shapes.leafParent (k : Key) : ∀ {c : Splay.Tree α} {path : List (Frame α)} {fuel : Nat},
    s.Shapes (plug path c) → c.size ≤ fuel →
      s.leafParent k fuel (parentId path) c.rootId = some (parentId (c.leafPath k path))
  | .leaf, _, fuel, _, _ => by cases fuel <;> rfl
  | .node l e r, path, fuel, hs, hfuel => by
    obtain ⟨fuel, rfl⟩ : ∃ f, fuel = f + 1 := ⟨fuel - 1, by simp only [Splay.Tree.size] at hfuel; omega⟩
    have hsl : s.Shapes (plug (⟨.left, e, r⟩ :: path) l) := hs
    have hsr : s.Shapes (plug (⟨.right, e, l⟩ :: path) r) := hs
    simp only [Splay.Tree.size] at hfuel
    simp only [Splay.Tree.rootId_node, SplayNodes.leafParent, hs.node?_top, Option.bind_eq_bind,
      Option.bind_some, Splay.Tree.leafPath]
    by_cases hk : k < e.key
    · simp only [if_pos hk]
      exact Shapes.leafParent k hsl (by omega)
    · simp only [if_neg hk]
      exact Shapes.leafParent k hsr (by omega)

/-! ## The walks over the child links -/

/-- One step of the in-order walk: the walks below the children, around the node. -/
theorem collectInOrder_succ (fuel i : Nat) : s.collectInOrder (fuel + 1) i =
    (s.node? i).bind fun n => (n.left.elim (some []) (s.collectInOrder fuel)).bind fun l =>
      (n.right.elim (some []) (s.collectInOrder fuel)).bind fun r => some (l ++ i :: r) := by
  simp only [collectInOrder, Option.bind_eq_bind]
  cases s.node? i with
  | none => rfl
  | some n =>
    simp only [Option.bind_some]
    cases n.left <;> cases n.right <;> rfl

/-- One step of the post-order walk: the walks below the children, then the node. -/
theorem collectPostOrder_succ (fuel i : Nat) : s.collectPostOrder (fuel + 1) i =
    (s.node? i).bind fun n => (n.left.elim (some []) (s.collectPostOrder fuel)).bind fun l =>
      (n.right.elim (some []) (s.collectPostOrder fuel)).bind fun r => some (l ++ r ++ [i]) := by
  simp only [collectPostOrder, Option.bind_eq_bind]
  cases s.node? i with
  | none => rfl
  | some n =>
    simp only [Option.bind_some]
    cases n.left <;> cases n.right <;> rfl

/-- The in-order walk from the root of a stored subtree reaches its numbers in order, within as
many levels as the subtree is high. -/
theorem Shapes.collectInOrder : ∀ {c : Splay.Tree α} {path : List (Frame α)} {fuel : Nat},
    s.Shapes (plug path c) → c.height ≤ fuel →
      c.rootId.elim (some []) (s.collectInOrder fuel) = some c.ids
  | .leaf, _, _, _, _ => rfl
  | .node l e r, path, fuel, hs, hfuel => by
    obtain ⟨fuel, rfl⟩ : ∃ f, fuel = f + 1 := ⟨fuel - 1, by simp only [Splay.Tree.height] at hfuel; omega⟩
    have hsl : s.Shapes (plug (⟨.left, e, r⟩ :: path) l) := hs
    have hsr : s.Shapes (plug (⟨.right, e, l⟩ :: path) r) := hs
    simp only [Splay.Tree.height] at hfuel
    simp only [Splay.Tree.rootId_node, Option.elim_some, collectInOrder_succ, hs.node?_top,
      Option.bind_some, Shapes.collectInOrder hsl (by omega : l.height ≤ fuel),
      Shapes.collectInOrder hsr (by omega : r.height ≤ fuel), Splay.Tree.ids_node]

/-- The post-order walk from the root of a stored subtree reaches its numbers children first. -/
theorem Shapes.collectPostOrder : ∀ {c : Splay.Tree α} {path : List (Frame α)} {fuel : Nat},
    s.Shapes (plug path c) → c.height ≤ fuel →
      c.rootId.elim (some []) (s.collectPostOrder fuel) = some (c.postOrder.map (·.id))
  | .leaf, _, _, _, _ => rfl
  | .node l e r, path, fuel, hs, hfuel => by
    obtain ⟨fuel, rfl⟩ : ∃ f, fuel = f + 1 := ⟨fuel - 1, by simp only [Splay.Tree.height] at hfuel; omega⟩
    have hsl : s.Shapes (plug (⟨.left, e, r⟩ :: path) l) := hs
    have hsr : s.Shapes (plug (⟨.right, e, l⟩ :: path) r) := hs
    simp only [Splay.Tree.height] at hfuel
    simp only [Splay.Tree.rootId_node, Option.elim_some, collectPostOrder_succ, hs.node?_top,
      Option.bind_some, Shapes.collectPostOrder hsl (by omega : l.height ≤ fuel),
      Shapes.collectPostOrder hsr (by omega : r.height ≤ fuel), Splay.Tree.postOrder_node,
      List.map_append, List.map_cons, List.map_nil]

/-! ## Taking the nodes out -/

/-- Taking out, one after another, nodes that are all still in their slots gives the key and
value of each, in the order taken. -/
theorem takeAll_map : ∀ (es : List (Entry α)) (slots : Array (Option (Node α))),
    (es.map (·.id)).Nodup →
    (∀ x ∈ es, ∃ n, slots[x.id]? = some (some n) ∧ n.key = x.key ∧ n.value = x.value) →
      takeAll (es.map (·.id)) slots = some (es.map fun x => (x.key, x.value))
  | [], _, _, _ => rfl
  | x :: es, slots, hnd, hin => by
    obtain ⟨n, hn, hkey, hvalue⟩ := hin x List.mem_cons_self
    have hnd' : x.id ∉ es.map (·.id) ∧ (es.map (·.id)).Nodup := by simpa using hnd
    -- the slot taken is not one of those still to take
    have hrest : ∀ y ∈ es, ∃ m, (slots.modify x.id fun _ => none)[y.id]? = some (some m) ∧
        m.key = y.key ∧ m.value = y.value := by
      intro y hy
      have hne : x.id ≠ y.id := fun h => hnd'.1 (by rw [h]; exact List.mem_map_of_mem hy)
      rw [Array.getElem?_modify, if_neg hne]
      exact hin y (List.mem_cons_of_mem _ hy)
    simp only [List.map_cons, takeAll, hn, Option.bind_eq_bind, Option.bind_some,
      takeAll_map es _ hnd'.2 hrest, hkey, hvalue]
    rfl

/-! ## Attaching a new node -/

theorem node?_push (n : Node α) (j : Nat) :
    ({ s with nodes := s.nodes.push n } : SplayNodes α).node? j =
      if j = s.nodes.size then some n else s.node? j := by
  simp [node?, Array.getElem?_push]

/-- The vector's size numbers no node of the tree it stores. -/
theorem Shapes.size_not_mem {t : Splay.Tree α} (hs : s.Shapes t) : s.nodes.size ∉ t.ids :=
  fun h => Nat.lt_irrefl _ (hs.lt_size h)

/-- The tree with a new leaf, numbered by the vector's size, where a stored tree has the leaf that
`P` ends at, has distinct numbers. -/
theorem Shapes.nodup_plug_leaf {P : List (Frame α)} (hs : s.Shapes (plug P .leaf)) (k : Key) (v : α) :
    (plug P (.node .leaf ⟨s.nodes.size, k, v⟩ .leaf)).ids.Nodup := by
  refine (ids_plug_perm P _).nodup_iff.mpr ?_
  simpa [hs.size_not_mem] using hs.nodup

/-- After pushing a new node numbered by the vector's size, naming as its parent the node above
the leaf that `P` ends at, every node but that parent is the one the tree with the new leaf there
gives it. -/
theorem Shapes.node?_push_leaf {P : List (Frame α)} (hs : s.Shapes (plug P .leaf)) (k : Key) (v : α)
    {j : Nat} (hj : parentId P ≠ some j) :
    ({ s with nodes := s.nodes.push ⟨k, none, none, parentId P, v⟩ } : SplayNodes α).node? j =
      (plug P (.node .leaf ⟨s.nodes.size, k, v⟩ .leaf)).nodeAt none j := by
  have hnd := hs.nodup_plug_leaf k v
  rw [node?_push]
  split
  · next hjs =>
    subst hjs
    rw [nodeAt_plug_of_mem hnd (by simp), Splay.Tree.nodeAt_root]
    rfl
  · next hjs =>
    rw [hs.stores]
    refine (nodeAt_plug_of_not_mem hs.nodup hnd (by simp) (by simpa using hjs) (.inr ?_)).symm
    intro g hg hgj
    cases P with
    | nil => cases hg
    | cons h rest =>
      cases hg
      exact hj (by simp [hgj])

/-- Linking the pushed node below the node above the leaf that `h :: rest` ends at, on the side
its key points to, which is the frame's side, stores the tree with the new leaf there. -/
theorem Shapes.link_leaf {h : Frame α} {rest : List (Frame α)} (hs : s.Shapes (plug (h :: rest) .leaf))
    (k : Key) (v : α) (hside : h.side = if k < h.entry.key then .left else .right) :
    ∃ s₂, ({ s with nodes := s.nodes.push ⟨k, none, none, some h.entry.id, v⟩ } :
        SplayNodes α).modifyNode h.entry.id (fun n => if k < n.key then
          { n with left := some s.nodes.size } else { n with right := some s.nodes.size }) = some s₂ ∧
      s₂.Shapes (plug (h :: rest) (.node .leaf ⟨s.nodes.size, k, v⟩ .leaf)) := by
  have hnd := hs.nodup_plug_leaf k v
  have hp := hs.node?_frame
  have hps : h.entry.id ≠ s.nodes.size := fun he =>
    hs.size_not_mem (he ▸ mem_plug_of_parentId (c := .leaf) (parentId_cons h rest))
  obtain ⟨s₂, hmod⟩ := modifyNode_eq_some
    (s := { s with nodes := s.nodes.push (⟨k, none, none, some h.entry.id, v⟩ : Node α) })
    (fun n => if k < n.key then { n with left := some s.nodes.size }
      else { n with right := some s.nodes.size })
    (i := h.entry.id) (by rw [node?_push, if_neg hps, hp]; rfl)
  have hw := writes_modifyNode hmod
  refine ⟨s₂, hmod, hnd, fun j => ?_⟩
  rw [hw.node?]
  by_cases hj : h.entry.id = j
  · -- the parent: it names the new node on the frame's side
    subst hj
    rw [node?_push, if_neg hps, hp, Option.map_some, plug,
      nodeAt_plug_of_mem (c := h.attach _) hnd (Frame.mem_ids_attach.mpr (.inr (.inl rfl))),
      Frame.nodeAt_attach_self]
    simp only [writeAt, if_true, Splay.Tree.rootId_leaf, Splay.Tree.rootId_node]
    exact congrArg some (Frame.link_stored _ _ hside)
  · have hid : writeAt (some h.entry.id) (fun n : Node α => if k < n.key then
        { n with left := some s.nodes.size } else { n with right := some s.nodes.size }) j = id :=
      funext fun n => by simp [writeAt, hj]
    rw [hid, Option.map_id, id_eq]
    exact hs.node?_push_leaf k v (by simpa using hj)

/-- Attaching a node of key `k` and value `v` to a vector that stores a tree, with the root
number of the tree: the node is numbered by the vector's size, linked below the parent that the
insertion's descent ends at, and splayed to the root, so the vector stores the tree that splaying
the new leaf along that descent gives. -/
theorem Shapes.attach {t : Splay.Tree α} (hs : s.Shapes t) (hroot : s.root = t.rootId) (k : Key) (v : α) :
    ∃ s', s.attach k v = some (s.nodes.size, s') ∧ s'.root = some s.nodes.size ∧
      s'.Shapes (splayUp (.node .leaf ⟨s.nodes.size, k, v⟩ .leaf) (t.leafPath k [])) := by
  obtain ⟨P, hP⟩ : ∃ P, t.leafPath k [] = P := ⟨_, rfl⟩
  rw [hP]
  have hsP : s.Shapes (plug P .leaf) := (hP ▸ Splay.Tree.plug_leafPath k t []) ▸ hs
  have hside : ∀ f ∈ P, f.side = if k < f.entry.key then .left else .right := fun f hf =>
    (Splay.Tree.side_of_mem_leafPath k t [] f (hP ▸ hf)).resolve_left List.not_mem_nil
  have hparent : s.leafParent k s.nodes.size none s.root = some (parentId P) := by
    rw [hroot, ← hP]
    have hs₀ : s.Shapes (plug [] t) := hs
    exact hs₀.leafParent k (hs.size_tree ▸ Nat.le_refl _)
  cases P with
  | nil =>
    -- an empty tree: the new node is the root
    have hs₂ : Shapes { s with nodes := s.nodes.push ⟨k, none, none, none, v⟩, root := some s.nodes.size }
        (plug [] (.node .leaf ⟨s.nodes.size, k, v⟩ .leaf)) :=
      ⟨hsP.nodup_plug_leaf k v, fun j => hsP.node?_push_leaf k v (by simp)⟩
    obtain ⟨s', hsplay, hroot', hs'⟩ := hs₂.splay
    dsimp only at hsplay hroot'
    refine ⟨s', ?_, hroot', hs'⟩
    simp only [SplayNodes.attach, hparent, parentId_nil, Option.bind_eq_bind, Option.bind_some,
      Option.pure_def, hsplay]
  | cons h rest =>
    obtain ⟨s₂, hmod, hs₂⟩ := hsP.link_leaf k v (hside h List.mem_cons_self)
    obtain ⟨s', hsplay, hroot', hs'⟩ := hs₂.splay
    dsimp only at hsplay hroot'
    refine ⟨s', ?_, hroot', hs'⟩
    simp only [SplayNodes.attach, hparent, parentId_cons, Option.bind_eq_bind, Option.bind_some,
      Option.pure_def, hmod, hsplay]

end Lexicon.SplayNodes
