import Lexicon.Proofs.Splay.Order

/-!
# The node an access touches ends at the root

Every access of a splay tree that finds or makes a node splays that node to the root. On a
reachable tree, whose keys never decrease in order even where they repeat, a search is also
complete: it hits exactly the keys that some node has. A search that misses returns no tree at
all, so the caller keeps the tree it had, shape, root and values alike.

A lookup-or-insert creates a node exactly when no node had the key; only then does it call the
function that makes the new value, and the new node holds that value. When it hits, the answer
does not depend on that function at all.

* `SplayTree.root_of_root?`, `Tree.find?_root?`: the root node by its number.
* `SplayTree.getOrInsert_root`, `getOrInsert_ok`, `getOrInsert_created`, `getOrInsert_found`:
  the node a lookup-or-insert returns, when it succeeds, and what it made.
* `SplayTree.AccessEndsAtRoot`, `SplayTree.reachable_accessEndsAtRoot`: the laws of every access
  on every reachable tree.
-/

namespace Lexicon

namespace Splay.Tree

variable {α : Type}

/-- The root is found first by its own number. -/
theorem find?_root? {t : Tree α} {e : Entry α} (h : t.root? = some e) : t.find? e.id = some e := by
  cases t with
  | leaf => cases h
  | node l e' r =>
    cases h
    simp [find?]

end Splay.Tree

namespace SplayTree

open Splay

variable {α : Type} {t t' : SplayTree α} {k : Key} {id : Nat} {make : Unit → α}

/-- The number and the key of the root node. -/
theorem root_of_root? {e : Entry α} (h : t.root.root? = some e) :
    t.rootId? = some e.id ∧ t.rootKey? = some e.key := by
  simp [rootId?, rootKey?, h]

/-- A search that hits leaves the node it returns, of the key searched for, at the root. -/
theorem search_at_root (h : t.search k = some (id, t')) :
    t'.rootId? = some id ∧ t'.rootKey? = some k := by
  obtain ⟨e, hroot, rfl, rfl⟩ := search_root t k h
  exact root_of_root? hroot

/-- In a key-sorted tree a search hits exactly the keys that some node has. -/
theorem search_hit_iff (hs : t.entries.Pairwise (·.key ≤ ·.key)) (k : Key) :
    (∃ id t', t.search k = some (id, t')) ↔ ∃ e ∈ t.entries, e.key = k := by
  have hnone := search_eq_none_iff hs k
  constructor
  · rintro ⟨id, t', hhit⟩
    -- a hit is no miss, so not every node avoids the key
    have hnot : ¬ ∀ e ∈ t.entries, e.key ≠ k := fun hall => by
      rw [← hnone] at hall
      rw [hall] at hhit
      cases hhit
    simpa using hnot
  · rintro ⟨e, he, hkey⟩
    cases hsk : t.search k with
    | none => exact absurd hkey ((hnone.mp hsk) e he)
    | some r => exact ⟨r.1, r.2, rfl⟩

section Inserting

variable [Allocator]

/-- An insertion leaves the new node, of the key inserted, at the root. -/
theorem insert_at_root {v : α} (h : t.insert k v = .ok (id, t')) :
    t'.rootId? = some id ∧ t'.rootKey? = some k :=
  root_of_root? (insert_root h)

/-- A lookup-or-insert leaves the node it returns, of the key looked up, at the root. -/
theorem getOrInsert_root {b : Bool} (h : t.getOrInsert k make = .ok (id, b, t')) :
    t'.rootId? = some id ∧ t'.rootKey? = some k := by
  rcases getOrInsert_eq_ok.mp h with ⟨-, hs⟩ | ⟨-, -, hi⟩
  · exact search_at_root hs
  · exact insert_at_root hi

/-- A lookup-or-insert succeeds whenever a new node's number would fit a 32-bit field and the
allocator grants room for it. -/
theorem getOrInsert_ok (make : Unit → α) (h : t.size ≤ fieldMax)
    (hg : Allocator.grantsNodes (t.size + 1) = true) :
    ∃ id b t', t.getOrInsert k make = .ok (id, b, t') := by
  cases hs : t.search k with
  | some r => exact ⟨r.1, false, r.2, getOrInsert_eq_ok.mpr (.inl ⟨rfl, hs⟩)⟩
  | none =>
    obtain ⟨t', hi⟩ := insert_ok (make ()) h hg
    exact ⟨t.size, true, t', getOrInsert_eq_ok.mpr (.inr ⟨rfl, hs, hi⟩)⟩

/-- In a key-sorted tree a lookup-or-insert creates a node exactly when no node has the key. -/
theorem getOrInsert_creates_iff (hs : t.entries.Pairwise (·.key ≤ ·.key)) {b : Bool}
    (h : t.getOrInsert k make = .ok (id, b, t')) : b = true ↔ ∀ e ∈ t.entries, e.key ≠ k := by
  rw [← search_eq_none_iff hs]
  rcases getOrInsert_eq_ok.mp h with ⟨rfl, hhit⟩ | ⟨rfl, hmiss, -⟩
  · simp [hhit]
  · simp [hmiss]

/-- A lookup-or-insert that creates adds one node, which holds the value that `make` made. -/
theorem getOrInsert_created (h : t.getOrInsert k make = .ok (id, true, t')) :
    t'.size = t.size + 1 ∧ t'.value? id = some (make ()) := by
  obtain ⟨-, -, hi⟩ := (getOrInsert_eq_ok.mp h).resolve_left (by simp)
  obtain ⟨-, -, -, rfl⟩ := insert_eq_ok.mp hi
  refine ⟨rfl, ?_⟩
  simp [value?, Tree.find?_root? (insert_root hi)]

/-- A lookup-or-insert that hits adds no node, and gives the same answer whatever makes the value
it did not need. -/
theorem getOrInsert_found (h : t.getOrInsert k make = .ok (id, false, t')) :
    t'.size = t.size ∧ ∀ make' : Unit → α, t.getOrInsert k make' = .ok (id, false, t') := by
  obtain ⟨-, hs⟩ := (getOrInsert_eq_ok.mp h).resolve_right (by simp)
  exact ⟨(search_entries hs).2, fun _ => getOrInsert_eq_ok.mpr (.inl ⟨rfl, hs⟩)⟩

/-- The laws of the node an access touches. A search hits exactly the keys that some node has,
and returns a node of the key, which is the root afterwards; a search that misses returns no
tree, so nothing changes. An insertion succeeds whenever the new node's number fits and the
allocator grants room for it, and a lookup-or-insert too; both return a node of the key, which
is the root afterwards. A lookup-or-insert creates a node, holding the value `make` made, exactly when no node had the
key; when it hits it adds no node and does not depend on `make`. -/
structure AccessEndsAtRoot (t : SplayTree α) : Prop where
  search_hit : ∀ k, (∃ id t', t.search k = some (id, t')) ↔ ∃ e ∈ t.entries, e.key = k
  search_root : ∀ k id t', t.search k = some (id, t') →
    t'.rootId? = some id ∧ t'.rootKey? = some k
  insert_ok : ∀ k (v : α), t.size ≤ fieldMax → Allocator.grantsNodes (t.size + 1) = true →
    ∃ t', t.insert k v = .ok (t.size, t')
  insert_root : ∀ k (v : α) id t', t.insert k v = .ok (id, t') →
    t'.rootId? = some id ∧ t'.rootKey? = some k
  getOrInsert_ok : ∀ k (make : Unit → α), t.size ≤ fieldMax →
    Allocator.grantsNodes (t.size + 1) = true → ∃ id b t', t.getOrInsert k make = .ok (id, b, t')
  getOrInsert_root : ∀ k make id b t', t.getOrInsert k make = .ok (id, b, t') →
    t'.rootId? = some id ∧ t'.rootKey? = some k
  creates_iff : ∀ k make id b t', t.getOrInsert k make = .ok (id, b, t') →
    (b = true ↔ ∀ e ∈ t.entries, e.key ≠ k)
  created : ∀ k make id t', t.getOrInsert k make = .ok (id, true, t') →
    t'.size = t.size + 1 ∧ t'.value? id = some (make ())
  found : ∀ k make id t', t.getOrInsert k make = .ok (id, false, t') →
    t'.size = t.size ∧ ∀ make' : Unit → α, t.getOrInsert k make' = .ok (id, false, t')

/-- On every reachable tree, repeated keys included, every access ends with the node it touches
at the root, and a search and a lookup-or-insert hit exactly the keys that some node has. -/
theorem reachable_accessEndsAtRoot (h : t.Reachable) : t.AccessEndsAtRoot := by
  have hs := h.wellFormed.sorted
  exact ⟨search_hit_iff hs, fun _ _ _ => search_at_root,
    fun _ v hk hg => SplayTree.insert_ok v hk hg, fun _ _ _ _ => insert_at_root, fun _ make hk hg => SplayTree.getOrInsert_ok make hk hg,
    fun _ _ _ _ _ => getOrInsert_root, fun _ _ _ _ _ => getOrInsert_creates_iff hs,
    fun _ _ _ _ => getOrInsert_created, fun _ _ _ _ => getOrInsert_found⟩

end Inserting

/-- Keys 5, 3 and 5 again inserted in turn: the second 5 goes right of the first, and two
rotations to the left (a zig-zig) bring it to the root. -/
theorem reachable_accessEndsAtRoot_duplicate :
    letI := Allocator.granting
    (⟨.node (.node (.node .leaf ⟨1, 3, ()⟩ .leaf) ⟨0, 5, ()⟩ .leaf) ⟨2, 5, ()⟩ .leaf, 3⟩ :
      SplayTree Unit).Reachable ∧
    (⟨.node (.node (.node .leaf ⟨1, 3, ()⟩ .leaf) ⟨0, 5, ()⟩ .leaf) ⟨2, 5, ()⟩ .leaf, 3⟩ :
      SplayTree Unit).AccessEndsAtRoot := by
  let _ : Allocator := Allocator.granting
  have h₁ : (empty : SplayTree Unit).insert 5 () = .ok (0, ⟨.node .leaf ⟨0, 5, ()⟩ .leaf, 1⟩) := rfl
  have h₂ : (⟨.node .leaf ⟨0, 5, ()⟩ .leaf, 1⟩ : SplayTree Unit).insert 3 () =
      .ok (1, ⟨.node .leaf ⟨1, 3, ()⟩ (.node .leaf ⟨0, 5, ()⟩ .leaf), 2⟩) := rfl
  have h₃ : (⟨.node .leaf ⟨1, 3, ()⟩ (.node .leaf ⟨0, 5, ()⟩ .leaf), 2⟩ : SplayTree Unit).insert 5 () =
      .ok (2, ⟨.node (.node (.node .leaf ⟨1, 3, ()⟩ .leaf) ⟨0, 5, ()⟩ .leaf) ⟨2, 5, ()⟩ .leaf, 3⟩) :=
    rfl
  have hr := Reachable.insert (Reachable.insert (Reachable.insert .empty h₁) h₂) h₃
  exact ⟨hr, reachable_accessEndsAtRoot hr⟩

end SplayTree

end Lexicon
