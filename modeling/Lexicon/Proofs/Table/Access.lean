import Mathlib
import Lexicon.Proofs.Splay.Access
import Lexicon.Proofs.Table.Refinement

/-!
# The key a lookup touches is at the root

The tree of a table keeps the key accessed last at its root. A lookup that succeeds ends with the
node of its name's key at the root, whichever way it went: the name was there, the key was there
but its bucket lacked the name and took it, or a node was inserted for the key. A search ends
with its name's key at the root as soon as some bound name has that key, even when that key's
bucket lacks the name searched for; when no bound name has the key, the tree is left alone,
shape and root alike.

* `SplayTree.rootId?_modify`, `rootKey?_modify`: changing a value keeps the root.
* `Table.get_at_root`: the node a lookup returns is the root, with its name's key.
* `Table.find_tree`: the tree after a search.
* `Table.LookupAtRoot`, `Table.reachable_lookupAtRoot`: the laws, and that they hold in every
  reachable state.
-/

namespace Lexicon

namespace Splay.Tree

variable {α : Type}

/-- Changing a value keeps the number and the key of the root. -/
theorem root?_modify (id : Nat) (f : α → α) :
    ∀ t : Tree α, (t.modify id f).root?.map (fun e => (e.id, e.key)) =
      t.root?.map (fun e => (e.id, e.key))
  | .leaf => rfl
  | .node l e r => by
    simp only [modify]
    split <;> rfl

end Splay.Tree

namespace SplayTree

open Splay

variable {α : Type}

@[simp] theorem rootId?_modify (t : SplayTree α) (id : Nat) (f : α → α) :
    (t.modify id f).rootId? = t.rootId? := by
  have := congrArg (Option.map Prod.fst) (Tree.root?_modify id f t.root)
  simpa [rootId?, modify, Option.map_map, Function.comp_def] using this

@[simp] theorem rootKey?_modify (t : SplayTree α) (id : Nat) (f : α → α) :
    (t.modify id f).rootKey? = t.rootKey? := by
  have := congrArg (Option.map Prod.snd) (Tree.root?_modify id f t.root)
  simpa [rootKey?, modify, Option.map_map, Function.comp_def] using this

end SplayTree

namespace Table

open Splay

variable {t t' : Table} {a a' : Arena} {sh : Shared} {n : String}

/-- A bound name has the key exactly when a node has it. -/
theorem WellFormed.exists_binding_key_iff (hw : t.WellFormed a) (key : Key) :
    (∃ x ∈ t.bindings a, t.hasher.hash x.1 = key) ↔ ∃ e ∈ t.tree.entries, e.key = key := by
  have := Finset.ext_iff.mp hw.toFinset_keys key
  simpa only [List.mem_toFinset, List.mem_map] using this

section Lookups

variable [Allocator]

/-- A lookup that succeeds leaves the node it returns at the root, with the key of the name. -/
theorem get_at_root {id : SymbolId} (h : t.get sh n = .ok (id, t', a')) :
    t'.rootKey? = some (t.hasher.hash (canonical n)) ∧ t'.tree.rootId? = some id.node := by
  obtain ⟨-, trial, a₁, -, hit | push | ins⟩ := get_eq_ok h
  · -- the name was in its key's bucket: the search splayed the node up
    obtain ⟨tree, hs, -, rfl, -⟩ := hit
    exact (SplayTree.search_at_root hs).symm
  · -- the key's bucket took the name: changing a value keeps the root the search left
    obtain ⟨tree, b, hs, -, -, rfl, -⟩ := push
    simpa [rootKey?] using (SplayTree.search_at_root hs).symm
  · -- the key was new: the inserted node was splayed up
    obtain ⟨tree, -, hi, -, rfl, -⟩ := ins
    exact (SplayTree.insert_at_root hi).symm

/-- The tree after a search: the searched key's node splayed to the root if there is one, the
tree as it was otherwise. -/
theorem find_tree {r : Option SymbolId} (h : t.find sh n = .ok (r, t', a')) :
    t'.tree = match t.tree.search (t.hasher.hash (canonical n)) with
      | some (_, tree) => tree
      | none => t.tree := by
  obtain ⟨-, -, -, -, -, ⟨node, tree, hs, rfl, -⟩ | ⟨hs, rfl, -⟩⟩ := find_eq_ok h
  · rw [hs]
  · rw [hs]

/-- A search whose name's key some bound name has leaves that key at the root. -/
theorem WellFormed.find_at_root (hw : t.WellFormed a) {held : Bool} {r : Option SymbolId}
    (h : t.find ⟨a, held⟩ n = .ok (r, t', a'))
    (hkey : ∃ x ∈ t.bindings a, t.hasher.hash x.1 = t.hasher.hash (canonical n)) :
    t'.rootKey? = some (t.hasher.hash (canonical n)) := by
  obtain ⟨node, tree, hs⟩ := (SplayTree.search_hit_iff hw.tree.sorted _).mpr
    ((hw.exists_binding_key_iff _).mp hkey)
  have ht := find_tree h
  rw [hs] at ht
  simpa [rootKey?, ht] using (SplayTree.search_at_root hs).2

/-- A search whose name's key no bound name has leaves the tree as it was. -/
theorem WellFormed.find_keeps_tree (hw : t.WellFormed a) {held : Bool} {r : Option SymbolId}
    (h : t.find ⟨a, held⟩ n = .ok (r, t', a'))
    (hkey : ∀ x ∈ t.bindings a, t.hasher.hash x.1 ≠ t.hasher.hash (canonical n)) :
    t'.tree = t.tree := by
  have hnone : t.tree.search (t.hasher.hash (canonical n)) = none := by
    rw [SplayTree.search_eq_none_iff hw.tree.sorted]
    intro e he hek
    obtain ⟨x, hx, hxk⟩ := (hw.exists_binding_key_iff _).mpr ⟨e, he, hek⟩
    exact hkey x hx hxk
  simpa [hnone] using find_tree h

/-- Where a lookup leaves the root of a table whose names live in `a`. A lookup that succeeds
returns a symbol of the node at the root, whose key is that of the name's canonical form. A
search ends with that key at the root whenever some bound name has it, even if no bound name is
the one searched for; otherwise it leaves the tree, shape and root alike, as it was. -/
structure LookupAtRoot (t : Table) (a : Arena) : Prop where
  get : ∀ (held : Bool) n id t' a', t.get ⟨a, held⟩ n = .ok (id, t', a') →
    t'.rootKey? = some (t.hasher.hash (canonical n)) ∧ t'.tree.rootId? = some id.node
  find_key : ∀ (held : Bool) n r t' a', t.find ⟨a, held⟩ n = .ok (r, t', a') →
    (∃ x ∈ t.bindings a, t.hasher.hash x.1 = t.hasher.hash (canonical n)) →
      t'.rootKey? = some (t.hasher.hash (canonical n))
  find_miss : ∀ (held : Bool) n r t' a', t.find ⟨a, held⟩ n = .ok (r, t', a') →
    (∀ x ∈ t.bindings a, t.hasher.hash x.1 ≠ t.hasher.hash (canonical n)) → t'.tree = t.tree

/-- In every state a table reaches, whatever its hasher, a lookup leaves its name's key at the
root, and a search does so whenever some bound name has that key. -/
theorem reachable_lookupAtRoot (h : Reachable t a) : t.LookupAtRoot a := by
  have hw := h.wellFormed
  exact ⟨fun _ _ _ _ _ hg => get_at_root hg, fun _ _ _ _ _ hf => hw.find_at_root hf,
    fun _ _ _ _ _ hf => hw.find_keeps_tree hf⟩

end Lookups

/-- Under a constant hasher every name has the key 7: after a lookup of `a`, a search for any
name, `b` included, lands on that key although its bucket holds `a` alone. -/
theorem reachable_lookupAtRoot_collision :
    let t : Table := ⟨⟨.node .leaf ⟨0, 7, ⟨#[⟨none, ⟨0, 0, 1⟩⟩], 1⟩⟩ .leaf, 1⟩, .constant 7, 1⟩
    let a : Arena := ⟨#[⟨"a".toUTF8, 20000⟩], 100, ⟨20000, 100⟩, some ⟨0, 0, 1⟩, 1⟩
    letI := Allocator.granting
    Reachable t a ∧ t.LookupAtRoot a := by
  let _ : Allocator := Allocator.granting
  intro t a
  have h₁ : (Table.empty (.constant 7)).get ⟨Arena.empty {}, false⟩ "a" = .ok (⟨0, 0⟩, t, a) := by
    cbv
  have hr : Reachable t a := .get (.empty _ _) h₁
  exact ⟨hr, reachable_lookupAtRoot hr⟩

end Table

end Lexicon
