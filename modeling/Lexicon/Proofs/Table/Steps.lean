import Mathlib.Data.List.Nodup
import Lexicon.Table.Basic
import Lexicon.Proofs.Splay.Order
import Lexicon.Proofs.Arena.Trial

/-!
# What one table operation does

Each operation of a symbol table is taken apart once here, so that the proofs about tables never
unfold it again.

* `Tree.find?_eq_some_iff`: in a tree with distinct numbers, the node of a number is the entry
  with that number.
* `Bucket.find_eq_none_iff`, `Bucket.find_eq_some`: a bucket scan misses exactly the names that no
  symbol of the bucket reads as, and a hit reads as the name.
* `Table.get_eq_ok`: a lookup that succeeds made a trial copy, then found the name, appended it to
  its key's bucket, or inserted a node for its key.
* `Table.find_eq_ok`: a search that succeeds made a trial copy, gave it back, and answers from the
  bucket of the key's node.
-/

namespace Lexicon

namespace Splay.Tree

variable {α : Type}

theorem find?_eq_none_iff {id : Nat} :
    ∀ {t : Tree α}, t.find? id = none ↔ ∀ e ∈ t.toList, e.id ≠ id
  | .leaf => by simp [find?]
  | .node l e r => by
    simp only [find?, toList_node, List.mem_append, List.mem_cons]
    split
    · next he => simpa using ⟨e, .inr (.inl rfl), he⟩
    · next he =>
      rw [Option.or_eq_none_iff, find?_eq_none_iff, find?_eq_none_iff]
      constructor
      · rintro ⟨hl, hr⟩ x (hx | rfl | hx)
        · exact hl x hx
        · exact he
        · exact hr x hx
      · exact fun h => ⟨fun x hx => h x (.inl hx), fun x hx => h x (.inr (.inr hx))⟩

theorem find?_eq_some {id : Nat} :
    ∀ {t : Tree α} {e : Entry α}, t.find? id = some e → e ∈ t.toList ∧ e.id = id
  | .leaf, _, h => by simp [find?] at h
  | .node l e' r, e, h => by
    simp only [find?] at h
    split at h
    · next he =>
      cases h
      exact ⟨by simp, he⟩
    · rcases Option.or_eq_some_iff.mp h with hl | ⟨-, hr⟩
      · obtain ⟨hm, hid⟩ := find?_eq_some hl
        exact ⟨by simp [hm], hid⟩
      · obtain ⟨hm, hid⟩ := find?_eq_some hr
        exact ⟨by simp [hm], hid⟩

/-- In a tree with distinct numbers, the node found by number is the entry with that number. -/
theorem find?_eq_some_iff {t : Tree α} {id : Nat} {e : Entry α}
    (hnd : (t.toList.map (·.id)).Nodup) : t.find? id = some e ↔ e ∈ t.toList ∧ e.id = id := by
  refine ⟨find?_eq_some, fun ⟨he, hid⟩ => ?_⟩
  cases hf : t.find? id with
  | none => exact absurd hid ((find?_eq_none_iff.mp hf) e he)
  | some e' =>
    obtain ⟨he', hid'⟩ := find?_eq_some hf
    rw [List.inj_on_of_nodup_map hnd he' he (hid'.trans hid.symm)]

end Splay.Tree

namespace Bucket

/-- A scan for `c` misses exactly when no symbol of the bucket reads as `c`. -/
theorem find_eq_none_iff {b : Bucket} {a : Arena} {c : String} :
    b.find a c = none ↔ ∀ s ∈ b.symbols, a.resolve? s.name ≠ some c := by
  simp [find, Array.findIdx?_eq_none_iff]

/-- A scan for `c` that hits names a slot whose symbol reads as `c`. -/
theorem find_eq_some {b : Bucket} {a : Arena} {c : String} {i : Nat} (h : b.find a c = some i) :
    ∃ s, b.get? i = some s ∧ a.resolve? s.name = some c := by
  obtain ⟨hi, hs, -⟩ := Array.findIdx?_eq_some_iff_getElem.mp h
  exact ⟨b.symbols[i], by simp [get?], by simpa using hs⟩

end Bucket

namespace Table

variable {t t' : Table} {sh : Shared} {n : String} {a' : Arena}

/-- Giving back a trial copy just made keeps every string that was there before it: the reclaim
of the copy succeeds. -/
theorem keeps_giveBack {a a₁ : Arena} {trial : Arena.Handle} [Allocator]
    (hok : a.allocLower n = .ok (trial, a₁)) : a.Keeps (giveBack a₁ trial) := by
  obtain ⟨a₂, hre, hkeeps⟩ := Arena.reclaimTail_allocLower_keeps hok
  simpa [giveBack, hre] using hkeeps

section Lookups

variable [Allocator]

/-- A lookup that succeeds found the arena free and made a lowercase trial copy of the name. Then
either the name was in the bucket of its key's node, and the copy was given back; or the key's
node lacked it, and a symbol holding the copy was appended to that bucket; or no node had the
key, and a node for it was inserted whose bucket holds the new symbol in slot 0. -/
theorem get_eq_ok {id : SymbolId} (h : t.get sh n = .ok (id, t', a')) :
    sh.held = false ∧ ∃ trial a₁, sh.arena.allocLower n = .ok (trial, a₁) ∧
      ((∃ tree, t.tree.search (t.hasher.hash (canonical n)) = some (id.node, tree) ∧
          ((tree.value? id.node).getD .empty).find a₁ (canonical n) = some id.slot ∧
          t' = { t with tree } ∧ a' = giveBack a₁ trial) ∨
        (∃ tree b, t.tree.search (t.hasher.hash (canonical n)) = some (id.node, tree) ∧
          ((tree.value? id.node).getD .empty).find a₁ (canonical n) = none ∧
          ((tree.value? id.node).getD .empty).push (.ofHandle trial) = .ok (id.slot, b) ∧
          t' = { t with tree := tree.modify id.node fun _ => b, symbols := t.symbols + 1 } ∧
          a' = a₁) ∨
        (∃ tree, t.tree.search (t.hasher.hash (canonical n)) = none ∧
          t.tree.insert (t.hasher.hash (canonical n)) (.single (.ofHandle trial)) =
            .ok (id.node, tree) ∧
          id.slot = 0 ∧ t' = { t with tree, symbols := t.symbols + 1 } ∧ a' = a₁)) := by
  unfold get at h
  split at h
  · cases h
  · next hheld =>
    refine ⟨by simpa using hheld, ?_⟩
    obtain ⟨⟨trial, a₁⟩, halloc, h⟩ := except_bind_eq_ok.mp h
    refine ⟨trial, a₁, halloc, ?_⟩
    dsimp only at h
    split at h
    · next node tree hs =>
      split at h
      · next slot hf =>
        simp only [pure, Except.pure, Except.ok.injEq, Prod.mk.injEq] at h
        obtain ⟨rfl, rfl, rfl⟩ := h
        exact .inl ⟨tree, hs, hf, rfl, rfl⟩
      · next hf =>
        obtain ⟨⟨slot, b⟩, hp, h⟩ := except_bind_eq_ok.mp h
        simp only [pure, Except.pure, Except.ok.injEq, Prod.mk.injEq] at h
        obtain ⟨rfl, rfl, rfl⟩ := h
        exact .inr (.inl ⟨tree, b, hs, hf, hp, rfl, rfl⟩)
    · next hs =>
      obtain ⟨⟨node, tree⟩, hi, h⟩ := except_bind_eq_ok.mp h
      simp only [pure, Except.pure, Except.ok.injEq, Prod.mk.injEq] at h
      obtain ⟨rfl, rfl, rfl⟩ := h
      exact .inr (.inr ⟨tree, hs, hi, rfl, rfl, rfl⟩)

/-- A search that succeeds found the arena free, made a lowercase trial copy of the name and gave
it back. If a node has the name's key, the node is splayed up and the answer is the slot of the
name in its bucket, if any; otherwise the table is unchanged and the answer is none. -/
theorem find_eq_ok {r : Option SymbolId} (h : t.find sh n = .ok (r, t', a')) :
    sh.held = false ∧ ∃ trial a₁, sh.arena.allocLower n = .ok (trial, a₁) ∧
      a' = giveBack a₁ trial ∧
      ((∃ node tree, t.tree.search (t.hasher.hash (canonical n)) = some (node, tree) ∧
          t' = { t with tree } ∧
          r = ((tree.value? node).bind (·.find a₁ (canonical n))).map (⟨node, ·⟩)) ∨
        (t.tree.search (t.hasher.hash (canonical n)) = none ∧ t' = t ∧ r = none)) := by
  unfold find at h
  split at h
  · cases h
  · next hheld =>
    refine ⟨by simpa using hheld, ?_⟩
    obtain ⟨⟨trial, a₁⟩, halloc, h⟩ := except_bind_eq_ok.mp h
    refine ⟨trial, a₁, halloc, ?_⟩
    dsimp only at h
    split at h
    · next node tree hs =>
      simp only [pure, Except.pure, Except.ok.injEq, Prod.mk.injEq] at h
      obtain ⟨rfl, rfl, rfl⟩ := h
      exact ⟨rfl, .inl ⟨node, tree, hs, rfl, rfl⟩⟩
    · next hs =>
      simp only [pure, Except.pure, Except.ok.injEq, Prod.mk.injEq] at h
      obtain ⟨rfl, rfl, rfl⟩ := h
      exact ⟨rfl, .inr ⟨hs, rfl, rfl⟩⟩

end Lookups

end Table

end Lexicon
