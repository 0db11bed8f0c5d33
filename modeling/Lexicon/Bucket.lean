import Lexicon.Symbol

/-!
# Collision buckets

A bucket holds the symbols whose names share one key, in the order they came. It starts with
room for one symbol and doubles its room whenever it is full. Symbols are only ever appended, so
a slot keeps naming the same symbol for the bucket's life.

* `Bucket.push`: append a symbol and give its slot.
* `Bucket.find`: the first slot whose name equals a given name.
-/

namespace Lexicon

/-- Symbols sharing a key, in insertion order, with the room reserved for them. -/
structure Bucket where
  symbols : Array Symbol
  capacity : Nat

namespace Bucket

/-- How much the room grows when the bucket is full. -/
def growthFactor : Nat := 2

/-- An empty bucket with room for one symbol. -/
def empty : Bucket := ⟨#[], 1⟩

/-- A bucket holding `s` in slot 0, in the room it starts with. -/
def single (s : Symbol) : Bucket := ⟨#[s], 1⟩

/-- Number of symbols. -/
def len (b : Bucket) : Nat := b.symbols.size

/-- Whether the bucket holds no symbol. -/
def isEmpty (b : Bucket) : Bool := b.symbols.isEmpty

/-- The symbol in slot `i`. -/
def get? (b : Bucket) (i : Nat) : Option Symbol := b.symbols[i]?

section Growing

variable [Allocator]

/-- Appends `s` and gives its slot, which must fit a 32-bit field; a full bucket first doubles its
room, which the allocator must grant. -/
def push (b : Bucket) (s : Symbol) : Except StoreError (Nat × Bucket) := do
  let slot ← fitField "bucket slots" b.symbols.size
  if b.symbols.size = b.capacity then
    let capacity := b.capacity * growthFactor
    if !Allocator.grantsBucket capacity then throw (.bucketGrowth capacity)
    pure (slot, ⟨b.symbols.push s, capacity⟩)
  else pure (slot, ⟨b.symbols.push s, b.capacity⟩)

/-- A push in one piece: the slot must fit a 32-bit field, and a full bucket must be granted
its doubled room. -/
theorem push_eq (b : Bucket) (s : Symbol) : b.push s =
    if b.symbols.size ≤ fieldMax then
      if b.symbols.size = b.capacity ∧ Allocator.grantsBucket (b.capacity * growthFactor) = false then
        .error (.bucketGrowth (b.capacity * growthFactor))
      else .ok (b.symbols.size,
        ⟨b.symbols.push s, if b.symbols.size = b.capacity then b.capacity * growthFactor else b.capacity⟩)
    else .error (.capacityOverflow "bucket slots" b.symbols.size) := by
  unfold push fitField
  split
  · simp only [bind, Except.bind]
    split
    · next hfull =>
      cases Allocator.grantsBucket (b.capacity * growthFactor)
      · simp [hfull]
        rfl
      · simp [hfull]
        rfl
    · next hfull =>
      simp [hfull]
      rfl
  · rfl

/-- A push gives the next slot and appends the symbol. -/
theorem push_slot (b : Bucket) (s : Symbol) {slot : Nat} {b' : Bucket}
    (h : b.push s = .ok (slot, b')) : slot = b.len ∧ b'.symbols = b.symbols.push s := by
  rw [push_eq] at h
  split at h
  · split at h
    · cases h
    · cases h
      exact ⟨rfl, rfl⟩
  · cases h

/-- After a push the new slot holds the symbol pushed, and every older slot is unchanged. -/
theorem get?_push (b : Bucket) (s : Symbol) {slot : Nat} {b' : Bucket}
    (h : b.push s = .ok (slot, b')) (i : Nat) :
    b'.get? i = if i = b.len then some s else b.get? i := by
  obtain ⟨-, hs⟩ := push_slot b s h
  simp only [get?, hs, len, Array.getElem?_push]
  by_cases hi : i = b.symbols.size
  · simp [hi]
  · simp [hi]

end Growing

/-- Applies `f` to the symbol in slot `i`. -/
def modify (b : Bucket) (i : Nat) (f : Symbol → Symbol) : Bucket :=
  { b with symbols := b.symbols.modify i f }

/-- The first slot whose name, read from the arena, equals `name`. -/
def find (b : Bucket) (a : Arena) (name : String) : Option Nat :=
  b.symbols.findIdx? fun s => a.resolve? s.name == some name

end Bucket

end Lexicon
