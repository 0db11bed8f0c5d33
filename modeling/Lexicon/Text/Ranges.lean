/-!
# Character classes as ranges of code points

A class of characters is an array of inclusive ranges of code points, sorted and disjoint, so
that membership is a binary search.

* `CharClass.contains`: whether a character lies in one of the ranges.
-/

namespace Lexicon.Text

/-- Characters given by sorted, disjoint, inclusive ranges of code points. -/
structure CharClass where
  ranges : Array (UInt32 × UInt32)

namespace CharClass

/-- The class of the given ranges, each a pair of its first and last code point. -/
def ofPairs (ranges : Array (UInt32 × UInt32)) : CharClass := ⟨ranges⟩

/-- Binary search for code point `c` among the ranges at positions `lo` to `hi - 1`. -/
def containsBetween (k : CharClass) (c : UInt32) (lo hi : Nat) : Bool :=
  if lo < hi then
    match k.ranges[(lo + hi) / 2]? with
    | none => false
    | some (first, last) =>
      if c < first then k.containsBetween c lo ((lo + hi) / 2)
      else if last < c then k.containsBetween c ((lo + hi) / 2 + 1) hi
      else true
  else false
termination_by hi - lo

/-- A character belongs to the class when its code point lies in one of the ranges. -/
def contains (k : CharClass) (ch : Char) : Bool :=
  k.containsBetween ch.val 0 k.ranges.size

end CharClass

end Lexicon.Text
