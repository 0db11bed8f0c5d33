import Lexicon.Text.Ranges

/-!
# Blank characters

The characters with the Unicode property `White_Space`: the ASCII tab, line feed, vertical tab,
form feed, carriage return and space, next line (U+0085), no-break space, the Ogham space mark,
the spaces U+2000 to U+200A, the line and paragraph separators, the narrow no-break space, the
medium mathematical space and the ideographic space.

* `isBlank`: membership in the table.
-/

namespace Lexicon.Text

/-- Code points with the Unicode property `White_Space`, in sorted disjoint ranges. -/
def blank : CharClass := CharClass.ofPairs #[
  (0x9, 0xD), (0x20, 0x20), (0x85, 0x85), (0xA0, 0xA0), (0x1680, 0x1680), (0x2000, 0x200A),
  (0x2028, 0x2029), (0x202F, 0x202F), (0x205F, 0x205F), (0x3000, 0x3000)]

/-- A character is blank when Unicode gives it the property `White_Space`. -/
def isBlank (c : Char) : Bool := blank.contains c

end Lexicon.Text
