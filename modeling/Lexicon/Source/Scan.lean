import Lexicon.Source.Keyword
import Lexicon.Text.Blank

/-!
# Scanning a source text

The scanner walks a source text from the left and reports identifiers and declaration keywords;
comments, string and number literals, punctuation, blanks and other keywords are skipped.

* A `;` comment runs up to the end of its line.
* A string literal must close on its own line; one that does not is reported, and nothing after
  it is scanned.
* A number is ASCII digits, then optionally `.` and more digits. A `.` directly followed by a
  digit also starts a number.
* A word is a run of alphanumerics and underscores; it goes through `classify`.
* A blank or a punctuation character is skipped; any other character is reported as illegal and
  scanning goes on after it.

Each step consumes at least one character (`Step.rest_length_le`), which is how the scan ends.

* `Source.scan`: the lexemes and errors of a text, in order.
-/

namespace Lexicon.Source

/-- Where the scanner stands: the line, the characters read on it, and whether the last word was
`End`. -/
structure Cursor where
  line : Nat := 1
  column : Nat := 0
  afterEnd : Bool := false
  deriving Repr, DecidableEq

namespace Cursor

/-- Moves past `n` characters of the current line. -/
def skip (cur : Cursor) (n : Nat) : Cursor := { cur with column := cur.column + n }

/-- Moves past one character; a line feed starts the next line. -/
def bump (cur : Cursor) (c : Char) : Cursor :=
  if c = '\n' then { cur with line := cur.line + 1, column := 0 } else cur.skip 1

end Cursor

/-- What one step of the scanner reports. -/
abbrev Item := Except ScanError Lexeme

/-- The outcome of one step: what it reports, the input left, the cursor after it, and whether
the scan stops. -/
structure Step where
  item : Option Item
  rest : List Char
  cursor : Cursor
  stop : Bool

/-- Characters inside a string literal. -/
def inString (c : Char) : Bool := c != '"' && c != '\n'

/-- One step of the scanner on the input `c :: rest`. -/
def step (c : Char) (rest : List Char) (cur : Cursor) : Step :=
  if c = ';' then
    ⟨none, rest.dropWhile (· != '\n'), cur.skip ((rest.takeWhile (· != '\n')).length + 1), false⟩
  else if c = '"' then
    let after := rest.dropWhile inString
    if after.head? = some '"' then
      ⟨none, after.tail, cur.skip ((rest.takeWhile inString).length + 2), false⟩
    else ⟨some (.error (.unterminatedString cur.line)), [], cur, true⟩
  else if c = '.' && rest.head?.any Char.isDigit then
    ⟨none, rest.dropWhile Char.isDigit, cur.skip ((rest.takeWhile Char.isDigit).length + 1), false⟩
  else if c.isDigit then
    let after := rest.dropWhile Char.isDigit
    let n := (rest.takeWhile Char.isDigit).length + 1
    if after.head? = some '.' then
      ⟨none, after.tail.dropWhile Char.isDigit,
        cur.skip (n + 1 + (after.tail.takeWhile Char.isDigit).length), false⟩
    else ⟨none, after, cur.skip n, false⟩
  else if isWordChar c then
    let text := c :: rest.takeWhile isWordChar
    let (word, afterEnd) := classify cur.afterEnd (String.ofList text)
    ⟨word.map fun w => .ok ⟨w, cur.line⟩, rest.dropWhile isWordChar,
      { cur.skip text.length with afterEnd }, false⟩
  else if Text.isBlank c || punctuation.contains c then ⟨none, rest, cur.bump c, false⟩
  else ⟨some (.error (.illegalCharacter c cur.line (cur.column + 1))), rest, cur.bump c, false⟩

private theorem length_dropWhile_le (p : Char → Bool) (l : List Char) :
    (l.dropWhile p).length ≤ l.length :=
  (List.dropWhile_suffix p).length_le

/-- A step never leaves more input than it was given after its first character. -/
theorem Step.rest_length_le (c : Char) (rest : List Char) (cur : Cursor) :
    (step c rest cur).rest.length ≤ rest.length := by
  unfold step
  dsimp only
  have hd := length_dropWhile_le Char.isDigit rest
  have hs := length_dropWhile_le inString rest
  have hc := length_dropWhile_le (· != '\n') rest
  have hw := length_dropWhile_le isWordChar rest
  have ht := length_dropWhile_le Char.isDigit (rest.dropWhile Char.isDigit).tail
  repeat' split
  all_goals simp only [List.length_tail, List.length_nil] at *
  all_goals omega

/-- The items of the input `cs` from cursor `cur` on. -/
def scanChars : List Char → Cursor → List Item
  | [], _ => []
  | c :: rest, cur =>
    let s := step c rest cur
    s.item.toList ++ if s.stop then [] else scanChars s.rest s.cursor
termination_by cs => cs.length
decreasing_by
  have := Step.rest_length_le c rest cur
  simp only [List.length_cons]
  omega

/-- The lexemes and errors of a source text, in order. -/
def scan (source : String) : List Item := scanChars source.toList {}

end Lexicon.Source
