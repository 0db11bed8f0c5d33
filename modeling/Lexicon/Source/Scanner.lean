import Lexicon.Source.Scan
import Lexicon.Text.Slice

/-!
# The scanner as an iterator over byte offsets

`Source.scan` reads a text as a list of characters. The scanner that it describes works on the
text as stored, in UTF-8: it keeps the byte offset of the next character and of the start of the
current line, reads the character at an offset through a slice of the text, and yields one item
a call. A slice whose ends are not character boundaries in order is a fault, here `none`.

Each turn of the scanning loop decides one token from the character at hand and moves past it;
a turn that goes on moves forward (`Scanner.turn_advances`), which is how the loop ends.

* `Scanner.peek`, `bump`, `eatWhile`, `column`, `stringLiteral`, `number`, `word`: the steps of a
  turn.
* `Scanner.turn`: one turn of the loop.
* `Scanner.next`: turns until one yields an item or the text ends.
* `Scanner.items`: the items of every call until the scanner reports the end.
-/

namespace Lexicon.Source

open Text

/-- The scanner over `text`: the byte offset of the next character, the line it is on, the byte
offset where that line starts, and whether the last word was `End`. -/
structure Scanner (text : String) where
  pos : Nat
  line : Nat
  lineStart : Nat
  afterEnd : Bool

/-- How one turn of the scanning loop ends. -/
inductive Scanner.Turn (text : String) where
  /-- The text is used up: the call reports that there is nothing more. -/
  | finish
  /-- A token was skipped: the loop goes on from the new state. -/
  | loop (st : Scanner text)
  /-- The call returns an item. -/
  | yield (item : Item) (st : Scanner text)

namespace Scanner

variable {text : String}

/-- The scanner at the start of `text`. -/
def new (text : String) : Scanner text := ⟨0, 1, 0, false⟩

/-- The character at the scanner's offset, `some none` at the end of the text. -/
def peek (st : Scanner text) : Option (Option Char) :=
  (slice? text st.pos text.utf8ByteSize).map (·.toList.head?)

/-- Moves past the character `c`; a line feed starts a new line after it. -/
def bump (st : Scanner text) (c : Char) : Scanner text :=
  if c = '\n' then
    { st with pos := st.pos + c.utf8Size, line := st.line + 1, lineStart := st.pos + c.utf8Size }
  else { st with pos := st.pos + c.utf8Size }

/-- A character read at the scanner's offset ends within the text. -/
theorem peek_ends (st : Scanner text) {c : Char} (h : st.peek = some (some c)) :
    st.pos + c.utf8Size ≤ text.utf8ByteSize := by
  obtain ⟨piece, hs, hc⟩ := Option.map_eq_some_iff.1 h
  obtain ⟨t₁, t₂, -, -, hb⟩ := slice?_eq_some_iff.1 hs
  obtain ⟨r, hr⟩ : ∃ r, piece.toList = c :: r := by
    cases hp : piece.toList with
    | nil => simp [hp] at hc
    | cons d r => simp only [hp, List.head?_cons, Option.some.injEq] at hc; exact ⟨r, hc ▸ rfl⟩
  have hsize : piece.utf8ByteSize = c.utf8Size + (String.ofList r).utf8ByteSize := by
    rw [← String.ofList_toList (s := piece), hr]
    simp
  omega

/-- At the end of the text there is no character to read. -/
theorem peek_of_end {st : Scanner text} (h : st.pos = text.utf8ByteSize) : st.peek = some none := by
  have hslice : slice? text st.pos text.utf8ByteSize = some "" :=
    slice?_eq_some_iff.2 ⟨text, "", by simp, h, by simp [h]⟩
  rw [peek, hslice]
  rfl

@[simp] theorem bump_pos (st : Scanner text) (c : Char) :
    (st.bump c).pos = st.pos + c.utf8Size := by
  unfold bump; split <;> rfl

/-- Moves past the characters that `p` accepts. -/
def eatWhile (p : Char → Bool) (st : Scanner text) : Option (Scanner text) :=
  match hc : st.peek with
  | none => none
  | some none => some st
  | some (some c) =>
    if p c then
      have := st.peek_ends hc
      (st.bump c).eatWhile p
    else some st
termination_by text.utf8ByteSize - st.pos
decreasing_by
  have := c.utf8Size_pos
  simp only [bump_pos]
  omega

/-- The column of the scanner's offset, counting characters from 1 at the start of the line. -/
def column (st : Scanner text) : Option Nat :=
  (slice? text st.lineStart st.pos).map (·.length + 1)

/-- Characters that end a string literal: its closing quote, or the end of its line. -/
def endsString (c : Char) : Bool := c == '"' || c == '\n'

/-- Skips a string literal from its opening quote through the first quote on the same line. With
none, the literal is unterminated, on the line where it opens. -/
def stringLiteral (st : Scanner text) : Option (Scanner text × Except ScanError Unit) := do
  let line := st.line
  let st := st.bump '"'
  let rest ← slice? text st.pos text.utf8ByteSize
  match byteOffset? endsString rest.toList with
  | some offset =>
    let tail ← slice? text (st.pos + offset) text.utf8ByteSize
    if tail.toList.head? = some '"' then pure ({ st with pos := st.pos + offset + 1 }, .ok ())
    else pure (st, .error (.unterminatedString line))
  | none => pure (st, .error (.unterminatedString line))

/-- Skips a number: ASCII digits, then optionally a point and more ASCII digits. -/
def number (st : Scanner text) : Option (Scanner text) := do
  let st ← st.eatWhile Char.isDigit
  if (← st.peek) = some '.' then (st.bump '.').eatWhile Char.isDigit else pure st

/-- Reads a word and classifies it; the word takes the after-`End` flag and may set it again. -/
def word (st : Scanner text) : Option (Option Word × Scanner text) := do
  let start := st.pos
  let st ← st.eatWhile isWordChar
  let spelling ← slice? text start st.pos
  let (word, afterEnd) := classify st.afterEnd spelling
  pure (word, { st with afterEnd })

/-- Whether the text one byte past the scanner's offset starts with an ASCII digit. The slice
there may fail, which counts as no digit. -/
def digitAfterPoint (st : Scanner text) : Bool :=
  ((slice? text (st.pos + 1) text.utf8ByteSize).bind (·.toList.head?)).any Char.isDigit

/-- One turn of the scanning loop. -/
def turn (st : Scanner text) : Option (Turn text) :=
  match st.peek with
  | none => none
  | some none => some .finish
  | some (some c) =>
    if c = ';' then (st.eatWhile (· != '\n')).map .loop
    else if c = '"' then
      st.stringLiteral.map fun
        | (st', .ok ()) => .loop st'
        | (st', .error e) => .yield (.error e) { st' with pos := text.utf8ByteSize }
    else if c = '.' && st.digitAfterPoint then st.number.map .loop
    else if c.isDigit then st.number.map .loop
    else if isWordChar c then
      st.word.map fun
        | (some w, st') => .yield (.ok ⟨w, st.line⟩) st'
        | (none, st') => .loop st'
    else if Text.isBlank c || punctuation.contains c then some (.loop (st.bump c))
    else
      st.column.map fun column => .yield (.error (.illegalCharacter c st.line column)) (st.bump c)

/-! ## Every turn moves forward -/

/-- The state a turn leaves for the next, if the scan goes on. -/
def Turn.state? : Turn text → Option (Scanner text)
  | .finish => none
  | .loop st => some st
  | .yield _ st => some st

theorem eatWhile_pos_le {p : Char → Bool} {st st' : Scanner text} (h : st.eatWhile p = some st') :
    st.pos ≤ st'.pos := by
  fun_induction eatWhile p st with
  | case1 => cases h
  | case2 | case4 => cases h; exact Nat.le_refl _
  | case3 st c _ hp _ ih =>
    have := ih h
    simp only [bump_pos] at this
    omega

theorem eatWhile_of_peek {p : Char → Bool} {st : Scanner text} {c : Char}
    (hc : st.peek = some (some c)) :
    st.eatWhile p = if p c then (st.bump c).eatWhile p else some st := by
  rw [eatWhile]
  split
  next hn => rw [hc] at hn; cases hn
  next hn => rw [hc] at hn; cases hn
  next c' hc' => rw [hc] at hc'; cases hc'; rfl

theorem eatWhile_of_end {p : Char → Bool} {st : Scanner text} (he : st.peek = some none) :
    st.eatWhile p = some st := by
  rw [eatWhile]
  split
  next hn => rw [he] at hn; cases hn
  next => rfl
  next c' hc' => rw [he] at hc'; cases hc'

theorem eatWhile_bump_pos_le {p : Char → Bool} {st st' : Scanner text} {c : Char}
    (h : (st.bump c).eatWhile p = some st') : st.pos + c.utf8Size ≤ st'.pos := by
  simpa using eatWhile_pos_le h

theorem eatWhile_pos_first {p : Char → Bool} {st st' : Scanner text} {c : Char}
    (hc : st.peek = some (some c)) (hp : p c) (h : st.eatWhile p = some st') :
    st.pos + c.utf8Size ≤ st'.pos := by
  rw [eatWhile_of_peek hc, if_pos hp] at h
  exact eatWhile_bump_pos_le h

/-- A number moves past the digit or the point it starts at. -/
theorem number_advances {st st' : Scanner text} {c : Char} (hc : st.peek = some (some c))
    (hd : c.isDigit ∨ c = '.') (h : st.number = some st') : st.pos < st'.pos := by
  simp only [number, Option.bind_eq_bind, Option.bind_eq_some_iff] at h
  obtain ⟨st₁, h₁, x, hx, h⟩ := h
  -- after the digits, a point moves the scanner on again
  have h₂ : st₁.pos ≤ st'.pos := by
    split at h
    · have := eatWhile_bump_pos_le h
      omega
    · cases h; exact Nat.le_refl _
  rcases hd with hd | rfl
  · have := eatWhile_pos_first hc hd h₁
    have := c.utf8Size_pos
    omega
  · rw [eatWhile_of_peek hc, if_neg (by decide)] at h₁
    cases h₁
    rw [hc] at hx
    cases hx
    rw [if_pos rfl] at h
    have := eatWhile_bump_pos_le h
    have : '.'.utf8Size = 1 := rfl
    omega

/-- A word moves past its first character. -/
theorem word_advances {st st' : Scanner text} {c : Char} {w : Option Word}
    (hc : st.peek = some (some c)) (hw : isWordChar c) (h : st.word = some (w, st')) :
    st.pos < st'.pos := by
  simp only [word, Option.bind_eq_bind, Option.bind_eq_some_iff] at h
  obtain ⟨st₁, h₁, spelling, -, h⟩ := h
  have := eatWhile_pos_first hc hw h₁
  have := c.utf8Size_pos
  cases h
  simp only
  omega

/-- A string literal moves past its opening quote. -/
theorem stringLiteral_advances {st st' : Scanner text} {r : Except ScanError Unit}
    (h : st.stringLiteral = some (st', r)) : st.pos < st'.pos := by
  simp only [stringLiteral, Option.bind_eq_bind, Option.bind_eq_some_iff] at h
  obtain ⟨rest, -, h⟩ := h
  have : '"'.utf8Size = 1 := rfl
  split at h
  · obtain ⟨tail, -, h⟩ := Option.bind_eq_some_iff.1 h
    split at h <;> cases h <;> simp only [bump_pos] <;> omega
  · cases h
    simp only [bump_pos]
    omega

/-- At the end of the text the loop ends. -/
theorem turn_of_end {st : Scanner text} (h : st.peek = some none) : st.turn = some .finish := by
  unfold turn
  rw [h]

/-- Every turn that does not end the scan moves the scanner forward, from an offset inside the
text. -/
theorem turn_advances {st st' : Scanner text} {t : Turn text} (h : st.turn = some t)
    (ht : t.state? = some st') : st.pos < st'.pos ∧ st.pos < text.utf8ByteSize := by
  unfold turn at h
  split at h
  · cases h
  · cases h; cases ht
  rename_i c hc
  have hend : st.pos + c.utf8Size ≤ text.utf8ByteSize := st.peek_ends hc
  have := c.utf8Size_pos
  refine ⟨?_, by omega⟩
  -- one case for each kind of token, in the order the turn tries them
  split at h
  · obtain ⟨st₁, h₁, rfl⟩ := Option.map_eq_some_iff.1 h
    cases ht
    have := eatWhile_pos_first hc (by simp [*]) h₁
    omega
  split at h
  · obtain ⟨⟨st₁, r⟩, h₁, rfl⟩ := Option.map_eq_some_iff.1 h
    have := stringLiteral_advances h₁
    -- an unterminated literal leaves the scanner at the end of the text
    cases r with
    | ok => cases ht; omega
    | error => cases ht; show st.pos < text.utf8ByteSize; omega
  split at h
  · obtain ⟨st₁, h₁, rfl⟩ := Option.map_eq_some_iff.1 h
    cases ht
    exact number_advances hc (.inr (by simp_all)) h₁
  split at h
  · obtain ⟨st₁, h₁, rfl⟩ := Option.map_eq_some_iff.1 h
    cases ht
    exact number_advances hc (.inl ‹_›) h₁
  split at h
  · obtain ⟨⟨w, st₁⟩, h₁, rfl⟩ := Option.map_eq_some_iff.1 h
    have := word_advances hc ‹_› h₁
    cases w <;> cases ht <;> omega
  split at h
  · cases h
    cases ht
    simp only [bump_pos]
    omega
  · obtain ⟨col, -, rfl⟩ := Option.map_eq_some_iff.1 h
    cases ht
    simp only [bump_pos]
    omega

/-! ## Calls -/

/-- One call of the scanner: turns of the loop until one yields an item, or `none` at the end of
the text. -/
def next (st : Scanner text) : Option (Option Item × Scanner text) :=
  match h : st.turn with
  | none => none
  | some .finish => some (none, st)
  | some (.loop st') =>
    have := turn_advances h rfl
    st'.next
  | some (.yield item st') => some (some item, st')
termination_by text.utf8ByteSize - st.pos
decreasing_by omega

theorem next_of_finish {st : Scanner text} (h : st.turn = some .finish) :
    st.next = some (none, st) := by
  rw [next]
  split <;> simp_all

theorem next_of_loop {st st' : Scanner text} (h : st.turn = some (.loop st')) :
    st.next = st'.next := by
  rw [next]
  split <;> simp_all

theorem next_of_yield {st st' : Scanner text} {item : Item}
    (h : st.turn = some (.yield item st')) : st.next = some (some item, st') := by
  rw [next]
  split <;> simp_all

/-- A call that yields an item moves the scanner forward, from an offset inside the text. -/
theorem next_advances {st st' : Scanner text} {item : Item}
    (h : st.next = some (some item, st')) : st.pos < st'.pos ∧ st.pos < text.utf8ByteSize := by
  fun_induction next st with
  | case1 => cases h
  | case2 => cases h
  | case3 st st₁ ht _ ih =>
    have := turn_advances ht rfl
    have := ih h
    omega
  | case4 st item' st₁ ht =>
    cases h
    exact turn_advances ht rfl

/-- Once a call reports the end of the text, every later call does too. -/
theorem next_fused {st st' : Scanner text} (h : st.next = some (none, st')) :
    st'.next = some (none, st') := by
  fun_induction next st with
  | case1 => cases h
  | case2 st hturn =>
    cases h
    exact next_of_finish hturn
  | case3 st st₁ _ _ ih => exact ih h
  | case4 => cases h

/-- The items of every call, until a call reports the end of the text. -/
def items (st : Scanner text) : Option (List Item) :=
  match h : st.next with
  | none => none
  | some (none, _) => some []
  | some (some item, st') =>
    have := next_advances h
    st'.items.map (item :: ·)
termination_by text.utf8ByteSize - st.pos
decreasing_by omega

theorem items_congr {st st' : Scanner text} (h : st.next = st'.next) : st.items = st'.items := by
  rw [items, items]
  split <;> split <;> simp_all

theorem items_of_end {st st' : Scanner text} (h : st.next = some (none, st')) :
    st.items = some [] := by
  rw [items]
  split <;> simp_all

theorem items_of_item {st st' : Scanner text} {item : Item}
    (h : st.next = some (some item, st')) : st.items = st'.items.map (item :: ·) := by
  rw [items]
  split <;> simp_all

/-- At the end of the text there are no more items. -/
theorem items_of_at_end {st : Scanner text} (h : st.pos = text.utf8ByteSize) :
    st.items = some [] :=
  items_of_end (next_of_finish (turn_of_end (peek_of_end h)))

/-- Where the items can be listed, the first call does not fail. -/
theorem next_of_items {st : Scanner text} {l : List Item} (h : st.items = some l) :
    ∃ r, st.next = some r := by
  rw [items] at h
  split at h
  · cases h
  all_goals exact ⟨_, ‹_›⟩

end Scanner

end Lexicon.Source
