import Lexicon.Source.Scanner
import Lexicon.Proofs.Source.Reference

/-!
# The scanner over bytes, against the scan over characters

`Scanner` works on the bytes of its text, `Source.scan` on its characters. The two are tied by
`Scanner.At`: the scanner stands after a prefix of the characters, at the byte offset that prefix
takes, and its line, line start and after-`End` flag are those of the cursor of the scan. Each
step of a turn keeps that relation (`At.bump`, `At.eatWhile`, `At.word`, the numbers and the
string literals), so one turn of the loop does what one step of the scan does (`At.turn`), and the
calls of the scanner yield exactly the scan (`Scanner.items_new`).

From there the loop is safe: every state it passes through stands on a character boundary, which
is where every slice it takes starts and ends, so no turn and no call fails; every turn that goes
on moves forward; the items are at most one for each character, an unterminated literal only as
the last; and the end, once reported, stays reported.

* `Scanner.items_new`: iterating the scanner yields `scan`.
* `Scanner.Reachable`: the states the loop passes through.
* `Scanner.advances_on_boundaries`: the scanner walks forward on character boundaries, and ends.
-/

namespace Lexicon.Source

open Text

namespace Cursor

@[simp] theorem advance_append (cur : Cursor) (a b : List Char) :
    cur.advance (a ++ b) = (cur.advance a).advance b :=
  List.foldl_append

/-- Reading a character other than a line feed, then a run of characters that stops at line
feeds, moves the cursor along its line. -/
theorem advance_run {p : Char → Bool} (hp : p '\n' = false) {c : Char} (hc : c ≠ '\n')
    (r : List Char) (cur : Cursor) :
    cur.advance (c :: r.takeWhile p) = cur.skip ((r.takeWhile p).length + 1) := by
  rw [advance_eq_skip (Reference.newline_not_mem_cons_takeWhile hp hc r), List.length_cons]

end Cursor

namespace Scanner

variable {text : String} {st : Scanner text} {before rest : List Char} {cur : Cursor}

/-! ## Where the scanner stands -/

/-- The scanner stands after the characters `before` of its text, with `rest` left to read; its
line, the start of that line and its after-`End` flag are those the cursor `cur` describes. -/
structure At (st : Scanner text) (before rest : List Char) (cur : Cursor) : Prop where
  split : text.toList = before ++ rest
  pos : st.pos = (String.ofList before).utf8ByteSize
  line : st.line = cur.line
  afterEnd : st.afterEnd = cur.afterEnd
  lineStart : ∃ head onLine, before = head ++ onLine ∧
    st.lineStart = (String.ofList head).utf8ByteSize ∧ cur.column = onLine.length

theorem at_new (text : String) : (Scanner.new text).At [] text.toList {} :=
  ⟨rfl, rfl, rfl, rfl, ⟨[], [], rfl, rfl, rfl⟩⟩

/-- The offset of the scanner is a character boundary. -/
theorem At.isValid (h : st.At before rest cur) : (String.Pos.Raw.mk st.pos).IsValid text := by
  rw [h.pos]
  exact isValid_of_eq_append (by rw [← String.ofList_append, ← h.split, String.ofList_toList])

/-- The text from the scanner's offset on is what is left to read. -/
theorem At.slice_rest (h : st.At before rest cur) :
    slice? text st.pos text.utf8ByteSize = some (String.ofList rest) := by
  rw [h.pos]
  exact slice?_to_end h.split

/-- The text from further on in what is left to read. -/
theorem At.slice_after {seg post : List Char} (h : st.At before (seg ++ post) cur) :
    slice? text (st.pos + (String.ofList seg).utf8ByteSize) text.utf8ByteSize =
      some (String.ofList post) := by
  rw [h.pos, ← String.utf8ByteSize_append, ← String.ofList_append]
  exact slice?_to_end (by rw [h.split, List.append_assoc])

theorem At.peek (h : st.At before rest cur) : st.peek = some rest.head? := by
  rw [Scanner.peek, h.slice_rest]
  simp

theorem At.bump {c : Char} (h : st.At before (c :: rest) cur) :
    (st.bump c).At (before ++ [c]) rest (cur.bump c) := by
  obtain ⟨hsplit, hpos, hline, hafter, head, onLine, hbefore, hstart, hcol⟩ := h
  refine ⟨by simp [hsplit], by simp [hpos], ?_, ?_, ?_⟩
  · unfold Scanner.bump Cursor.bump
    split <;> simp [hline, Cursor.skip]
  · unfold Scanner.bump Cursor.bump
    split <;> simp [hafter, Cursor.skip]
  · -- a line feed starts a line after it; another character lengthens the current one
    by_cases hc : c = '\n'
    · refine ⟨before ++ [c], [], by simp, ?_, ?_⟩
      · simp only [Scanner.bump, if_pos hc, hpos, String.ofList_append,
          String.utf8ByteSize_append, utf8ByteSize_ofList_singleton]
      · simp [Cursor.bump, hc]
    · refine ⟨head, onLine ++ [c], by simp [hbefore], ?_, ?_⟩ <;>
        simp [Scanner.bump, Cursor.bump, Cursor.skip, hc, hstart, hcol]

/-- Moving the offset past some characters, counting them on the current line. -/
theorem At.skip {seg : List Char} (h : st.At before (seg ++ rest) cur) :
    ({ st with pos := st.pos + (String.ofList seg).utf8ByteSize } : Scanner text).At
      (before ++ seg) rest (cur.skip seg.length) := by
  obtain ⟨hsplit, hpos, hline, hafter, head, onLine, hbefore, hstart, hcol⟩ := h
  refine ⟨by simp [hsplit], by simp [hpos], hline, hafter, head, onLine ++ seg, ?_, hstart, ?_⟩
  · simp [hbefore]
  · simp [Cursor.skip, hcol]

theorem At.setAfterEnd (h : st.At before rest cur) (b : Bool) :
    ({ st with afterEnd := b } : Scanner text).At before rest { cur with afterEnd := b } :=
  ⟨h.split, h.pos, h.line, rfl, h.lineStart⟩

/-- The column counts the characters read on the current line, from 1. -/
theorem At.column (h : st.At before rest cur) : st.column = some (cur.column + 1) := by
  obtain ⟨head, onLine, hbefore, hstart, hcol⟩ := h.lineStart
  have hslice := @slice?_of_toList text head onLine rest (by rw [h.split, hbefore])
  rw [← String.utf8ByteSize_append, ← String.ofList_append, ← hbefore, ← h.pos, ← hstart]
    at hslice
  rw [Scanner.column, hslice, hcol]
  simp

/-- A point is one byte wide, so the text one byte on is what follows it. -/
theorem At.digitAfterPoint {r : List Char} (h : st.At before ('.' :: r) cur) :
    st.digitAfterPoint = r.head?.any Char.isDigit := by
  have hslice := h.bump.slice_rest
  rw [bump_pos, show '.'.utf8Size = 1 from rfl] at hslice
  rw [Scanner.digitAfterPoint, hslice]
  simp

/-! ## The steps of a turn -/

/-- Eating the characters that `p` accepts reads the run of them, one character at a time. -/
theorem At.eatWhile (p : Char → Bool) (h : st.At before rest cur) :
    ∃ st', st.eatWhile p = some st' ∧
      st'.At (before ++ rest.takeWhile p) (rest.dropWhile p) (cur.advance (rest.takeWhile p)) := by
  induction rest generalizing st before cur with
  | nil => exact ⟨st, eatWhile_of_end h.peek, by simpa using h⟩
  | cons c r ih =>
    rw [eatWhile_of_peek h.peek]
    by_cases hp : p c
    · obtain ⟨st', h₁, h₂⟩ := ih h.bump
      refine ⟨st', by rw [if_pos hp]; exact h₁, ?_⟩
      simpa [List.takeWhile_cons_of_pos hp, List.dropWhile_cons_of_pos hp] using h₂
    · refine ⟨st, by rw [if_neg hp], ?_⟩
      simpa [List.takeWhile_cons_of_neg hp, List.dropWhile_cons_of_neg hp] using h

/-- A word is the run of word characters, classified with the cursor's flag. -/
theorem At.word (h : st.At before rest cur) :
    ∃ st', st.word =
        some ((classify cur.afterEnd (String.ofList (rest.takeWhile isWordChar))).1, st') ∧
      st'.At (before ++ rest.takeWhile isWordChar) (rest.dropWhile isWordChar)
        { cur.advance (rest.takeWhile isWordChar) with
          afterEnd := (classify cur.afterEnd (String.ofList (rest.takeWhile isWordChar))).2 } := by
  obtain ⟨st₁, h₁, hat⟩ := h.eatWhile isWordChar
  have hslice : slice? text st.pos st₁.pos =
      some (String.ofList (rest.takeWhile isWordChar)) := by
    rw [h.pos, hat.pos, String.ofList_append, String.utf8ByteSize_append]
    exact slice?_of_toList (by rw [hat.split, List.append_assoc])
  have hflag : st₁.afterEnd = cur.afterEnd := by rw [hat.afterEnd, Cursor.afterEnd_advance]
  refine ⟨_, ?_, hat.setAfterEnd _⟩
  simp only [Scanner.word, Option.bind_eq_bind, h₁, Option.bind_some, hslice, hflag]
  rfl

/-- A number with no point after its digits is its digits. -/
theorem At.number_whole (h : st.At before rest cur)
    (hpoint : (rest.dropWhile Char.isDigit).head? ≠ some '.') :
    ∃ st', st.number = some st' ∧
      st'.At (before ++ rest.takeWhile Char.isDigit) (rest.dropWhile Char.isDigit)
        (cur.advance (rest.takeWhile Char.isDigit)) := by
  obtain ⟨st₁, h₁, hat⟩ := h.eatWhile Char.isDigit
  refine ⟨st₁, ?_, hat⟩
  simp only [number, Option.bind_eq_bind, h₁, Option.bind_some, hat.peek, if_neg hpoint]
  rfl

/-- A number with a point after its digits runs on through the digits after the point. -/
theorem At.number_fraction {frac : List Char} (h : st.At before rest cur)
    (hpoint : rest.dropWhile Char.isDigit = '.' :: frac) :
    ∃ st', st.number = some st' ∧
      st'.At (before ++ (rest.takeWhile Char.isDigit ++ '.' :: frac.takeWhile Char.isDigit))
        (frac.dropWhile Char.isDigit)
        (cur.advance (rest.takeWhile Char.isDigit ++ '.' :: frac.takeWhile Char.isDigit)) := by
  obtain ⟨st₁, h₁, hat⟩ := h.eatWhile Char.isDigit
  rw [hpoint] at hat
  obtain ⟨st₂, h₂, hat₂⟩ := hat.bump.eatWhile Char.isDigit
  refine ⟨st₂, ?_, by simpa using hat₂⟩
  simp only [number, Option.bind_eq_bind, h₁, Option.bind_some, hat.peek, List.head?_cons,
    if_true, h₂]

theorem not_endsString : (fun c => !endsString c) = inString := by
  funext c
  simp only [endsString, inString, bne, Bool.not_or]

/-- A literal closed on its line: the scanner passes the closing quote. -/
theorem At.stringLiteral_closed {r tail : List Char} (h : st.At before ('"' :: r) cur)
    (hclosed : r.dropWhile inString = '"' :: tail) :
    ∃ st', st.stringLiteral = some (st', .ok ()) ∧
      st'.At (before ++ '"' :: (r.takeWhile inString ++ ['"'])) tail
        (cur.skip ((r.takeWhile inString).length + 2)) := by
  -- past the opening quote stand the literal's characters, then the quote that closes it
  have h₁ : (st.bump '"').At (before ++ ['"']) (r.takeWhile inString ++ '"' :: tail)
      (cur.bump '"') := by
    rw [← hclosed, List.takeWhile_append_dropWhile]
    exact h.bump
  have hoffset : byteOffset? endsString r =
      some (String.ofList (r.takeWhile inString)).utf8ByteSize := by
    rw [byteOffset?_of_dropWhile (by rw [not_endsString]; exact hclosed), not_endsString]
  refine ⟨{ st.bump '"' with
    pos := (st.bump '"').pos + (String.ofList (r.takeWhile inString)).utf8ByteSize + 1 }, ?_, ?_⟩
  · simp only [stringLiteral, Option.bind_eq_bind, h.bump.slice_rest, Option.bind_some,
      String.toList_ofList, hoffset, h₁.slice_after, List.head?_cons, if_true]
    rfl
  · rw [List.append_cons (r.takeWhile inString)] at h₁
    have h₂ := h₁.skip
    have hpos : (st.bump '"').pos + (String.ofList (r.takeWhile inString ++ ['"'])).utf8ByteSize =
        (st.bump '"').pos + (String.ofList (r.takeWhile inString)).utf8ByteSize + 1 := by
      simp only [String.ofList_append, String.utf8ByteSize_append, utf8ByteSize_ofList_singleton]
      rfl
    have hcur : (cur.bump '"').skip (r.takeWhile inString ++ ['"']).length =
        cur.skip ((r.takeWhile inString).length + 2) := by
      simp only [Cursor.bump, if_neg (show '"' ≠ '\n' by decide), Cursor.skip_skip,
        List.length_append, List.length_singleton]
      congr 1
      omega
    rw [hpos, hcur] at h₂
    simpa using h₂

/-- A literal left open on its line: the scanner reports it, on the line where it opens. -/
theorem At.stringLiteral_open {r : List Char} (h : st.At before ('"' :: r) cur)
    (hopen : (r.dropWhile inString).head? ≠ some '"') :
    ∃ st', st.stringLiteral = some (st', .error (.unterminatedString cur.line)) := by
  have h₁ : (st.bump '"').At (before ++ ['"']) (r.takeWhile inString ++ r.dropWhile inString)
      (cur.bump '"') := by
    rw [List.takeWhile_append_dropWhile]
    exact h.bump
  refine ⟨st.bump '"', ?_⟩
  cases hd : r.dropWhile inString with
  | nil =>
    -- no quote and no line feed up to the end of the text
    have hoffset : byteOffset? endsString r = none :=
      byteOffset?_of_dropWhile_nil (by rw [not_endsString]; exact hd)
    simp only [stringLiteral, Option.bind_eq_bind, h.bump.slice_rest, Option.bind_some,
      String.toList_ofList, hoffset, h.line]
    rfl
  | cons d tail =>
    -- the literal meets a line feed first
    have hd' : d ≠ '"' := by
      rw [hd] at hopen
      simpa using hopen
    have hoffset : byteOffset? endsString r =
        some (String.ofList (r.takeWhile inString)).utf8ByteSize := by
      rw [byteOffset?_of_dropWhile (by rw [not_endsString]; exact hd), not_endsString]
    rw [hd] at h₁
    simp only [stringLiteral, Option.bind_eq_bind, h.bump.slice_rest, Option.bind_some,
      String.toList_ofList, hoffset, h₁.slice_after, List.head?_cons, Option.some.injEq, hd',
      if_false, h.line]
    rfl

/-! ## One turn, one step -/

/-- The turn that reports `item`, if there is one, and leaves the scanner at `st`. -/
def Turn.of : Option Item → Scanner text → Turn text
  | none, st => .loop st
  | some item, st => .yield item st

@[simp] theorem Turn.state?_of (item : Option Item) (st : Scanner text) :
    (Turn.of item st).state? = some st := by
  cases item <;> rfl

/-- One turn of the loop, from where a step of `Source.scan` starts, does what that step does: it
reports the step's item and leaves the scanner where the step leaves its input and cursor, or,
where the step stops, at the end of the text. -/
theorem At.turn {c : Char} {r : List Char} (h : st.At before (c :: r) cur) :
    ∃ st', st.turn = some (Turn.of (step c r cur).item st') ∧
      if (step c r cur).stop then st'.pos = text.utf8ByteSize
      else ∃ before', st'.At before' (step c r cur).rest (step c r cur).cursor := by
  -- the guard on a point reads the character after the point's one byte
  have hguard : (decide (c = '.') && st.digitAfterPoint) =
      (decide (c = '.') && r.head?.any Char.isDigit) := by
    by_cases hc : c = '.'
    · subst hc
      rw [h.digitAfterPoint]
    · simp [hc]
  -- the turn and the step test the character at hand in the same order
  unfold Scanner.turn step
  rw [h.peek, List.head?_cons]
  dsimp only
  rw [hguard]
  by_cases hsemi : c = ';'
  · -- a comment runs up to the line feed
    subst hsemi
    obtain ⟨st', he, hat⟩ := h.eatWhile (· != '\n')
    rw [if_pos rfl, if_pos rfl, he]
    rw [List.takeWhile_cons_of_pos (by decide), List.dropWhile_cons_of_pos (by decide),
      Cursor.advance_run (by decide) (by decide)] at hat
    simp only [Bool.false_eq_true, if_false]
    exact ⟨st', rfl, _, hat⟩
  rw [if_neg hsemi, if_neg hsemi]
  by_cases hquote : c = '"'
  · -- a string literal, closed on its line or not
    subst hquote
    rw [if_pos rfl, if_pos rfl]
    by_cases hclosed : (r.dropWhile inString).head? = some '"'
    · obtain ⟨tail, ht⟩ := List.head?_eq_some_iff.1 hclosed
      obtain ⟨st', he, hat⟩ := h.stringLiteral_closed ht
      rw [if_pos hclosed, he]
      simp only [Bool.false_eq_true, if_false, ht, List.tail_cons]
      exact ⟨st', rfl, _, hat⟩
    · obtain ⟨st', he⟩ := h.stringLiteral_open hclosed
      rw [if_neg hclosed, he]
      exact ⟨{ st' with pos := text.utf8ByteSize }, rfl, by simp⟩
  rw [if_neg hquote, if_neg hquote]
  by_cases hpoint : (decide (c = '.') && r.head?.any Char.isDigit) = true
  · -- a number from a point: the point and the digits after it
    obtain ⟨rfl, -⟩ : c = '.' ∧ _ := by simpa using hpoint
    rw [if_pos hpoint, if_pos hpoint]
    obtain ⟨st', he, hat⟩ := h.number_fraction (List.dropWhile_cons_of_neg (by decide))
    rw [List.takeWhile_cons_of_neg (by decide), List.nil_append,
      Cursor.advance_run (by decide) (by decide)] at hat
    rw [he]
    simp only [Bool.false_eq_true, if_false]
    exact ⟨st', rfl, _, hat⟩
  rw [if_neg hpoint, if_neg hpoint]
  by_cases hdigit : c.isDigit = true
  · -- a number from a digit: its digits, then a point and digits if a point follows them
    have hc : c ≠ '\n' := fun hc => absurd (hc ▸ hdigit) (by decide)
    rw [if_pos hdigit, if_pos hdigit]
    by_cases hfrac : (r.dropWhile Char.isDigit).head? = some '.'
    · obtain ⟨frac, hf⟩ := List.head?_eq_some_iff.1 hfrac
      obtain ⟨st', he, hat⟩ :=
        h.number_fraction (by rw [List.dropWhile_cons_of_pos hdigit]; exact hf)
      have hline : '\n' ∉ c :: r.takeWhile Char.isDigit ++ '.' :: frac.takeWhile Char.isDigit := by
        simp [Ne.symm hc, Reference.newline_not_mem_takeWhile (p := Char.isDigit) (by decide)]
      have hlen : (c :: r.takeWhile Char.isDigit ++ '.' :: frac.takeWhile Char.isDigit).length =
          (r.takeWhile Char.isDigit).length + 1 + 1 + (frac.takeWhile Char.isDigit).length := by
        simp only [List.length_append, List.length_cons]
        omega
      rw [List.takeWhile_cons_of_pos hdigit, Cursor.advance_eq_skip hline, hlen] at hat
      rw [if_pos hfrac, he]
      simp only [Bool.false_eq_true, if_false, hf, List.tail_cons]
      exact ⟨st', rfl, _, hat⟩
    · obtain ⟨st', he, hat⟩ := h.number_whole (by rwa [List.dropWhile_cons_of_pos hdigit])
      rw [List.takeWhile_cons_of_pos hdigit, List.dropWhile_cons_of_pos hdigit,
        Cursor.advance_run (by decide) hc] at hat
      rw [if_neg hfrac, he]
      simp only [Bool.false_eq_true, if_false]
      exact ⟨st', rfl, _, hat⟩
  rw [if_neg hdigit, if_neg hdigit]
  by_cases hword : isWordChar c = true
  · -- a word: the longest run of word characters, classified with the cursor's flag
    have hc : c ≠ '\n' := fun hc => by rw [hc, Reference.isWordChar_newline] at hword; cases hword
    rw [if_pos hword, if_pos hword]
    obtain ⟨st', he, hat⟩ := h.word
    rw [List.takeWhile_cons_of_pos hword] at he
    rw [List.takeWhile_cons_of_pos hword, List.dropWhile_cons_of_pos hword,
      Cursor.advance_run Reference.isWordChar_newline hc] at hat
    rw [he]
    refine ⟨st', ?_, ?_⟩
    · -- the word is reported on the line where it starts
      generalize (classify cur.afterEnd (String.ofList (c :: r.takeWhile isWordChar))).1 = w
      cases w <;> simp [Turn.of, h.line]
    · simp only [Bool.false_eq_true, if_false]
      exact ⟨_, hat⟩
  rw [if_neg hword, if_neg hword]
  by_cases hplain : (Text.isBlank c || punctuation.contains c) = true
  · -- a blank or a punctuation character
    rw [if_pos hplain, if_pos hplain]
    exact ⟨st.bump c, rfl, by simpa using ⟨_, h.bump⟩⟩
  · -- an illegal character, reported at its line and column
    rw [if_neg hplain, if_neg hplain, h.column]
    refine ⟨st.bump c, by simp [Turn.of, h.line], ?_⟩
    simpa using ⟨_, h.bump⟩

/-! ## The run -/

/-- A turn that reports `item`, if any, puts it before the items of the calls that follow. -/
theorem items_of_turn {st' : Scanner text} {item : Option Item}
    (h : st.turn = some (Turn.of item st')) : st.items = st'.items.map (item.toList ++ ·) := by
  cases item with
  | none =>
    rw [items_congr (next_of_loop h)]
    simp
  | some item =>
    rw [items_of_item (next_of_yield h)]
    simp

/-- From where `Source.scan` would stand, the calls of the scanner yield what the scan yields. -/
theorem At.items (h : st.At before rest cur) : st.items = some (scanChars rest cur) := by
  -- along the scan's own recursion, one step for one turn of the loop
  fun_induction scanChars rest cur generalizing st before with
  | case1 cur => exact items_of_end (next_of_finish (turn_of_end h.peek))
  | case2 c r cur s =>
    rename_i ih
    simp only [s] at ih ⊢
    obtain ⟨st', hturn, hnext⟩ := h.turn
    rw [items_of_turn hturn]
    split at hnext
    next hstop =>
      -- an unterminated literal: the scan stops, and the scanner stands at the end
      rw [items_of_at_end hnext, if_pos hstop]
      rfl
    next hstop =>
      obtain ⟨before', hat⟩ := hnext
      rw [ih hat, if_neg hstop]
      rfl

/-- Iterating the scanner over a text yields exactly `scan` of the text. -/
theorem items_new (text : String) : (Scanner.new text).items = some (scan text) :=
  (at_new text).items

/-! ## What the loop passes through -/

/-- The states the scanner passes through from the start of `text`, one turn of its loop at a
time, across calls. -/
inductive Reachable : Scanner text → Prop
  | start : Reachable (Scanner.new text)
  | turn {st st' : Scanner text} {t : Turn text} :
      Reachable st → st.turn = some t → t.state? = some st' → Reachable st'

/-- Every state the loop passes through stands where `Source.scan` would stand, or at the end
of the text after an unterminated literal. -/
theorem Reachable.at_or_end (h : Reachable st) :
    (∃ before rest cur, st.At before rest cur) ∨ st.pos = text.utf8ByteSize := by
  induction h with
  | start => exact .inl ⟨_, _, _, at_new text⟩
  | @turn st st' t _ hturn hstate ih =>
    -- a state at the end of the text, or at the end of what is left, ends the loop
    have hgoes : st.peek ≠ some none := fun he => by
      rw [turn_of_end he] at hturn
      cases hturn
      cases hstate
    rcases ih with ⟨before, rest, cur, hat⟩ | hend
    · cases rest with
      | nil => exact absurd hat.peek hgoes
      | cons c r =>
        obtain ⟨st'', hturn', hnext⟩ := hat.turn
        rw [hturn'] at hturn
        cases hturn
        rw [Turn.state?_of] at hstate
        cases hstate
        split at hnext
        · exact .inr hnext
        · obtain ⟨before', hat'⟩ := hnext
          exact .inl ⟨_, _, _, hat'⟩
    · exact absurd (peek_of_end hend) hgoes

theorem Reachable.isValid (h : Reachable st) : (String.Pos.Raw.mk st.pos).IsValid text := by
  rcases h.at_or_end with ⟨before, rest, cur, hat⟩ | hend
  · exact hat.isValid
  · rw [hend]
    exact String.Pos.Raw.isValid_rawEndPos

/-- No call from a state the loop passes through fails. -/
theorem Reachable.exists_next (h : Reachable st) : ∃ r, st.next = some r := by
  rcases h.at_or_end with ⟨before, rest, cur, hat⟩ | hend
  · exact next_of_items hat.items
  · exact ⟨_, next_of_finish (turn_of_end (peek_of_end hend))⟩

theorem Reachable.exists_turn (h : Reachable st) : ∃ t, st.turn = some t := by
  obtain ⟨r, hr⟩ := h.exists_next
  rw [Scanner.next] at hr
  split at hr
  · cases hr
  all_goals exact ⟨_, ‹_›⟩

end Scanner

/-! ## The items of a scan -/

/-- An unterminated literal, if one is reported, is the last item. -/
def UnterminatedLast (items : List Item) : Prop :=
  ∀ pre post line, items = pre ++ .error (.unterminatedString line) :: post → post = []

theorem unterminatedLast_of_length_le_one {items : List Item} (h : items.length ≤ 1) :
    UnterminatedLast items := by
  intro pre post line heq
  have hlen := congrArg List.length heq
  simp only [List.length_append, List.length_cons] at hlen
  exact List.eq_nil_of_length_eq_zero (by omega)

theorem UnterminatedLast.cons {item : Item} {items : List Item}
    (hitem : ∀ line, item ≠ .error (.unterminatedString line)) (h : UnterminatedLast items) :
    UnterminatedLast (item :: items) := by
  intro pre post line heq
  cases pre with
  | nil => exact absurd (List.cons.inj heq).1 (hitem line)
  | cons first pre => exact h pre post line (List.cons.inj heq).2

/-- Only a step that stops reports an unterminated literal. -/
theorem step_stop_of_unterminated {c : Char} {r : List Char} {cur : Cursor} {line : Nat}
    (h : (step c r cur).item = some (.error (.unterminatedString line))) :
    (step c r cur).stop = true := by
  unfold step at h ⊢
  dsimp only at h ⊢
  split_ifs at h ⊢ <;> simp_all

/-- A scan reports at most one item for each character. -/
theorem length_scanChars_le (cs : List Char) (cur : Cursor) :
    (scanChars cs cur).length ≤ cs.length := by
  fun_induction scanChars cs cur with
  | case1 => simp
  | case2 c r cur s =>
    rename_i ih
    have hrest := Step.rest_length_le c r cur
    have hitem : s.item.toList.length ≤ 1 := by cases s.item <;> simp
    simp only [s] at ih hitem ⊢
    split <;> simp only [List.length_append, List.length_cons, List.length_nil] <;> omega

/-- A scan reports an unterminated literal only as its last item. -/
theorem scanChars_unterminatedLast (cs : List Char) (cur : Cursor) :
    UnterminatedLast (scanChars cs cur) := by
  fun_induction scanChars cs cur with
  | case1 => exact unterminatedLast_of_length_le_one (by simp)
  | case2 c r cur s =>
    rename_i ih
    simp only [s] at ih ⊢
    split
    next => exact unterminatedLast_of_length_le_one (by cases (step c r cur).item <;> simp)
    next hgoes =>
      -- a step that goes on reports no unterminated literal
      cases hitem : (step c r cur).item with
      | none => simpa using ih
      | some item =>
        refine UnterminatedLast.cons (fun line hu => hgoes ?_) ih
        exact step_stop_of_unterminated (hitem.trans (congrArg some hu))

namespace Scanner

/-- The scanner walks its text forward on character boundaries, and ends. Every state its loop
passes through, across calls, stands on a character boundary within the text; every turn of the
loop that goes on moves strictly forward; no turn and no call from those states fails; iterating
the scanner yields at most one item for each character of the text, an unterminated literal only
as the last; and once a call reports the end of the text, every later call does too. -/
theorem advances_on_boundaries (text : String) :
    (∀ st : Scanner text, Reachable st →
      st.pos ≤ text.utf8ByteSize ∧ (String.Pos.Raw.mk st.pos).IsValid text) ∧
    (∀ (st st' : Scanner text) (t : Turn text), st.turn = some t → t.state? = some st' →
      st.pos < st'.pos) ∧
    (∀ st : Scanner text, Reachable st → (∃ t, st.turn = some t) ∧ ∃ r, st.next = some r) ∧
    (∃ items, (Scanner.new text).items = some items ∧ items.length ≤ text.length ∧
      UnterminatedLast items) ∧
    (∀ st st' : Scanner text, st.next = some (none, st') → st'.next = some (none, st')) :=
  ⟨fun _ h => ⟨h.isValid.le_utf8ByteSize, h.isValid⟩,
    fun _ _ _ h ht => (turn_advances h ht).1,
    fun _ h => ⟨h.exists_turn, h.exists_next⟩,
    ⟨scan text, items_new text, length_scanChars_le _ _, scanChars_unterminatedLast _ _⟩,
    fun _ _ h => next_fused h⟩

end Scanner

end Lexicon.Source
