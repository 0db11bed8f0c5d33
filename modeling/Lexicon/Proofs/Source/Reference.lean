import Mathlib
import Lexicon.Proofs.Source.Case

/-!
# The scanner against a reference tokenizer

The scanner keeps a cursor (a line, the characters read on it, and whether the last word was
`End`) and decides every token from the character at hand. The reference here keeps no cursor:
it cuts the text into pieces from the left, reads the line and column of each piece off the text
before it, and only then runs the keyword machine over the words it found.

* A `;` comment runs up to, not including, the next line feed.
* A `"` literal runs through the next `"` if one comes before the next line feed or the end;
  otherwise it yields an unterminated literal on the line of the quote, and the reference stops.
* A number is ASCII digits, then optionally `.` and ASCII digits; it starts at a digit or at a
  `.` directly followed by one.
* A word is a longest run of alphanumerics and underscores.
* One blank or one punctuation character is skipped; any other character is illegal, at the line
  and column where it stands, and the reference goes on after it.

The keyword machine then reads the words: each clears the after-`End` flag before it is
classified, keywords are matched ignoring the case of ASCII letters, `End` sets the flag and
yields nothing, a keyword yields its declarator unless it follows `End`, and every other word is
an identifier. Errors pass through the machine and keep the flag.

The two agree on every text (`Reference.scan_eq_items`). The proof runs over the pieces: one
scanner step reads exactly the piece the reference cuts (`Reference.step_eq_cut`), and its
cursor stands where the text before the piece puts it (`Cursor.Tracks`).

* `Reference.lineAt`, `Reference.columnAt`: the position after a text.
* `Reference.cut`, `Reference.tokens`, `Reference.machine`, `Reference.items`: the reference.
-/

namespace Lexicon.Source

namespace Reference

/-! ## The reference -/

/-- The line of the character that follows `before`, counting from 1. -/
def lineAt (before : List Char) : Nat := before.count '\n' + 1

/-- The column of the character that follows `before`, in characters from 1. -/
def columnAt (before : List Char) : Nat := (before.reverse.takeWhile (· != '\n')).length + 1

/-- What the reference finds at the head of its input. -/
inductive Piece where
  /-- A comment, a closed string literal, a number, a blank or a punctuation character. -/
  | skip
  | word
  | illegal
  /-- A string literal that does not close on its line. -/
  | unterminated
  deriving DecidableEq

/-- The length of the number at the head of `cs`: ASCII digits, then optionally `.` and more
ASCII digits. -/
def numberLength (cs : List Char) : Nat :=
  let whole := (cs.takeWhile Char.isDigit).length
  match cs.drop whole with
  | '.' :: frac => whole + 1 + (frac.takeWhile Char.isDigit).length
  | _ => whole

/-- The piece at the head of `c :: rest`, and how many characters it spans. An unterminated
literal spans the rest of the input. -/
def cut (c : Char) (rest : List Char) : Piece × Nat :=
  if c = ';' then (.skip, 1 + (rest.takeWhile (· != '\n')).length)
  else if c = '"' then
    let line := rest.takeWhile (· != '\n')
    if line.contains '"' then (.skip, line.idxOf '"' + 2) else (.unterminated, 1 + rest.length)
  else if c.isDigit ∨ c = '.' ∧ rest.head?.any Char.isDigit then
    (.skip, numberLength (c :: rest))
  else if isWordChar c then (.word, 1 + (rest.takeWhile isWordChar).length)
  else if Text.isBlank c ∨ punctuation.contains c then (.skip, 1)
  else (.illegal, 1)

/-- A number spans at least the character it starts at. -/
theorem numberLength_pos {c : Char} (h : c.isDigit ∨ c = '.') (rest : List Char) :
    0 < numberLength (c :: rest) := by
  rcases h with hd | rfl
  · have : 0 < ((c :: rest).takeWhile Char.isDigit).length := by
      simp [hd]
    unfold numberLength
    dsimp only
    split <;> omega
  · simp [numberLength]

/-- Every piece spans at least one character. -/
theorem cut_length_pos (c : Char) (rest : List Char) : 0 < (cut c rest).2 := by
  unfold cut
  dsimp only
  split_ifs with _ _ _ hnum
  all_goals try omega
  -- a number spans the digit or the point it starts at
  exact numberLength_pos (hnum.imp_right And.left) rest

/-- What the reference yields before the keyword machine: a word with the line it starts on, or
an error. -/
inductive Token where
  | word (text : String) (line : Nat)
  | error (e : ScanError)
  deriving DecidableEq

/-- What a piece yields, given its first character `c`, the text `before` it and its own text
`taken`. -/
def Piece.token? (c : Char) (before taken : List Char) : Piece → Option Token
  | .skip => none
  | .word => some (.word (String.ofList taken) (lineAt before))
  | .illegal => some (.error (.illegalCharacter c (lineAt before) (columnAt before)))
  | .unterminated => some (.error (.unterminatedString (lineAt before)))

/-- The tokens of `cs`, which follows the text `before`. An unterminated literal is the last. -/
def tokens (before : List Char) : List Char → List Token
  | [] => []
  | c :: rest =>
    let piece := (cut c rest).1
    let taken := (c :: rest).take (cut c rest).2
    (piece.token? c before taken).toList ++
      if piece = .unterminated then []
      else tokens (before ++ taken) ((c :: rest).drop (cut c rest).2)
termination_by cs => cs.length
decreasing_by
  have := cut_length_pos c rest
  simp only [List.length_drop, List.length_cons]
  omega

/-- The reserved word that `text` spells, comparing ASCII letters regardless of their case. -/
def keywordOf (text : String) : Option String :=
  keywords.find? fun kw => kw.toList.map Char.toLower = text.toList.map Char.toLower

/-- The keyword machine; `afterEnd` says that the last word was `End`. Every word clears the
flag before it is classified: `End` sets it again and yields nothing, another keyword yields its
declarator, if it has one, unless it follows `End`, and any other word is an identifier. Errors
pass through and keep the flag. -/
def machine : Bool → List Token → List Item
  | _, [] => []
  | afterEnd, .error e :: ts => .error e :: machine afterEnd ts
  | afterEnd, .word text line :: ts =>
    match keywordOf text with
    | some "END" => machine true ts
    | some kw =>
      ((if afterEnd then none else declarator? kw).map
          fun k => .ok ⟨.declarator k, line⟩).toList ++ machine false ts
    | none => .ok ⟨.ident text, line⟩ :: machine false ts

/-- The items of a text by the reference. -/
def items (cs : List Char) : List Item := machine false (tokens [] cs)

/-! ## Positions -/

theorem lineAt_append_singleton (before : List Char) (c : Char) :
    lineAt (before ++ [c]) = if c = '\n' then lineAt before + 1 else lineAt before := by
  unfold lineAt
  rw [List.count_append, List.count_singleton]
  by_cases h : c = '\n' <;> simp [h]

theorem columnAt_append_singleton (before : List Char) (c : Char) :
    columnAt (before ++ [c]) = if c = '\n' then 1 else columnAt before + 1 := by
  unfold columnAt
  rw [List.reverse_append, List.reverse_singleton, List.singleton_append, List.takeWhile_cons]
  by_cases h : c = '\n' <;> simp [h]

end Reference

namespace Cursor

/-- The cursor after reading `seg` one character at a time. -/
def advance (cur : Cursor) (seg : List Char) : Cursor := seg.foldl bump cur

/-- The cursor stands where the reference puts the character that follows `before`: on its line,
with the characters of that line before it read. -/
def Tracks (cur : Cursor) (before : List Char) : Prop :=
  cur.line = Reference.lineAt before ∧ cur.column + 1 = Reference.columnAt before

variable {cur : Cursor} {before : List Char}

@[simp] theorem advance_nil (cur : Cursor) : cur.advance [] = cur := rfl

@[simp] theorem advance_cons (cur : Cursor) (c : Char) (seg : List Char) :
    cur.advance (c :: seg) = (cur.bump c).advance seg := rfl

@[simp] theorem afterEnd_bump (cur : Cursor) (c : Char) : (cur.bump c).afterEnd = cur.afterEnd := by
  unfold bump
  split <;> rfl

@[simp] theorem afterEnd_advance (cur : Cursor) (seg : List Char) :
    (cur.advance seg).afterEnd = cur.afterEnd := by
  induction seg generalizing cur with
  | nil => rfl
  | cons c seg ih => rw [advance_cons, ih, afterEnd_bump]

theorem skip_skip (cur : Cursor) (m n : Nat) : (cur.skip m).skip n = cur.skip (m + n) := by
  simp [skip, Nat.add_assoc]

/-- Reading characters of one line moves the cursor along it. -/
theorem advance_eq_skip {seg : List Char} (h : '\n' ∉ seg) (cur : Cursor) :
    cur.advance seg = cur.skip seg.length := by
  induction seg generalizing cur with
  | nil => rfl
  | cons c seg ih =>
    have hc : c ≠ '\n' := fun hc => h (hc ▸ List.mem_cons_self)
    rw [advance_cons, bump, if_neg hc, ih (fun hm => h (List.mem_cons_of_mem c hm)), skip_skip,
      List.length_cons, Nat.add_comm 1]

theorem tracks_start : ({} : Cursor).Tracks [] := ⟨rfl, rfl⟩

theorem Tracks.bump (h : cur.Tracks before) (c : Char) : (cur.bump c).Tracks (before ++ [c]) := by
  unfold Cursor.bump Tracks
  rw [Reference.lineAt_append_singleton, Reference.columnAt_append_singleton]
  obtain ⟨hl, hc⟩ := h
  split <;> simp [skip, hl, hc]

/-- Reading a text keeps the cursor where the reference puts the character after it. -/
theorem Tracks.advance (h : cur.Tracks before) (seg : List Char) :
    (cur.advance seg).Tracks (before ++ seg) := by
  induction seg generalizing cur before with
  | nil => simpa using h
  | cons c seg ih =>
    rw [advance_cons, ← List.singleton_append, ← List.append_assoc]
    exact ih (h.bump c)

end Cursor

namespace Reference

/-! ## One piece, one step -/

theorem drop_length_takeWhile {α : Type} (p : α → Bool) :
    ∀ l : List α, l.drop (l.takeWhile p).length = l.dropWhile p
  | [] => rfl
  | a :: l => by
    by_cases h : p a
    · rw [List.takeWhile_cons_of_pos h, List.dropWhile_cons_of_pos h, List.length_cons,
        List.drop_succ_cons, drop_length_takeWhile p l]
    · simp [h]

theorem take_length_takeWhile {α : Type} (p : α → Bool) :
    ∀ l : List α, l.take (l.takeWhile p).length = l.takeWhile p
  | [] => rfl
  | a :: l => by
    by_cases h : p a
    · rw [List.takeWhile_cons_of_pos h, List.length_cons, List.take_succ_cons,
        take_length_takeWhile p l]
    · simp [h]

/-- A run of characters that stops at line feeds stays on its line. -/
theorem newline_not_mem_takeWhile {p : Char → Bool} (hp : p '\n' = false) (l : List Char) :
    '\n' ∉ l.takeWhile p :=
  fun h => by simp [List.mem_takeWhile_imp h] at hp

/-- A character that is no line feed, followed by a run of characters that stops at line feeds,
stays on its line. -/
theorem newline_not_mem_cons_takeWhile {p : Char → Bool} (hp : p '\n' = false) {c : Char}
    (hc : c ≠ '\n') (l : List Char) : '\n' ∉ c :: l.takeWhile p := by
  rw [List.mem_cons, not_or]
  exact ⟨Ne.symm hc, newline_not_mem_takeWhile hp l⟩

/-- The run that stops at `a`, and what follows `a`. -/
theorem drop_take_of_dropWhile {α : Type} {p : α → Bool} {l : List α} {a : α} {t : List α}
    (h : l.dropWhile p = a :: t) :
    l.drop ((l.takeWhile p).length + 1) = t ∧
      l.take ((l.takeWhile p).length + 1) = l.takeWhile p ++ [a] := by
  have hl := List.takeWhile_append_dropWhile (p := p) (l := l)
  rw [h] at hl
  generalize l.takeWhile p = w at hl ⊢
  subst hl
  exact ⟨List.drop_length_add_append 1, List.take_length_add_append 1⟩

theorem numberLength_point (rest : List Char) :
    numberLength ('.' :: rest) = (rest.takeWhile Char.isDigit).length + 1 := by
  simp [numberLength, Nat.add_comm]

theorem isWordChar_newline : isWordChar '\n' = false := by
  simp [isWordChar, Text.isAlphanumeric_of_lt (by decide : '\n'.val.toNat < 0x30)]

/-- A quote comes before the next line feed exactly when the characters a literal may hold stop
at a quote. -/
theorem quote_mem_line_iff (rest : List Char) :
    '"' ∈ rest.takeWhile (· != '\n') ↔ (rest.dropWhile inString).head? = some '"' := by
  induction rest with
  | nil => simp
  | cons d rest ih =>
    by_cases hq : d = '"'
    · subst hq
      simp [inString]
    · by_cases hn : d = '\n'
      · subst hn
        simp [inString]
      · simp [List.dropWhile_cons, inString, hq, hn, ih, Ne.symm hq]

/-- The quote that closes a literal stands where the characters a literal may hold stop. -/
theorem idxOf_quote_line {rest : List Char} (h : '"' ∈ rest.takeWhile (· != '\n')) :
    (rest.takeWhile (· != '\n')).idxOf '"' = (rest.takeWhile inString).length := by
  induction rest with
  | nil => simp at h
  | cons d rest ih =>
    by_cases hq : d = '"'
    · subst hq
      simp [inString]
    · by_cases hn : d = '\n'
      · subst hn
        simp at h
      · have hline : (d != '\n') = true := by simp [hn]
        have hlit : inString d = true := by simp [inString, hq, hn]
        rw [List.takeWhile_cons_of_pos (p := (· != '\n')) hline] at h ⊢
        rw [List.takeWhile_cons_of_pos hlit, List.idxOf_cons_ne _ hq, List.length_cons,
          ih ((List.mem_cons.mp h).resolve_left (Ne.symm hq))]

/-- A literal closed on its line: the scanner passes through the quote that closes it. -/
theorem step_quote_closed {rest : List Char} (hclosed : '"' ∈ rest.takeWhile (· != '\n'))
    (cur : Cursor) :
    step '"' rest cur =
      ⟨none, ('"' :: rest).drop ((rest.takeWhile (· != '\n')).idxOf '"' + 2),
        cur.advance (('"' :: rest).take ((rest.takeWhile (· != '\n')).idxOf '"' + 2)),
        false⟩ := by
  obtain ⟨t, ht⟩ := List.head?_eq_some_iff.mp ((quote_mem_line_iff rest).mp hclosed)
  obtain ⟨hdrop, htake⟩ := drop_take_of_dropWhile ht
  have hline : '\n' ∉ '"' :: (rest.takeWhile inString ++ ['"']) := by
    simp [newline_not_mem_takeWhile (p := inString) (by decide) rest]
  rw [step, if_neg (by decide), if_pos rfl]
  dsimp only
  rw [ht, List.head?_cons, if_pos rfl, idxOf_quote_line hclosed, List.drop_succ_cons,
    List.take_succ_cons, hdrop, htake, Cursor.advance_eq_skip hline]
  simp

/-- From a digit the scanner passes over the number at the head of its input: its digits, then a
point and digits if a point follows them. -/
theorem step_digit {c : Char} (hdigit : c.isDigit = true) (rest : List Char) (cur : Cursor) :
    step c rest cur =
      ⟨none, (c :: rest).drop (numberLength (c :: rest)),
        cur.advance ((c :: rest).take (numberLength (c :: rest))), false⟩ := by
  have hsemi : c ≠ ';' := fun h => absurd (h ▸ hdigit) (by decide)
  have hquote : c ≠ '"' := fun h => absurd (h ▸ hdigit) (by decide)
  have hpoint : c ≠ '.' := fun h => absurd (h ▸ hdigit) (by decide)
  have hc : c ≠ '\n' := fun h => absurd (h ▸ hdigit) (by decide)
  have hwhole : ((c :: rest).takeWhile Char.isDigit).length =
      (rest.takeWhile Char.isDigit).length + 1 := by
    simp [hdigit]
  rw [step, if_neg hsemi, if_neg hquote, if_neg (by simp [hpoint]), if_pos hdigit]
  dsimp only
  by_cases hfrac : (rest.dropWhile Char.isDigit).head? = some '.'
  · obtain ⟨frac, hafter⟩ := List.head?_eq_some_iff.mp hfrac
    obtain ⟨hdrop, htake⟩ := drop_take_of_dropWhile hafter
    have hlen : numberLength (c :: rest) =
        (rest.takeWhile Char.isDigit).length + 1 + (frac.takeWhile Char.isDigit).length + 1 := by
      unfold numberLength
      dsimp only
      rw [hwhole, List.drop_succ_cons, drop_length_takeWhile, hafter]
      show _ + 1 + 1 + _ = _
      omega
    have hline : '\n' ∉ c :: (rest.takeWhile Char.isDigit ++ ['.'] ++
        frac.takeWhile Char.isDigit) := by
      simp [Ne.symm hc, newline_not_mem_takeWhile (p := Char.isDigit) (by decide)]
    have hskip :
        (c :: (rest.takeWhile Char.isDigit ++ ['.'] ++ frac.takeWhile Char.isDigit)).length =
          (rest.takeWhile Char.isDigit).length + 1 + 1 + (frac.takeWhile Char.isDigit).length := by
      simp only [List.length_cons, List.length_append, List.length_nil]
      omega
    rw [hafter, List.head?_cons, if_pos rfl, List.tail_cons, hlen, List.drop_succ_cons,
      List.take_succ_cons, ← List.drop_drop, hdrop, drop_length_takeWhile, List.take_add, htake,
      hdrop, take_length_takeWhile, Cursor.advance_eq_skip hline, hskip]
  · have hlen : numberLength (c :: rest) = (rest.takeWhile Char.isDigit).length + 1 := by
      unfold numberLength
      dsimp only
      rw [hwhole, List.drop_succ_cons, drop_length_takeWhile]
      split
      · next frac hafter => simp [hafter] at hfrac
      · rfl
    rw [if_neg hfrac, hlen, List.drop_succ_cons, List.take_succ_cons, drop_length_takeWhile,
      take_length_takeWhile,
      Cursor.advance_eq_skip (newline_not_mem_cons_takeWhile (by decide) hc rest)]
    rfl

/-- One step of the scanner reads the piece that the reference cuts at the head of its input: it
leaves the input after the piece, moves the cursor over the piece's characters, and reports what
the piece yields, a word through the keyword machine. At an unterminated literal it stops. -/
theorem step_eq_cut (c : Char) (rest : List Char) (cur : Cursor) :
    step c rest cur =
      let taken := (c :: rest).take (cut c rest).2
      let left := (c :: rest).drop (cut c rest).2
      match (cut c rest).1 with
      | .skip => ⟨none, left, cur.advance taken, false⟩
      | .word =>
        ⟨(classify cur.afterEnd (String.ofList taken)).1.map fun w => .ok ⟨w, cur.line⟩, left,
          { cur.advance taken with afterEnd := (classify cur.afterEnd (String.ofList taken)).2 },
          false⟩
      | .illegal =>
        ⟨some (.error (.illegalCharacter c cur.line (cur.column + 1))), left, cur.advance taken,
          false⟩
      | .unterminated => ⟨some (.error (.unterminatedString cur.line)), [], cur, true⟩ := by
  unfold cut
  dsimp only
  split_ifs with hsemi hquote hclosed hnum hword hplain
  · -- a comment runs up to the line feed
    subst hsemi
    rw [step, if_pos rfl, Nat.add_comm 1, List.drop_succ_cons, List.take_succ_cons,
      drop_length_takeWhile, take_length_takeWhile,
      Cursor.advance_eq_skip (newline_not_mem_cons_takeWhile (by decide) (by decide) rest)]
    rfl
  · -- a literal closed on its line runs through the closing quote
    subst hquote
    exact step_quote_closed (List.contains_iff_mem.mp hclosed) cur
  · -- a literal left open: the scan stops
    subst hquote
    rw [List.contains_iff_mem] at hclosed
    rw [step, if_neg (by decide), if_pos rfl]
    dsimp only
    rw [if_neg (mt (quote_mem_line_iff rest).mpr hclosed)]
  · rcases hnum with hdigit | ⟨rfl, hnext⟩
    · -- a number from a digit
      exact step_digit hdigit rest cur
    · -- a number from a point: the point and the digits after it
      rw [step, if_neg (by decide), if_neg (by decide), if_pos (by simp [hnext])]
      rw [numberLength_point, List.drop_succ_cons, List.take_succ_cons, drop_length_takeWhile,
        take_length_takeWhile,
        Cursor.advance_eq_skip (newline_not_mem_cons_takeWhile (by decide) (by decide) rest)]
      rfl
  · -- a word: the longest run of word characters, through the keyword machine
    have hc : c ≠ '\n' := fun h => by rw [h, isWordChar_newline] at hword; cases hword
    rw [step, if_neg hsemi, if_neg hquote, if_neg (fun h => hnum (.inr (by simpa using h))),
      if_neg (fun h => hnum (.inl h)), if_pos hword]
    dsimp only
    rw [Nat.add_comm 1, List.drop_succ_cons, List.take_succ_cons, drop_length_takeWhile,
      take_length_takeWhile,
      Cursor.advance_eq_skip (newline_not_mem_cons_takeWhile isWordChar_newline hc rest)]
  · -- a blank or a punctuation character
    rw [step, if_neg hsemi, if_neg hquote, if_neg (fun h => hnum (.inr (by simpa using h))),
      if_neg (fun h => hnum (.inl h)), if_neg hword, if_pos (by simpa using hplain)]
    rfl
  · -- an illegal character
    rw [step, if_neg hsemi, if_neg hquote, if_neg (fun h => hnum (.inr (by simpa using h))),
      if_neg (fun h => hnum (.inl h)), if_neg hword, if_neg (by simpa using hplain)]
    rfl

/-! ## The keyword machine -/

/-- Matching keywords in lower case is matching them in upper case: the keywords are spelled in
upper case, and changing the case of a letter twice lands on the second case. -/
theorem keywordOf_eq_keyword? (text : String) : keywordOf text = keyword? text := by
  have hupper : keywords.all (fun kw => kw.toList.map Char.toUpper == kw.toList) := by decide
  unfold keywordOf keyword?
  refine List.find?_congr fun kw hkw => ?_
  have hkw : kw.toList.map Char.toUpper = kw.toList := by
    simpa using List.all_eq_true.mp hupper kw hkw
  rw [Bool.eq_iff_iff, decide_eq_true_iff, beq_iff_eq, ← String.toList_inj, String.toList_map]
  constructor
  · -- upper-casing both sides forgets the lower case
    intro h
    have := congrArg (List.map Char.toUpper) h
    simpa only [List.map_map, Function.comp_def, toUpper_toLower, hkw] using this
  · intro h
    rw [h]
    simp only [List.map_map, Function.comp_def, toLower_toUpper]

/-- The machine reads a word as the scanner's `classify` does. -/
theorem machine_word (b : Bool) (text : String) (line : Nat) (ts : List Token) :
    machine b (.word text line :: ts) =
      ((classify b text).1.map fun w => .ok ⟨w, line⟩).toList ++
        machine (classify b text).2 ts := by
  rw [machine, keywordOf_eq_keyword?, classify]
  rcases keyword? text with _ | kw
  · rfl
  · by_cases hend : kw = "END"
    · subst hend
      rfl
    · split
      · next h => exact absurd (Option.some.inj h) hend
      · next h =>
        cases h
        cases b <;> simp [Option.map_map, Function.comp_def]
      · next h => cases h

/-- From a cursor that stands where the text `before` puts it, the scanner yields what the keyword
machine, started from the cursor's flag, makes of the reference's tokens. -/
theorem scanChars_eq_machine (before cs : List Char) :
    ∀ cur : Cursor, cur.Tracks before →
      scanChars cs cur = machine cur.afterEnd (tokens before cs) := by
  -- along the reference's own recursion, one piece at a time; `Tracks` carries the positions
  fun_induction tokens before cs with
  | case1 before =>
    intro cur _
    rw [scanChars.eq_1, machine]
  | case2 before c rest piece taken ih =>
    intro cur hcur
    rw [scanChars.eq_2, step_eq_cut]
    simp only [piece, taken] at ih ⊢
    generalize cut c rest = r at ih ⊢
    obtain ⟨p, n⟩ := r
    dsimp only at ih ⊢
    cases p <;> simp only [Piece.token?, Option.toList_none, Option.toList_some, List.nil_append,
      List.singleton_append, Bool.false_eq_true, if_true, if_false, reduceCtorEq]
    · -- a skipped piece moves the cursor and keeps the flag
      rw [ih _ (hcur.advance _), Cursor.afterEnd_advance]
    · -- a word: the scanner classifies it on its first line, as the machine does
      rw [machine_word, ← hcur.1, ih]
      exact hcur.advance _
    · -- an illegal character, at the line and column the text before it gives
      rw [machine, ← hcur.1, ← hcur.2, ih _ (hcur.advance _), Cursor.afterEnd_advance]
    · -- an unterminated literal ends both
      rw [machine, machine, hcur.1]

/-- The scanner yields exactly what the reference yields on every text: the same identifiers and
declarators on the same lines, the same errors at the same lines and columns, in the same order,
and nothing after a literal left open. -/
theorem scan_eq_items (source : String) : scan source = items source.toList :=
  scanChars_eq_machine [] source.toList {} Cursor.tracks_start

set_option maxRecDepth 8000 in
/-- `Function` right after `End` declares nothing, and the flag is cleared by the next word. -/
example : items "End Function f\n?".toList =
    [.ok ⟨.ident "f", 1⟩, .error (.illegalCharacter '?' 2 1)] := by
  cbv

end Reference

end Lexicon.Source
