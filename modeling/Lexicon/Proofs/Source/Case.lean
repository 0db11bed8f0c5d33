import Mathlib
import Lexicon.Source.Scan
import Lexicon.Proofs.Text.Classes

/-!
# Scanning ignores the case of ASCII letters

Lowercasing the ASCII letters of a text changes nothing the scanner decides. Every test it makes
on a character gives the same answer on an upper-case letter as on its lower case: letters are
word characters, and no letter is a digit, a blank, a punctuation character, a quote, a comment
mark or a line feed. Keywords are matched by their upper case, which lowercasing keeps. So the
scan of the lowercased text is the scan of the text with each identifier's spelling replaced by
its canonical form, with the same lines, columns and errors.

* `toNat_toLower`, `toNat_toUpper`: the code point of a character after a change of case.
* `apply_toLower`: a test that every ASCII letter passes alike cannot tell a character from its
  lower case.
* `Source.classify_canonical`, `Source.step_toLower`: one word and one step of the scanner on
  lowercased input.
* `Source.scan_canonical`: the scan of a text's canonical form.
-/

namespace Lexicon

/-! ## The case of one character -/

theorem isUpper_iff {c : Char} : c.isUpper = true ↔ 65 ≤ c.toNat ∧ c.toNat ≤ 90 := by
  simp [Char.isUpper, UInt32.le_iff_toNat_le, ← Char.toNat_val]

theorem isLower_iff {c : Char} : c.isLower = true ↔ 97 ≤ c.toNat ∧ c.toNat ≤ 122 := by
  simp [Char.isLower, UInt32.le_iff_toNat_le, ← Char.toNat_val]

theorem isAlpha_iff {c : Char} :
    c.isAlpha = true ↔ 65 ≤ c.toNat ∧ c.toNat ≤ 90 ∨ 97 ≤ c.toNat ∧ c.toNat ≤ 122 := by
  rw [Char.isAlpha, Bool.or_eq_true, isUpper_iff, isLower_iff]

/-- Lowercasing moves the upper-case ASCII letters 32 code points up and keeps the rest. -/
theorem toNat_toLower (c : Char) :
    c.toLower.toNat = if 65 ≤ c.toNat ∧ c.toNat ≤ 90 then c.toNat + 32 else c.toNat := by
  unfold Char.toLower
  split
  · next h =>
    have hc : 65 ≤ c.toNat ∧ c.toNat ≤ 90 := by
      simpa [UInt32.le_iff_toNat_le, ← Char.toNat_val] using h
    rw [if_pos hc]
    show (c.val + ('a'.val - 'A'.val)).toNat = c.toNat + 32
    rw [UInt32.toNat_add, Char.toNat_val]
    have hd : ('a'.val - 'A'.val).toNat = 32 := rfl
    rw [hd]
    omega
  · next h =>
    have hc : ¬ (65 ≤ c.toNat ∧ c.toNat ≤ 90) := by
      simpa [UInt32.le_iff_toNat_le, ← Char.toNat_val] using h
    rw [if_neg hc]

/-- Uppercasing moves the lower-case ASCII letters 32 code points down and keeps the rest. -/
theorem toNat_toUpper (c : Char) :
    c.toUpper.toNat = if 97 ≤ c.toNat ∧ c.toNat ≤ 122 then c.toNat - 32 else c.toNat := by
  unfold Char.toUpper
  split
  · next h =>
    have hc : 97 ≤ c.toNat ∧ c.toNat ≤ 122 := by
      simpa [UInt32.le_iff_toNat_le, ← Char.toNat_val] using h
    rw [if_pos hc]
    show (c.val + ('A'.val - 'a'.val)).toNat = c.toNat - 32
    rw [UInt32.toNat_add, Char.toNat_val]
    have hd : ('A'.val - 'a'.val).toNat = 4294967264 := rfl
    rw [hd]
    omega
  · next h =>
    have hc : ¬ (97 ≤ c.toNat ∧ c.toNat ≤ 122) := by
      simpa [UInt32.le_iff_toNat_le, ← Char.toNat_val] using h
    rw [if_neg hc]

theorem toLower_toLower (c : Char) : c.toLower.toLower = c.toLower := by
  rw [← Char.toNat_inj, toNat_toLower, toNat_toLower c]
  split_ifs <;> omega

theorem toUpper_toLower (c : Char) : c.toLower.toUpper = c.toUpper := by
  rw [← Char.toNat_inj, toNat_toUpper, toNat_toUpper c, toNat_toLower]
  split_ifs <;> omega

theorem toLower_toUpper (c : Char) : c.toUpper.toLower = c.toLower := by
  rw [← Char.toNat_inj, toNat_toLower, toNat_toLower c, toNat_toUpper]
  split_ifs <;> omega

theorem toLower_toUpper_of_isLower {c : Char} (h : c.isLower = true) : c.toUpper.toLower = c := by
  rw [isLower_iff] at h
  rw [← Char.toNat_inj, toNat_toLower, toNat_toUpper]
  split_ifs <;> omega

/-- A test that gives every ASCII letter the same answer cannot tell a character from its lower
case: lowercasing changes upper-case letters only, and into letters. -/
theorem apply_toLower {β : Sort _} (p : Char → β) {b : β} (hp : ∀ c, c.isAlpha = true → p c = b)
    (c : Char) : p c.toLower = p c := by
  by_cases hu : 65 ≤ c.toNat ∧ c.toNat ≤ 90
  · have hl : c.toLower.toNat = c.toNat + 32 := by rw [toNat_toLower, if_pos hu]
    rw [hp c (isAlpha_iff.mpr (.inl hu)), hp c.toLower (isAlpha_iff.mpr (.inr (by omega)))]
  · have hl : c.toLower = c := by rw [← Char.toNat_inj, toNat_toLower, if_neg hu]
    rw [hl]

/-- Lowercasing keeps every character that is no ASCII letter. -/
theorem toLower_eq_iff {c d : Char} (hd : d.isAlpha = false) : c.toLower = d ↔ c = d := by
  have h := apply_toLower (fun x => decide (x = d)) (b := false)
    (fun x hx => decide_eq_false fun hxd => by rw [hxd] at hx; simp [hx] at hd) c
  simpa using h

/-- The canonical form of a text is the text of its lowercased characters. -/
theorem canonical_ofList (l : List Char) : canonical (String.ofList l) = String.ofList (l.map Char.toLower) := by
  rw [← String.toList_inj, canonical, String.toList_map, String.toList_ofList, String.toList_ofList]

theorem canonical_canonical (s : String) : canonical (canonical s) = canonical s := by
  rw [canonical, canonical, String.map_map]
  congr 1
  exact funext toLower_toLower

namespace Source

/-- A word with an identifier's spelling replaced by its canonical form. -/
def Word.canonical : Word → Word
  | .ident t => .ident (Lexicon.canonical t)
  | .declarator k => .declarator k

/-- A lexeme with its identifier's spelling replaced by its canonical form. -/
def Lexeme.canonical (l : Lexeme) : Lexeme := ⟨l.word.canonical, l.line⟩

/-! ## The tests of the scanner -/

theorem isWordChar_toLower (c : Char) : isWordChar c.toLower = isWordChar c :=
  apply_toLower isWordChar (b := true) (fun d hd => by
    simp [isWordChar, Text.isAlphanumeric_of_isAlpha hd]) c

theorem isDigit_toLower (c : Char) : c.toLower.isDigit = c.isDigit :=
  apply_toLower Char.isDigit (b := false) (fun d hd => by
    have := isAlpha_iff.mp hd
    simp only [Char.isDigit, Bool.and_eq_false_iff, decide_eq_false_iff_not, ge_iff_le,
      UInt32.le_iff_toNat_le, Char.toNat_val, not_le]
    have h0 : '0'.toNat = 48 := rfl
    have h9 : '9'.toNat = 57 := rfl
    omega) c

theorem inString_toLower (c : Char) : inString c.toLower = inString c :=
  apply_toLower inString (b := true) (fun d hd => by
    have h₁ : d ≠ '"' := fun h => by rw [h] at hd; exact absurd hd (by decide)
    have h₂ : d ≠ '\n' := fun h => by rw [h] at hd; exact absurd hd (by decide)
    simp [inString, h₁, h₂]) c

theorem ne_newline_toLower (c : Char) : (c.toLower != '\n') = (c != '\n') :=
  apply_toLower (· != '\n') (b := true) (fun d hd => by
    have h : d ≠ '\n' := fun h => by rw [h] at hd; exact absurd hd (by decide)
    simp [h]) c

theorem isBlank_toLower (c : Char) : Text.isBlank c.toLower = Text.isBlank c :=
  apply_toLower Text.isBlank (b := false) (fun _ hc => Text.isBlank_of_isAlpha hc) c

theorem punctuation_contains_toLower (c : Char) :
    punctuation.contains c.toLower = punctuation.contains c :=
  apply_toLower punctuation.contains (b := false) (fun d hd => by
    have hnone : punctuation.all (fun d => !d.isAlpha) = true := by decide
    refine Bool.eq_false_iff.mpr fun hm => ?_
    have := List.all_eq_true.mp hnone d (List.elem_iff.mp hm)
    simp [hd] at this) c

/-- A character that is no word character is no ASCII letter, so lowercasing keeps it. -/
theorem toLower_of_not_isWordChar {c : Char} (h : isWordChar c = false) : c.toLower = c := by
  rw [← Char.toNat_inj, toNat_toLower, if_neg]
  intro hu
  have : isWordChar c = true := by
    simp [isWordChar, Text.isAlphanumeric_of_isAlpha (isAlpha_iff.mpr (.inl hu))]
  simp [this] at h

theorem map_toLower_eq_some {o : Option Char} {d : Char} (hd : d.isAlpha = false) :
    o.map Char.toLower = some d ↔ o = some d := by
  cases o <;> simp [toLower_eq_iff hd]

/-! ## One word and one step -/

/-- Keywords are matched by their upper case, which lowercasing keeps. -/
theorem keyword?_canonical (t : String) : keyword? (Lexicon.canonical t) = keyword? t := by
  rw [keyword?, keyword?, Lexicon.canonical, String.map_map,
    show Char.toUpper ∘ Char.toLower = Char.toUpper from funext toUpper_toLower]

/-- A word in canonical form yields the canonical form of what the word yields. -/
theorem classify_canonical (b : Bool) (t : String) :
    classify b (Lexicon.canonical t) = ((classify b t).1.map Word.canonical, (classify b t).2) := by
  unfold classify
  rw [keyword?_canonical]
  have hdecl : Word.canonical ∘ Word.declarator = Word.declarator := rfl
  split
  · rfl
  · cases b <;> simp [Option.map_map, hdecl]
  · rfl

/-- One step on lowercased input reports the canonical form of what the step on the input
reports, leaves the rest of the input lowercased, and moves the cursor and stops alike. -/
theorem step_toLower (c : Char) (rest : List Char) (cur : Cursor) :
    step c.toLower (rest.map Char.toLower) cur =
      ⟨(step c rest cur).item.map (Except.map Lexeme.canonical),
        (step c rest cur).rest.map Char.toLower, (step c rest cur).cursor,
        (step c rest cur).stop⟩ := by
  have hsemi : (c.toLower = ';') = (c = ';') := propext (toLower_eq_iff (by decide))
  have hquote : (c.toLower = '"') = (c = '"') := propext (toLower_eq_iff (by decide))
  have hdot : (c.toLower = '.') = (c = '.') := propext (toLower_eq_iff (by decide))
  unfold step
  simp only [hsemi, hquote, hdot, isDigit_toLower, isWordChar_toLower, isBlank_toLower,
    punctuation_contains_toLower, List.takeWhile_map, List.dropWhile_map, List.head?_map,
    Option.any_map, List.length_map, Function.comp_def, inString_toLower, ne_newline_toLower,
    map_toLower_eq_some (show '"'.isAlpha = false by decide),
    map_toLower_eq_some (show '.'.isAlpha = false by decide), ← List.map_tail, ← List.map_cons,
    ← canonical_ofList, classify_canonical]
  split_ifs
  -- a comment, a string literal or a number: the two steps agree as they stand
  iterate 6 rfl
  · -- a word: its canonical spelling goes through the keyword machine
    simp only [Option.map_map]
    rfl
  -- a blank, a punctuation character or an illegal one: no letter, so lowercasing kept it
  · rw [toLower_of_not_isWordChar (Bool.eq_false_iff.mpr ‹_›)]
    rfl
  · rw [toLower_of_not_isWordChar (Bool.eq_false_iff.mpr ‹_›)]
    rfl

/-- The scan of lowercased input is the scan of the input with every identifier in canonical
form, step by step. -/
theorem scanChars_toLower (cs : List Char) (cur : Cursor) :
    scanChars (cs.map Char.toLower) cur = (scanChars cs cur).map (Except.map Lexeme.canonical) := by
  fun_induction scanChars cs cur with
  | case1 cur => simp [scanChars]
  | case2 c rest cur s ih =>
    rw [List.map_cons, scanChars.eq_2, step_toLower, List.map_append]
    -- the lowercased step reports the canonical item, stops alike and leaves the rest lowercased
    split
    · simp only [Option.toList_map, List.map_nil, List.append_nil]
      rfl
    · simp only [Option.toList_map]
      exact congrArg (_ ++ ·) ih

/-- The scan of a text's canonical form is the scan of the text with every identifier's spelling
in canonical form: the same lexemes, lines, errors and columns. -/
theorem scan_canonical (source : String) :
    scan (Lexicon.canonical source) = (scan source).map (Except.map Lexeme.canonical) := by
  rw [scan, scan, Lexicon.canonical, String.toList_map, scanChars_toLower]

end Source

end Lexicon
