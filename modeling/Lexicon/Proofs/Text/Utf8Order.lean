import Mathlib
import Lexicon.Hash

/-!
# UTF-8 keeps the order of strings

Strings compare character by character, by code point. Their UTF-8 encodings, compared byte by
byte, come in the same order. Of two characters, the one with the smaller code point has the
smaller first byte when its encoding is shorter (the first byte tells the length), and the smaller
byte where the two encodings first differ when they are as long; and no character's encoding is
the beginning of another's. So names sorted as strings are sorted bytewise.

* `Utf8.Parts`: two byte sequences that agree up to a byte, where the first has the smaller one.
* `Utf8.encodeChar_parts`: the encodings of two characters part at a byte of the smaller one.
* `Utf8.utf8Bytes_lt_iff`: strings compare as their encodings do.
-/

namespace Lexicon

namespace Utf8

/-- Two byte sequences that agree up to some position, where the first has the smaller byte. -/
def Parts (l m : List UInt8) : Prop :=
  ∃ p x y r s, l = p ++ x :: r ∧ m = p ++ y :: s ∧ x < y

theorem parts_head {x y : UInt8} {r s : List UInt8} (h : x < y) : Parts (x :: r) (y :: s) :=
  ⟨[], x, y, r, s, rfl, rfl, h⟩

theorem parts_cons (x : UInt8) {r s : List UInt8} (h : Parts r s) : Parts (x :: r) (x :: s) := by
  obtain ⟨p, y, z, r', s', rfl, rfl, hyz⟩ := h
  exact ⟨x :: p, y, z, r', s', rfl, rfl, hyz⟩

/-- Sequences that part stay in order whatever follows them. -/
theorem Parts.lex_append {l m : List UInt8} (h : Parts l m) (t t' : List UInt8) :
    List.Lex (· < ·) (l ++ t) (m ++ t') := by
  obtain ⟨p, x, y, r, s, rfl, rfl, hxy⟩ := h
  induction p with
  | nil => exact .rel hxy
  | cons b p ih => exact .cons ih

theorem lex_append_left {l m : List UInt8} (p : List UInt8) (h : List.Lex (· < ·) l m) :
    List.Lex (· < ·) (p ++ l) (p ++ m) := by
  induction p with
  | nil => exact h
  | cons b p ih => exact .cons ih

/-- Below 256 the bytes are ordered as their values. -/
theorem ofNat_lt {a b : Nat} (hb : b < 256) (h : a < b) : UInt8.ofNat a < UInt8.ofNat b := by
  rw [UInt8.lt_iff_toNat_lt, UInt8.toNat_ofNat', UInt8.toNat_ofNat']
  omega

/-- The encodings of two characters part at a byte of the smaller character. -/
theorem encodeChar_parts {c d : Char} (h : c < d) :
    Parts (String.utf8EncodeChar c) (String.utf8EncodeChar d) := by
  have hlt : c.val.toNat < d.val.toNat := h
  have hvalid : d.val.toNat < 0x110000 := by
    rcases d.valid with hd | ⟨-, hd⟩ <;> omega
  unfold String.utf8EncodeChar
  generalize c.val.toNat = v at hlt ⊢
  generalize d.val.toNat = w at hlt hvalid ⊢
  -- split by the length of the encoding of `d`, then of `c`
  by_cases hw1 : w ≤ 0x7f
  · -- both one byte
    simp only [if_pos hw1, if_pos (show v ≤ 0x7f by omega)]
    exact parts_head (ofNat_lt (by omega) hlt)
  by_cases hv1 : v ≤ 0x7f
  · -- a byte below 0x80 against a leading byte from 0xc0
    simp only [if_pos hv1, if_neg hw1]
    repeat' split
    all_goals exact parts_head (ofNat_lt (by omega) (by omega))
  simp only [if_neg hv1, if_neg hw1]
  by_cases hw2 : w ≤ 0x7ff
  · -- both two bytes: the higher six bits, then the lower six
    simp only [if_pos hw2, if_pos (show v ≤ 0x7ff by omega)]
    by_cases h1 : v / 64 < w / 64
    · exact parts_head (ofNat_lt (by omega) (by omega))
    · rw [show v / 64 = w / 64 by omega]
      exact parts_cons _ (parts_head (ofNat_lt (by omega) (by omega)))
  by_cases hv2 : v ≤ 0x7ff
  · simp only [if_pos hv2, if_neg hw2]
    split
    all_goals exact parts_head (ofNat_lt (by omega) (by omega))
  simp only [if_neg hv2, if_neg hw2]
  by_cases hw3 : w ≤ 0xffff
  · -- both three bytes
    simp only [if_pos hw3, if_pos (show v ≤ 0xffff by omega)]
    by_cases h1 : v / 4096 < w / 4096
    · exact parts_head (ofNat_lt (by omega) (by omega))
    rw [show v / 4096 = w / 4096 by omega]
    refine parts_cons _ ?_
    by_cases h2 : v / 64 < w / 64
    · exact parts_head (ofNat_lt (by omega) (by omega))
    rw [show v / 64 = w / 64 by omega]
    exact parts_cons _ (parts_head (ofNat_lt (by omega) (by omega)))
  by_cases hv3 : v ≤ 0xffff
  · simp only [if_pos hv3, if_neg hw3]
    exact parts_head (ofNat_lt (by omega) (by omega))
  -- both four bytes
  simp only [if_neg hv3, if_neg hw3]
  by_cases h1 : v / 262144 < w / 262144
  · exact parts_head (ofNat_lt (by omega) (by omega))
  rw [show v / 262144 = w / 262144 by omega]
  refine parts_cons _ ?_
  by_cases h2 : v / 4096 < w / 4096
  · exact parts_head (ofNat_lt (by omega) (by omega))
  rw [show v / 4096 = w / 4096 by omega]
  refine parts_cons _ ?_
  by_cases h3 : v / 64 < w / 64
  · exact parts_head (ofNat_lt (by omega) (by omega))
  rw [show v / 64 = w / 64 by omega]
  exact parts_cons _ (parts_head (ofNat_lt (by omega) (by omega)))

theorem encodeChar_ne_nil (c : Char) : String.utf8EncodeChar c ≠ [] := by
  intro h
  have := String.length_utf8EncodeChar c
  rw [h] at this
  have := Char.utf8Size_pos c
  simp_all

/-- Character sequences in order encode to byte sequences in order. -/
theorem encode_lt {cs ds : List Char} (h : cs < ds) :
    cs.flatMap String.utf8EncodeChar < ds.flatMap String.utf8EncodeChar := by
  induction h with
  | nil =>
    next d ds =>
    obtain ⟨b, bs, hb⟩ := List.exists_cons_of_ne_nil (encodeChar_ne_nil d)
    simp only [List.flatMap_nil, List.flatMap_cons, hb, List.cons_append]
    exact .nil
  | rel hcd =>
    simp only [List.flatMap_cons]
    exact (encodeChar_parts hcd).lex_append _ _
  | cons _ ih =>
    simp only [List.flatMap_cons]
    exact lex_append_left _ ih

theorem utf8Bytes_eq_flatMap (s : String) :
    utf8Bytes s = s.toList.flatMap String.utf8EncodeChar := by
  rw [utf8Bytes, String.toUTF8_eq_toByteArray, ← String.utf8Encode_toList, List.utf8Encode,
    List.toList_data_toByteArray]

/-- A string smaller than another, character by character, has a bytewise smaller encoding. -/
theorem utf8Bytes_lt {s t : String} (h : s < t) : utf8Bytes s < utf8Bytes t := by
  rw [utf8Bytes_eq_flatMap, utf8Bytes_eq_flatMap]
  exact encode_lt h

/-- Distinct strings have distinct encodings. -/
theorem utf8Bytes_injective : Function.Injective utf8Bytes := by
  intro s t h
  have hdata : s.toUTF8.data = t.toUTF8.data := Array.toList_inj.mp h
  have hbytes : s.toByteArray = t.toByteArray := by
    rw [← String.toUTF8_eq_toByteArray, ← String.toUTF8_eq_toByteArray]
    cases hs : s.toUTF8
    cases ht : t.toUTF8
    simp_all
  exact String.toByteArray_inj.mp hbytes

/-- Of two distinct strings, an encoding at most the other's is below it. -/
theorem utf8Bytes_lt_of_le {s t : String} (h : utf8Bytes s ≤ utf8Bytes t) (hne : s ≠ t) :
    utf8Bytes s < utf8Bytes t := by
  refine Classical.byContradiction fun hlt => hne (utf8Bytes_injective ?_)
  exact List.le_antisymm h (List.not_lt.mp hlt)

/-- Strings compare as their encodings do. -/
theorem utf8Bytes_lt_iff {s t : String} : utf8Bytes s < utf8Bytes t ↔ s < t := by
  refine ⟨fun h => ?_, utf8Bytes_lt⟩
  rcases lt_trichotomy s t with hst | rfl | hts
  · exact hst
  · exact absurd h (List.lt_irrefl _)
  · exact absurd (utf8Bytes_lt hts) (List.lt_asymm h)

end Utf8

end Lexicon
