import Mathlib
import Lexicon.Text.Alphanumeric
import Lexicon.Text.Blank

/-!
# Membership in a character class

A class keeps its code points as ranges, and `CharClass.contains` looks a code point up by binary
search. When the ranges are in order and apart, the search finds a code point exactly when some
range holds it (`CharClass.contains_iff`). The alphanumeric and the blank tables are both in
order, which a kernel check of adjacent ranges settles once; so every ASCII letter is
alphanumeric and none is blank.

* `CharClass.Apart`, `CharClass.containsBetween_iff`, `CharClass.contains_iff`: the search.
* `Text.isAlphanumeric_of_isAlpha`, `Text.isBlank_of_isAlpha`: the classes of ASCII letters.
-/

namespace Lexicon.Text

namespace CharClass

/-- Two ranges in order and apart: each starts at most where it ends, and the first ends below the
start of the second. -/
def Apart (r s : UInt32 × UInt32) : Prop := r.1 ≤ r.2 ∧ r.2 < s.1 ∧ s.1 ≤ s.2

instance : DecidableRel Apart := fun _ _ => inferInstanceAs (Decidable (_ ∧ _ ∧ _))

instance : Trans Apart Apart Apart where
  trans := fun ⟨h₁, h₂, h₃⟩ ⟨_, h₅, h₆⟩ =>
    ⟨h₁, UInt32.lt_of_lt_of_le h₂ (UInt32.le_of_lt (UInt32.lt_of_le_of_lt h₃ h₅)), h₆⟩

variable {k : CharClass} {c : UInt32}

/-- The binary search between positions `lo` and `hi` of ranges in order finds `c` exactly when one
of the ranges there holds it. -/
theorem containsBetween_iff (hk : k.ranges.toList.Pairwise Apart) {lo hi : Nat}
    (hhi : hi ≤ k.ranges.size) :
    k.containsBetween c lo hi = true ↔
      ∃ (i : Nat) (h : i < k.ranges.size), lo ≤ i ∧ i < hi ∧ k.ranges[i].1 ≤ c ∧ c ≤ k.ranges[i].2 := by
  have hpair := List.pairwise_iff_getElem.mp hk
  fun_induction k.containsBetween c lo hi with
  | case1 lo hi hlt hnone =>
    -- the middle position lies below `hi`, so it has a range
    have : (lo + hi) / 2 < k.ranges.size := by omega
    simp [Array.getElem?_eq_getElem this] at hnone
  | case2 lo hi hlt first last hmid hc ih =>
    have hm : (lo + hi) / 2 < k.ranges.size := by omega
    rw [Array.getElem?_eq_getElem hm, Option.some.injEq] at hmid
    refine (ih (by omega)).trans ⟨?_, ?_⟩
    · rintro ⟨i, h, hlo, hi', hin⟩
      exact ⟨i, h, hlo, by omega, hin⟩
    · rintro ⟨i, h, hlo, hi', hfirst, hlast⟩
      refine ⟨i, h, hlo, ?_, hfirst, hlast⟩
      -- the ranges from the middle on start above `c`
      refine Nat.lt_of_not_le fun hle => ?_
      rcases Nat.lt_or_eq_of_le hle with hlt' | heq
      · have := hpair _ _ hm h hlt'
        simp only [Array.getElem_toList, hmid, Apart] at this
        exact absurd hfirst (UInt32.not_le.mpr (UInt32.lt_of_lt_of_le hc
          (UInt32.le_of_lt (UInt32.lt_of_le_of_lt this.1 this.2.1))))
      · subst heq
        simp only [hmid] at hfirst
        exact absurd hfirst (UInt32.not_le.mpr hc)
  | case3 lo hi hlt first last hmid hc hc' ih =>
    have hm : (lo + hi) / 2 < k.ranges.size := by omega
    rw [Array.getElem?_eq_getElem hm, Option.some.injEq] at hmid
    refine (ih hhi).trans ⟨?_, ?_⟩
    · rintro ⟨i, h, hlo, hi', hin⟩
      exact ⟨i, h, by omega, hi', hin⟩
    · rintro ⟨i, h, hlo, hi', hfirst, hlast⟩
      refine ⟨i, h, ?_, hi', hfirst, hlast⟩
      -- the ranges up to the middle end below `c`
      refine Nat.lt_of_not_le fun hle => ?_
      rcases Nat.lt_or_eq_of_le hle with hlt' | heq
      · have := hpair _ _ h hm hlt'
        simp only [Array.getElem_toList, hmid, Apart] at this
        exact absurd hlast (UInt32.not_le.mpr (UInt32.lt_of_lt_of_le
          (UInt32.lt_of_lt_of_le this.2.1 this.2.2) (UInt32.le_of_lt hc')))
      · subst heq
        simp only [hmid] at hlast
        exact absurd hlast (UInt32.not_le.mpr hc')
  | case4 lo hi hlt first last hmid hc hc' =>
    have hm : (lo + hi) / 2 < k.ranges.size := by omega
    rw [Array.getElem?_eq_getElem hm, Option.some.injEq] at hmid
    simp only [true_iff]
    exact ⟨(lo + hi) / 2, hm, by omega, by omega, by simpa [hmid] using hc,
      by simpa [hmid] using hc'⟩
  | case5 lo hi hge =>
    simp only [Bool.false_eq_true, false_iff, not_exists, not_and]
    intro i h hlo hi'
    omega

/-- A class whose ranges are in order holds a character exactly when one of its ranges does. -/
theorem contains_iff (hk : k.ranges.toList.Pairwise Apart) (ch : Char) :
    k.contains ch = true ↔ ∃ r ∈ k.ranges.toList, r.1 ≤ ch.val ∧ ch.val ≤ r.2 := by
  rw [contains, containsBetween_iff hk (Nat.le_refl _)]
  constructor
  · rintro ⟨i, h, -, -, hin⟩
    exact ⟨k.ranges[i], Array.getElem_mem_toList h, hin⟩
  · rintro ⟨r, hr, hin⟩
    obtain ⟨i, h, rfl⟩ := List.getElem_of_mem hr
    exact ⟨i, by simpa using h, Nat.zero_le _, by simpa using h, by simpa using hin⟩

end CharClass

/-- The alphanumeric ranges are in order and apart. -/
theorem alphanumeric_ordered : alphanumeric.ranges.toList.Pairwise CharClass.Apart :=
  List.IsChain.pairwise (by decide +kernel)

/-- The blank ranges are in order and apart. -/
theorem blank_ordered : blank.ranges.toList.Pairwise CharClass.Apart :=
  List.IsChain.pairwise (by decide +kernel)

/-- The code points of ASCII letters: `A` to `Z` and `a` to `z`. -/
theorem val_of_isAlpha {c : Char} (h : c.isAlpha = true) :
    65 ≤ c.val.toNat ∧ c.val.toNat ≤ 90 ∨ 97 ≤ c.val.toNat ∧ c.val.toNat ≤ 122 := by
  simp only [Char.isAlpha, Char.isUpper, Char.isLower, Bool.or_eq_true, Bool.and_eq_true,
    decide_eq_true_eq, ge_iff_le, UInt32.le_iff_toNat_le] at h
  exact h

/-- Every ASCII letter is alphanumeric: the upper-case letters are the second range of the table,
the lower-case ones the third. -/
theorem isAlphanumeric_of_isAlpha {c : Char} (h : c.isAlpha = true) : isAlphanumeric c = true := by
  rw [isAlphanumeric, CharClass.contains_iff alphanumeric_ordered]
  rcases val_of_isAlpha h with hu | hl
  · exact ⟨(0x41, 0x5A), List.mem_of_getElem? (i := 1) rfl,
      by simpa [UInt32.le_iff_toNat_le] using hu⟩
  · exact ⟨(0x61, 0x7A), List.mem_of_getElem? (i := 2) rfl,
      by simpa [UInt32.le_iff_toNat_le] using hl⟩

/-- No code point below that of `0` is alphanumeric: every range starts at `0` or above. -/
theorem isAlphanumeric_of_lt {c : Char} (h : c.val.toNat < 0x30) : isAlphanumeric c = false := by
  have hstart : alphanumeric.ranges.toList.all (fun r => decide (0x30 ≤ r.1)) := by
    decide +kernel
  refine Bool.eq_false_iff.mpr fun ha => ?_
  obtain ⟨r, hr, h₁, -⟩ := (CharClass.contains_iff alphanumeric_ordered c).mp ha
  have hr' := List.all_eq_true.mp hstart r hr
  simp only [decide_eq_true_eq, UInt32.le_iff_toNat_le] at hr'
  rw [UInt32.le_iff_toNat_le] at h₁
  simp at hr'
  omega

/-- No ASCII letter is blank: every blank range lies below `A` or above `z`. -/
theorem isBlank_of_isAlpha {c : Char} (h : c.isAlpha = true) : isBlank c = false := by
  have hout : blank.ranges.toList.all (fun r => decide (r.2 < 0x41) || decide (0x7A < r.1)) :=
    by decide +kernel
  refine Bool.eq_false_iff.mpr fun hb => ?_
  obtain ⟨r, hr, h₁, h₂⟩ := (CharClass.contains_iff blank_ordered c).mp hb
  have hr' := List.all_eq_true.mp hout r hr
  simp only [Bool.or_eq_true, decide_eq_true_eq, UInt32.lt_iff_toNat_lt] at hr'
  rw [UInt32.le_iff_toNat_le] at h₁ h₂
  have := val_of_isAlpha h
  rcases hr' with h' | h' <;> simp at h' <;> omega

end Lexicon.Text
