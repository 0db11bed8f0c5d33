import Mathlib
import Lexicon.Hash

/-!
# Names the polynomial key keeps apart

The polynomial key wraps modulo 2^64, so keys do collide; two kinds of names never do.

* `keyFrom_injective`: each step of the key is injective in the key so far, because 113 is odd
  and so has an inverse modulo 2^64.
* `polyKey_ne_of_single_difference`: byte sequences of one length that differ in exactly one
  position have different keys, at every length.
* `toNat_polyKey_of_short`: up to nine bytes the key does not wrap; it is the base-113 value of
  the bytes, `natKey`.
* `polyKey_injOn_shortWord`: sequences of at most nine digits, underscores and lowercase ASCII
  letters have distinct keys. Their bytes lie between 48 and 122, less than 113 apart, so the
  remainder of the value modulo 113 gives the last byte, and only the empty sequence has value 0.
-/

namespace Lexicon

/-! ## The key as a fold from any start -/

/-- The key of `bs` continued from the key `k`. -/
def keyFrom (k : Key) (bs : List UInt8) : Key :=
  bs.foldl (fun k b => k * keyMultiplier + b.toUInt64) k

theorem polyKey_eq_keyFrom (bs : List UInt8) : polyKey bs = keyFrom 0 bs := rfl

@[simp] theorem keyFrom_nil (k : Key) : keyFrom k [] = k := rfl

@[simp] theorem keyFrom_cons (k : Key) (b : UInt8) (bs : List UInt8) :
    keyFrom k (b :: bs) = keyFrom (k * keyMultiplier + b.toUInt64) bs := rfl

theorem keyFrom_append (k : Key) (u w : List UInt8) :
    keyFrom k (u ++ w) = keyFrom (keyFrom k u) w := by
  simp [keyFrom, List.foldl_append]

/-- The inverse of the multiplier modulo 2^64. -/
theorem keyMultiplier_mul_inverse : keyMultiplier * 10447713457676206225 = 1 := by decide

/-- Multiplying by the multiplier loses nothing. -/
theorem mul_keyMultiplier_injective : Function.Injective (· * keyMultiplier) := by
  intro x y h
  calc x = x * keyMultiplier * 10447713457676206225 := by
        rw [UInt64.mul_assoc, keyMultiplier_mul_inverse, UInt64.mul_one]
    _ = y * keyMultiplier * 10447713457676206225 := by simp only at h; rw [h]
    _ = y := by rw [UInt64.mul_assoc, keyMultiplier_mul_inverse, UInt64.mul_one]

/-- Continuing two keys by the same bytes keeps them apart. -/
theorem keyFrom_injective (bs : List UInt8) : Function.Injective (keyFrom · bs) := by
  induction bs with
  | nil => exact fun _ _ h => h
  | cons b bs ih =>
    intro x y h
    have hstep : x * keyMultiplier + b.toUInt64 = y * keyMultiplier + b.toUInt64 := ih h
    exact mul_keyMultiplier_injective ((UInt64.add_left_inj _).mp hstep)

/-! ## One changed byte -/

/-- The key of a sequence cut at one byte: the prefix's key, the byte, and the rest. -/
theorem polyKey_append_cons (u w : List UInt8) (c : UInt8) :
    polyKey (u ++ c :: w) = keyFrom (polyKey u * keyMultiplier + c.toUInt64) w := by
  rw [polyKey_eq_keyFrom, keyFrom_append, keyFrom_cons, ← polyKey_eq_keyFrom]

/-- Two sequences of one length that differ in exactly the position `i` are one prefix, two
different bytes and one suffix. -/
theorem exists_split_of_single_difference {a b : List UInt8} (hlen : a.length = b.length)
    {i : Nat} (hdiff : ∀ j, a[j]? ≠ b[j]? ↔ j = i) :
    ∃ u w c d, a = u ++ c :: w ∧ b = u ++ d :: w ∧ c ≠ d := by
  have hsame : ∀ j, j ≠ i → a[j]? = b[j]? := fun j hj => not_not.mp fun h => hj ((hdiff j).mp h)
  have hne : a[i]? ≠ b[i]? := (hdiff i).mpr rfl
  -- the differing position lies inside both sequences
  have hi : i < a.length := by
    by_contra hge
    exact hne (by rw [List.getElem?_eq_none (by omega), List.getElem?_eq_none (by omega)])
  have hib : i < b.length := hlen ▸ hi
  have htake : a.take i = b.take i := List.ext_getElem? fun j => by
    simp only [List.getElem?_take]
    split
    · exact hsame j (by omega)
    · rfl
  have hdrop : a.drop (i + 1) = b.drop (i + 1) := List.ext_getElem? fun j => by
    simp only [List.getElem?_drop]
    exact hsame _ (by omega)
  refine ⟨a.take i, a.drop (i + 1), a[i], b[i], ?_, ?_, ?_⟩
  · rw [List.getElem_cons_drop, List.take_append_drop]
  · rw [htake, hdrop, List.getElem_cons_drop, List.take_append_drop]
  · intro h
    exact hne (by rw [List.getElem?_eq_getElem hi, List.getElem?_eq_getElem hib, h])

/-- Byte sequences of one length that differ in exactly one position have different keys, for
every length: the key wraps, but every step of it is injective. -/
theorem polyKey_ne_of_single_difference {a b : List UInt8} (hlen : a.length = b.length) {i : Nat}
    (hdiff : ∀ j, a[j]? ≠ b[j]? ↔ j = i) : polyKey a ≠ polyKey b := by
  obtain ⟨u, w, c, d, rfl, rfl, hcd⟩ := exists_split_of_single_difference hlen hdiff
  intro h
  rw [polyKey_append_cons, polyKey_append_cons] at h
  have hbyte := (UInt64.add_right_inj _).mp (keyFrom_injective w h)
  exact hcd (UInt8.toUInt64_inj.mp hbyte)

/-- The bytes of `abc` and `abd`, the last of three changed. -/
theorem polyKey_ne_of_single_difference_last :
    ([97, 98, 99] : List UInt8).length = ([97, 98, 100] : List UInt8).length ∧
      (∀ j, ([97, 98, 99] : List UInt8)[j]? ≠ ([97, 98, 100] : List UInt8)[j]? ↔ j = 2) ∧
      polyKey [97, 98, 99] ≠ polyKey [97, 98, 100] := by
  have hlen : ([97, 98, 99] : List UInt8).length = ([97, 98, 100] : List UInt8).length := rfl
  have hdiff : ∀ j, ([97, 98, 99] : List UInt8)[j]? ≠ ([97, 98, 100] : List UInt8)[j]? ↔ j = 2 := by
    intro j
    match j with
    | 0 | 1 | 2 => decide
    | j + 3 => simp
  exact ⟨hlen, hdiff, polyKey_ne_of_single_difference hlen hdiff⟩

/-! ## Short sequences: the key without wrapping -/

/-- The base-113 value of a byte sequence, without wrapping. -/
def natKey (bs : List UInt8) : Nat := bs.foldl (fun k b => k * 113 + b.toNat) 0

@[simp] theorem natKey_nil : natKey [] = 0 := rfl

theorem natKey_append_singleton (bs : List UInt8) (b : UInt8) :
    natKey (bs ++ [b]) = natKey bs * 113 + b.toNat := by
  simp [natKey]

theorem polyKey_append_singleton (bs : List UInt8) (b : UInt8) :
    polyKey (bs ++ [b]) = polyKey bs * keyMultiplier + b.toUInt64 := by
  simp [polyKey]

/-- The key is the value reduced modulo 2^64. -/
theorem toNat_polyKey (bs : List UInt8) : (polyKey bs).toNat = natKey bs % 2 ^ 64 := by
  induction bs using List.reverseRecOn with
  | nil => rfl
  | append_singleton bs b ih =>
    rw [polyKey_append_singleton, natKey_append_singleton, UInt64.toNat_add, UInt64.toNat_mul, ih,
      UInt8.toNat_toUInt64, Nat.mod_mul_mod, Nat.mod_add_mod]
    rfl

/-- The value of `n` bytes stays below `255 / 112 * 113 ^ n`. -/
theorem natKey_bound (bs : List UInt8) : 112 * natKey bs + 255 ≤ 255 * 113 ^ bs.length := by
  induction bs using List.reverseRecOn with
  | nil => simp
  | append_singleton bs b ih =>
    have hb : b.toNat < 256 := b.toNat_lt
    rw [natKey_append_singleton, List.length_append, List.length_singleton, pow_succ]
    nlinarith

/-- Up to nine bytes the value fits a 64-bit word. -/
theorem natKey_lt_of_length_le {bs : List UInt8} (h : bs.length ≤ 9) : natKey bs < 2 ^ 64 := by
  have hpow : 113 ^ bs.length ≤ 113 ^ 9 := Nat.pow_le_pow_right (by decide) h
  have := natKey_bound bs
  omega

theorem toNat_polyKey_of_short {bs : List UInt8} (h : bs.length ≤ 9) :
    (polyKey bs).toNat = natKey bs := by
  rw [toNat_polyKey, Nat.mod_eq_of_lt (natKey_lt_of_length_le h)]

/-- Values of sequences whose bytes all lie between 48 and 122 are distinct. -/
theorem natKey_injOn {a b : List UInt8} (ha : ∀ x ∈ a, 48 ≤ x.toNat ∧ x.toNat ≤ 122)
    (hb : ∀ x ∈ b, 48 ≤ x.toNat ∧ x.toNat ≤ 122) (h : natKey a = natKey b) : a = b := by
  -- peel the last byte: it is the value's remainder modulo 113
  induction a using List.reverseRecOn generalizing b with
  | nil =>
    rcases List.eq_nil_or_concat b with rfl | ⟨b', y, rfl⟩
    · rfl
    · have hy := hb y (by simp)
      rw [natKey_nil, List.concat_eq_append, natKey_append_singleton] at h
      omega
  | append_singleton a' x ih =>
    have hx := ha x (by simp)
    rcases List.eq_nil_or_concat b with rfl | ⟨b', y, rfl⟩
    · rw [natKey_nil, natKey_append_singleton] at h
      omega
    · rw [List.concat_eq_append] at hb h ⊢
      have hy := hb y (by simp)
      rw [natKey_append_singleton, natKey_append_singleton] at h
      have hxy : x.toNat = y.toNat := by omega
      have hval : natKey a' = natKey b' := by omega
      rw [ih (fun z hz => ha z (by simp [hz])) (fun z hz => hb z (by simp [hz])) hval,
        UInt8.toNat_inj.mp hxy]

/-! ## Canonical ASCII identifiers -/

/-- A byte of a canonical ASCII identifier: a digit (48 to 57), an underscore (95) or a
lowercase ASCII letter (97 to 122). -/
def isWordByte (b : UInt8) : Bool :=
  (48 ≤ b.toNat && b.toNat ≤ 57) || b.toNat == 95 || (97 ≤ b.toNat && b.toNat ≤ 122)

/-- A canonical ASCII identifier of at most nine bytes. -/
def shortWord (bs : List UInt8) : Bool := bs.length ≤ 9 && bs.all isWordByte

theorem range_of_isWordByte {b : UInt8} (h : isWordByte b = true) :
    48 ≤ b.toNat ∧ b.toNat ≤ 122 := by
  simp only [isWordByte, Bool.or_eq_true, Bool.and_eq_true, decide_eq_true_eq, beq_iff_eq] at h
  omega

/-- Canonical ASCII identifiers of at most nine bytes have distinct keys. -/
theorem polyKey_injOn_shortWord {a b : List UInt8} (ha : shortWord a = true)
    (hb : shortWord b = true) (h : polyKey a = polyKey b) : a = b := by
  simp only [shortWord, Bool.and_eq_true, decide_eq_true_eq, List.all_eq_true] at ha hb
  have hval : natKey a = natKey b := by
    rw [← toNat_polyKey_of_short ha.1, ← toNat_polyKey_of_short hb.1, h]
  exact natKey_injOn (fun x hx => range_of_isWordByte (ha.2 x hx))
    (fun x hx => range_of_isWordByte (hb.2 x hx)) hval

end Lexicon
