/-!
# Slices of a text by byte offsets

A text is stored as UTF-8, and a piece of it is named by two byte offsets. Slicing is only
defined between character boundaries, in order; anywhere else it is a fault.

* `slice?`: the text between two byte offsets, if both lie on character boundaries in order.
* `byteOffset?`: the byte offset of the first character that a predicate accepts.
* `slice?_eq_some_iff`: a slice is a piece of the text with its offsets.
-/

namespace Lexicon.Text

/-- The text between the byte offsets `a` and `b` of `text`: `none` unless both lie on character
boundaries of `text` and `a ≤ b`. -/
def slice? (text : String) (a b : Nat) : Option String :=
  if h : (String.Pos.Raw.mk a).IsValid text ∧ (String.Pos.Raw.mk b).IsValid text ∧ a ≤ b then
    some (text.extract (text.pos _ h.1) (text.pos _ h.2.1))
  else none

/-- The byte offset, in `cs`, of the first character that `p` accepts. -/
def byteOffset? (p : Char → Bool) : List Char → Option Nat
  | [] => none
  | c :: cs => if p c then some 0 else (byteOffset? p cs).map (c.utf8Size + ·)

/-- The end of a prefix is a character boundary. -/
theorem isValid_of_eq_append {text t₁ t₂ : String} (h : text = t₁ ++ t₂) :
    (String.Pos.Raw.mk t₁.utf8ByteSize).IsValid text :=
  String.Pos.Raw.isValid_iff_exists_append.2 ⟨t₁, t₂, h, rfl⟩

/-- A slice is the piece of the text between its offsets: what comes before it is `a` bytes
long, and the slice itself `b - a`. -/
theorem slice?_eq_some_iff {text piece : String} {a b : Nat} :
    slice? text a b = some piece ↔
      ∃ t₁ t₂, text = t₁ ++ piece ++ t₂ ∧ a = t₁.utf8ByteSize ∧ b = a + piece.utf8ByteSize := by
  unfold slice?
  constructor
  · intro h
    split at h
    · rename_i hv
      obtain ⟨ha, hb, hab⟩ := hv
      have hle : text.pos _ ha ≤ text.pos _ hb := by
        simpa [String.Pos.le_iff, String.Pos.Raw.le_iff] using hab
      rw [Option.some.injEq, String.extract_eq_copy_slice _ _ hle] at h
      obtain ⟨t₁, t₂, h₁, h₂⟩ := String.copy_slice_eq_iff_splits.1 ⟨hle, h⟩
      refine ⟨t₁, t₂, ?_, ?_, ?_⟩
      · rw [h₁.eq_append, String.append_assoc]
      · simpa [String.Pos.Raw.ext_iff] using h₁.offset_eq_rawEndPos
      · have := h₂.offset_eq_rawEndPos
        have := h₁.offset_eq_rawEndPos
        simp_all [String.Pos.Raw.ext_iff]
    · simp at h
  · rintro ⟨t₁, t₂, rfl, rfl, rfl⟩
    have ha := @isValid_of_eq_append (t₁ ++ piece ++ t₂) t₁ (piece ++ t₂) String.append_assoc
    have hb := @isValid_of_eq_append (t₁ ++ piece ++ t₂) (t₁ ++ piece) t₂ rfl
    simp only [String.utf8ByteSize_append] at hb
    rw [dif_pos ⟨ha, hb, Nat.le_add_right _ _⟩, Option.some.injEq]
    have hle : (t₁ ++ piece ++ t₂).pos _ ha ≤ (t₁ ++ piece ++ t₂).pos _ hb := by
      simp [String.Pos.le_iff, String.Pos.Raw.le_iff]
    rw [String.extract_eq_copy_slice _ _ hle]
    have hsplit : ∃ h, ((t₁ ++ piece ++ t₂).slice ((t₁ ++ piece ++ t₂).pos _ ha)
        ((t₁ ++ piece ++ t₂).pos _ hb) h).copy = piece :=
      String.copy_slice_eq_iff_splits.2
        ⟨t₁, t₂, ⟨String.append_assoc, rfl⟩, ⟨rfl, by simp [String.Pos.Raw.ext_iff]⟩⟩
    exact hsplit.choose_spec

-- `∃` takes the bytes 1 to 4 of the text; a cut inside it is no slice
example : slice? "L∃∀N" 1 4 = some "∃" := by decide
example : slice? "L∃∀N" 1 2 = none := by decide

/-- The slice between two points of a text cut into characters. -/
theorem slice?_of_toList {text : String} {pre mid post : List Char}
    (h : text.toList = pre ++ mid ++ post) :
    slice? text (String.ofList pre).utf8ByteSize
      ((String.ofList pre).utf8ByteSize + (String.ofList mid).utf8ByteSize) =
      some (String.ofList mid) := by
  refine slice?_eq_some_iff.2 ⟨String.ofList pre, String.ofList post, ?_, rfl, rfl⟩
  rw [← String.ofList_append, ← String.ofList_append, ← h, String.ofList_toList]

/-- The slice from a point of a text to its end. -/
theorem slice?_to_end {text : String} {pre post : List Char} (h : text.toList = pre ++ post) :
    slice? text (String.ofList pre).utf8ByteSize text.utf8ByteSize = some (String.ofList post) := by
  have hsize : text.utf8ByteSize =
      (String.ofList pre).utf8ByteSize + (String.ofList post).utf8ByteSize := by
    rw [← String.utf8ByteSize_append, ← String.ofList_append, ← h, String.ofList_toList]
  rw [hsize]
  exact slice?_of_toList (by rw [h, List.append_nil])

@[simp] theorem utf8ByteSize_ofList_singleton (c : Char) :
    (String.ofList [c]).utf8ByteSize = c.utf8Size := by
  rw [← String.singleton_eq_ofList, String.utf8ByteSize_singleton]

/-- The first character that `p` accepts stands after the run of characters it refuses. -/
theorem byteOffset?_of_dropWhile {p : Char → Bool} {cs ds : List Char} {d : Char}
    (h : cs.dropWhile (fun c => !p c) = d :: ds) :
    byteOffset? p cs = some (String.ofList (cs.takeWhile fun c => !p c)).utf8ByteSize := by
  induction cs with
  | nil => cases h
  | cons c cs ih =>
    by_cases hc : p c
    · simp [byteOffset?, hc]
    · rw [List.dropWhile_cons_of_pos (by simpa using hc)] at h
      simp [byteOffset?, hc, ih h]

/-- No offset when `p` refuses every character. -/
theorem byteOffset?_of_dropWhile_nil {p : Char → Bool} {cs : List Char}
    (h : cs.dropWhile (fun c => !p c) = []) : byteOffset? p cs = none := by
  induction cs with
  | nil => rfl
  | cons c cs ih =>
    by_cases hc : p c
    · rw [List.dropWhile_cons_of_neg (by simpa using hc)] at h
      cases h
    · rw [List.dropWhile_cons_of_pos (by simpa using hc)] at h
      simp [byteOffset?, hc, ih h]

end Lexicon.Text
