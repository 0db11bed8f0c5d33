import Mathlib
import Lexicon.Proofs.Arena.Trial

/-!
# How live strings lie in the name arena

A string handed out by the arena stays live until a reclaim gives it back. Listed in the order
they were allocated, each with the text it should read as, the live strings of a chunk lie end to
end from the chunk's start, and the chunk's bytes are their texts one after another. That is the
layout of an arena (`Arena.Layout`), and every call keeps it: an allocation appends a string to
the active chunk or to a new one, a fill overwrites one string with text of the same length, and
a reclaim cuts the active chunk back to where the last string started.

* `Arena.blank`, `Arena.padded`: the text of a blank string, and what a fill writes.
* `Arena.Tiles`: strings laid end to end from an offset.
* `Arena.Layout`: the layout of an arena with its live strings; `Layout.resolve?_eq` says each
  live string reads as its text, `Layout.apart` that live strings do not overlap.
* `Arena.Layout.allocBytes`, `fill`, `reclaimTail`: each call keeps the layout.
-/

namespace Lexicon

/-! ## Byte lengths of texts -/

theorem utf8Size_toLower (c : Char) : c.toLower.utf8Size = c.utf8Size := by
  unfold Char.toLower
  split
  · next h =>
    -- an upper-case ASCII letter and its lower case are both one byte
    obtain ⟨h₁, h₂⟩ := h
    rw [ge_iff_le, UInt32.le_iff_toNat_le] at h₁
    rw [UInt32.le_iff_toNat_le] at h₂
    have hA : 'A'.val.toNat = 65 := rfl
    have hZ : 'Z'.val.toNat = 90 := rfl
    have hd : ('a'.val - 'A'.val).toNat = 32 := rfl
    have h127 : (127 : UInt32).toNat = 127 := rfl
    have hc : c.utf8Size = 1 := by
      rw [Char.utf8Size_eq_one_iff, UInt32.le_iff_toNat_le]
      omega
    rw [hc, Char.utf8Size_eq_one_iff, UInt32.le_iff_toNat_le, UInt32.toNat_add, hd]
    omega
  · rfl

/-- A name and its canonical form take the same number of bytes. -/
theorem utf8ByteSize_canonical (s : String) : (canonical s).utf8ByteSize = s.utf8ByteSize := by
  have hmap : ∀ l : List Char, (l.map Char.toLower).utf8Encode.size = l.utf8Encode.size := by
    intro l
    induction l with
    | nil => rfl
    | cons c l ih =>
      rw [List.map_cons, List.utf8Encode_cons, List.utf8Encode_cons (c := c), ByteArray.size_append,
        ByteArray.size_append, ih]
      simp [List.utf8Encode_singleton, utf8Size_toLower]
  rw [← String.size_toByteArray, ← String.size_toByteArray, ← String.utf8Encode_toList,
    ← String.utf8Encode_toList, canonical, String.toList_map, hmap]

@[simp] theorem size_toUTF8 (s : String) : s.toUTF8.size = s.utf8ByteSize := by
  rw [String.toUTF8_eq_toByteArray, String.size_toByteArray]

theorem toUTF8_append (s t : String) : (s ++ t).toUTF8 = s.toUTF8 ++ t.toUTF8 := by
  simp only [String.toUTF8_eq_toByteArray, String.toByteArray_append]

theorem getElem?_modify_eq_some {α : Type} {xs : Array α} {i j : Nat} {f : α → α} {y : α}
    (h : (xs.modify i f)[j]? = some y) :
    (i = j ∧ ∃ x, xs[i]? = some x ∧ y = f x) ∨ (i ≠ j ∧ xs[j]? = some y) := by
  rw [Array.getElem?_modify] at h
  split at h
  · next hij =>
    subst hij
    obtain ⟨x, hx, rfl⟩ := Option.map_eq_some_iff.mp h
    exact .inl ⟨rfl, x, hx, rfl⟩
  · next hij => exact .inr ⟨hij, h⟩

namespace Arena

/-! ## Blank strings and fills -/

/-- The text of `n` spaces, which a blank string reads as. -/
def blank (n : Nat) : String := String.ofList (List.replicate n ' ')

theorem spaces_eq (n : Nat) : spaces n = (blank n).toUTF8 := by
  rw [blank, String.toUTF8_eq_toByteArray, String.toByteArray_ofList]
  apply ByteArray.ext
  -- a space is the single byte `filler`
  have hsp : String.utf8EncodeChar ' ' = [filler] := rfl
  rw [List.utf8Encode, List.data_toByteArray, List.flatMap_replicate, hsp,
    List.flatten_replicate_singleton, List.toArray_replicate]
  rfl

@[simp] theorem utf8ByteSize_blank (n : Nat) : (blank n).utf8ByteSize = n := by
  rw [← size_toUTF8, ← spaces_eq]
  exact Array.size_replicate

/-- What a fill of `h` writes: the content, padded with spaces to the length of `h`. -/
def padded (h : Handle) (content : String) : String :=
  content ++ blank (h.len - content.utf8ByteSize)

theorem utf8ByteSize_padded {h : Handle} {content : String} (hc : content.utf8ByteSize ≤ h.len) :
    (padded h content).utf8ByteSize = h.len := by
  rw [padded, String.utf8ByteSize_append, utf8ByteSize_blank]
  omega

/-- A live string after a fill of `h`: the padded content if it is the string of `h`. -/
def refill (h : Handle) (content : String) (x : Handle × String) : Handle × String :=
  if x.1 = h then (h, padded h content) else x

@[simp] theorem refill_fst (h : Handle) (content : String) (x : Handle × String) :
    (refill h content x).1 = x.1 := by
  unfold refill
  split <;> simp_all

theorem refill_of_ne {h : Handle} {content : String} {x : Handle × String} (hx : x.1 ≠ h) :
    refill h content x = x :=
  if_neg hx

/-- What a fill does to the chunk of `h`: the bytes of its range become the padded content. -/
def overwrite (h : Handle) (content : String) (c : Chunk) : Chunk :=
  { c with bytes := c.bytes.extract 0 h.start ++ (padded h content).toUTF8 ++
      c.bytes.extract h.stop c.bytes.size }

/-! ## Strings laid end to end -/

/-- The texts of strings, one after another. -/
def text (segs : List (Handle × String)) : String := String.join (segs.map (·.2))

@[simp] theorem text_nil : text [] = "" := rfl

@[simp] theorem text_cons (x : Handle × String) (segs : List (Handle × String)) :
    text (x :: segs) = x.2 ++ text segs :=
  String.join_cons

@[simp] theorem text_append (s₁ s₂ : List (Handle × String)) :
    text (s₁ ++ s₂) = text s₁ ++ text s₂ := by
  induction s₁ with
  | nil => simp
  | cons x s₁ ih => simp [ih, String.append_assoc]

/-- Leaving out strings with no text keeps the text. -/
theorem text_filter {P : Handle × String → Bool} : ∀ {segs : List (Handle × String)},
    (∀ x ∈ segs, P x = false → x.2 = "") → text (segs.filter P) = text segs
  | [], _ => rfl
  | x :: segs, h => by
    have ih : text (segs.filter P) = text segs :=
      text_filter fun y hy => h y (List.mem_cons_of_mem _ hy)
    rw [List.filter_cons]
    split
    · rw [text_cons, text_cons, ih]
    · next hx =>
      rw [text_cons, h x List.mem_cons_self (by simpa using hx), ih]
      simp

/-- Strings laid end to end from offset `p`: each starts where the one before it stops, and is as
long as its text. -/
inductive Tiles : Nat → List (Handle × String) → Prop
  | nil (p : Nat) : Tiles p []
  | cons {p : Nat} {x : Handle × String} {segs : List (Handle × String)} :
      x.1.start = p → x.1.len = x.2.utf8ByteSize → Tiles x.1.stop segs → Tiles p (x :: segs)

namespace Tiles

variable {p : Nat} {x y : Handle × String} {segs s₁ s₂ : List (Handle × String)}

/-- A string starts where the texts before it end. -/
theorem start_eq (ht : Tiles p (s₁ ++ x :: s₂)) :
    x.1.start = p + (text s₁).utf8ByteSize ∧ x.1.len = x.2.utf8ByteSize := by
  induction s₁ generalizing p with
  | nil =>
    cases ht with
    | cons hs hl _ => exact ⟨by simpa using hs, hl⟩
  | cons y s₁ ih =>
    cases ht with
    | cons hs hl ht =>
      obtain ⟨hx, hxl⟩ := ih ht
      refine ⟨?_, hxl⟩
      rw [hx, text_cons, String.utf8ByteSize_append, Handle.stop, hs, hl]
      omega

theorem snoc (ht : Tiles p segs) (hs : x.1.start = p + (text segs).utf8ByteSize)
    (hl : x.1.len = x.2.utf8ByteSize) : Tiles p (segs ++ [x]) := by
  induction ht with
  | nil p => exact .cons (by simpa using hs) hl (.nil _)
  | cons hys hyl _ ih =>
    refine .cons hys hyl (ih ?_)
    rw [hs, text_cons, String.utf8ByteSize_append, Handle.stop, hys, hyl]
    omega

theorem of_append (ht : Tiles p (s₁ ++ s₂)) : Tiles p s₁ := by
  induction s₁ generalizing p with
  | nil => exact .nil _
  | cons y s₁ ih =>
    cases ht with
    | cons hs hl ht => exact .cons hs hl (ih ht)

/-- A string may take a new text of the same length. -/
theorem replace (ht : Tiles p (s₁ ++ x :: s₂)) (h₁ : y.1 = x.1)
    (h₂ : y.2.utf8ByteSize = x.2.utf8ByteSize) : Tiles p (s₁ ++ y :: s₂) := by
  induction s₁ generalizing p with
  | nil =>
    cases ht with
    | cons hs hl ht => exact .cons (h₁ ▸ hs) (by rw [h₁, h₂, hl]) (h₁ ▸ ht)
  | cons z s₁ ih =>
    cases ht with
    | cons hs hl ht => exact .cons hs hl (ih ht)

/-- Empty strings may be left out. -/
theorem filter {P : Handle × String → Bool} (ht : Tiles p segs)
    (h : ∀ x ∈ segs, P x = false → x.1.len = 0) : Tiles p (segs.filter P) := by
  induction ht with
  | nil p => exact .nil p
  | @cons p x segs hs hl _ ih =>
    have ih' := ih fun y hy => h y (List.mem_cons_of_mem _ hy)
    rw [List.filter_cons]
    split
    · exact .cons hs hl ih'
    · next hx =>
      -- a string that is left out is empty, so the next one starts where it did
      have h0 : x.1.len = 0 := h x List.mem_cons_self (by simpa using hx)
      have hstop : x.1.stop = p := by rw [Handle.stop, h0, hs, Nat.add_zero]
      exact hstop ▸ ih'

theorem le_start (ht : Tiles p segs) : ∀ y ∈ segs, p ≤ y.1.start := by
  induction ht with
  | nil p => exact fun _ hy => absurd hy List.not_mem_nil
  | @cons p x segs hs _ _ ih =>
    intro y hy
    rcases List.mem_cons.mp hy with rfl | hy
    · omega
    · have := ih y hy
      simp only [Handle.stop] at this
      omega

/-- Strings laid end to end do not overlap: each ends before the next ones start. -/
theorem pairwise (ht : Tiles p segs) : segs.Pairwise fun x y => x.1.stop ≤ y.1.start := by
  induction ht with
  | nil p => exact .nil
  | cons _ _ ht ih => exact .cons ht.le_start ih

end Tiles

/-! ## The strings of one chunk -/

/-- The live strings of chunk `i`, in the order they were allocated. -/
def inChunk (live : List (Handle × String)) (i : Nat) : List (Handle × String) :=
  live.filter (·.1.chunk = i)

theorem mem_inChunk {live : List (Handle × String)} {i : Nat} {x : Handle × String} :
    x ∈ inChunk live i ↔ x ∈ live ∧ x.1.chunk = i := by
  simp [inChunk]

@[simp] theorem inChunk_nil (i : Nat) : inChunk [] i = [] := rfl

@[simp] theorem inChunk_append (l₁ l₂ : List (Handle × String)) (i : Nat) :
    inChunk (l₁ ++ l₂) i = inChunk l₁ i ++ inChunk l₂ i :=
  List.filter_append ..

theorem inChunk_cons_self (x : Handle × String) (l : List (Handle × String)) :
    inChunk (x :: l) x.1.chunk = x :: inChunk l x.1.chunk := by
  simp [inChunk]

theorem inChunk_cons_of_ne {x : Handle × String} {i : Nat} (l : List (Handle × String))
    (hx : x.1.chunk ≠ i) : inChunk (x :: l) i = inChunk l i := by
  simp [inChunk, hx]

theorem inChunk_filter (P : Handle × String → Bool) (l : List (Handle × String)) (i : Nat) :
    inChunk (l.filter P) i = (inChunk l i).filter P := by
  simp only [inChunk, List.filter_filter]
  exact List.filter_congr fun x _ => Bool.and_comm _ _

theorem inChunk_eq_nil {live : List (Handle × String)} {n i : Nat}
    (h : ∀ x ∈ live, x.1.chunk < n) (hi : n ≤ i) : inChunk live i = [] :=
  List.filter_eq_nil_iff.mpr fun x hx => by have := h x hx; simp; omega

/-- Live strings apart within each chunk are apart in the whole arena. -/
theorem pairwise_of_inChunk {R : Handle × String → Handle × String → Prop} :
    ∀ {live : List (Handle × String)}, (∀ i, (inChunk live i).Pairwise R) →
      live.Pairwise fun x y => x.1.chunk ≠ y.1.chunk ∨ R x y
  | [], _ => .nil
  | x :: live, h => by
    have hx := h x.1.chunk
    rw [inChunk_cons_self] at hx
    refine .cons (fun y hy => ?_) (pairwise_of_inChunk fun i => ?_)
    · by_cases hc : x.1.chunk = y.1.chunk
      · exact .inr ((List.pairwise_cons.mp hx).1 y (mem_inChunk.mpr ⟨hy, hc.symm⟩))
      · exact .inl hc
    · by_cases hi : x.1.chunk = i
      · have := h i
        rw [← hi, inChunk_cons_self] at this
        exact hi ▸ this.of_cons
      · simpa [inChunk_cons_of_ne _ hi] using h i

/-- A handle whose range is the middle one of three texts laid end to end in its chunk reads as
the middle text. -/
theorem bytes?_middle {a : Arena} {h : Handle} {c : Chunk} {p t q : String}
    (hc : a.chunks[h.chunk]? = some c) (hb : c.bytes = (p ++ t ++ q).toUTF8)
    (hs : h.start = p.utf8ByteSize) (hl : h.len = t.utf8ByteSize) : a.bytes? h = some t.toUTF8 := by
  have hstop : h.stop = (p ++ t).utf8ByteSize := by
    rw [Handle.stop, hs, hl, String.utf8ByteSize_append]
  have h₁ : c.bytes = p.toUTF8 ++ (t ++ q).toUTF8 := by
    rw [hb, String.append_assoc, toUTF8_append]
  have h₂ : c.bytes = (p ++ t).toUTF8 ++ q.toUTF8 := by rw [hb, toUTF8_append]
  have hstart : isBoundary c.bytes h.start = true := by
    rw [h₁, hs, ← size_toUTF8]
    exact isBoundary_append_toUTF8 _ _
  have hend : isBoundary c.bytes h.stop = true := by
    rw [h₂, hstop, ← size_toUTF8]
    exact isBoundary_append_toUTF8 _ _
  have hle : h.stop ≤ c.bytes.size := by
    rw [h₂, hstop, ByteArray.size_append, size_toUTF8]
    omega
  have hext : c.bytes.extract h.start h.stop = t.toUTF8 :=
    calc c.bytes.extract h.start h.stop
        = (p.toUTF8 ++ (t.toUTF8 ++ q.toUTF8)).extract (p.utf8ByteSize + 0)
            (p.utf8ByteSize + t.utf8ByteSize) := by
          rw [h₁, toUTF8_append, hstop, hs, String.utf8ByteSize_append, Nat.add_zero]
      _ = (t.toUTF8 ++ q.toUTF8).extract 0 t.utf8ByteSize :=
          ByteArray.extract_append_size_add' (size_toUTF8 p).symm
      _ = t.toUTF8 := ByteArray.extract_append_eq_left (size_toUTF8 t).symm
  simp only [bytes?, hc]
  rw [if_pos ⟨hle, hstart, hend⟩, hext]

/-! ## The layout -/

/-- The layout of an arena whose live strings are `live`, in allocation order: every live string
lies in an existing chunk; the live strings of each chunk lie end to end from its start, and the
chunk holds exactly their texts; no chunk holds more than it reserved; and the last allocation,
while it stands, is the last live string. -/
structure Layout (a : Arena) (live : List (Handle × String)) : Prop where
  chunk_lt : ∀ x ∈ live, x.1.chunk < a.chunks.size
  tiles : ∀ i, Tiles 0 (inChunk live i)
  bytes : ∀ (i : Nat) (c : Chunk), a.chunks[i]? = some c → c.bytes = (text (inChunk live i)).toUTF8
  room : ∀ (i : Nat) (c : Chunk), a.chunks[i]? = some c → c.bytes.size ≤ c.capacity
  last : ∀ h, a.last = some h → ∃ live₀ t, live = live₀ ++ [(h, t)]

variable {a a' : Arena} {live : List (Handle × String)}

namespace Layout

theorem empty (config : Config) : (Arena.empty config).Layout [] where
  chunk_lt _ hx := nomatch hx
  tiles _ := .nil 0
  bytes _ _ hc := nomatch hc
  room _ _ hc := nomatch hc
  last _ hl := nomatch hl

/-- A live string lies in its chunk where the texts of the live strings before it end. -/
theorem split (hw : a.Layout live) {x : Handle × String} (hx : x ∈ live) :
    ∃ s₁ s₂ c, inChunk live x.1.chunk = s₁ ++ x :: s₂ ∧ a.chunks[x.1.chunk]? = some c ∧
      c.bytes = (text s₁ ++ x.2 ++ text s₂).toUTF8 ∧ x.1.start = (text s₁).utf8ByteSize ∧
      x.1.len = x.2.utf8ByteSize := by
  obtain ⟨s₁, s₂, hsplit⟩ := List.append_of_mem (mem_inChunk.mpr ⟨hx, rfl⟩)
  have ht := hw.tiles x.1.chunk
  rw [hsplit] at ht
  obtain ⟨hs, hl⟩ := ht.start_eq
  obtain ⟨c, hc⟩ : ∃ c, a.chunks[x.1.chunk]? = some c :=
    ⟨_, Array.getElem?_eq_getElem (hw.chunk_lt x hx)⟩
  refine ⟨s₁, s₂, c, hsplit, hc, ?_, by rw [hs, Nat.zero_add], hl⟩
  rw [hw.bytes _ _ hc, hsplit, text_append, text_cons, String.append_assoc]

theorem len_eq (hw : a.Layout live) {x : Handle × String} (hx : x ∈ live) :
    x.1.len = x.2.utf8ByteSize := by
  obtain ⟨-, -, -, -, -, -, -, hl⟩ := hw.split hx
  exact hl

theorem bytes?_eq (hw : a.Layout live) {x : Handle × String} (hx : x ∈ live) :
    a.bytes? x.1 = some x.2.toUTF8 := by
  obtain ⟨s₁, s₂, c, -, hc, hb, hs, hl⟩ := hw.split hx
  exact bytes?_middle hc hb hs hl

/-- A live string reads as its text. -/
theorem resolve?_eq (hw : a.Layout live) {x : Handle × String} (hx : x ∈ live) :
    a.resolve? x.1 = some x.2 := by
  rw [resolve?, hw.bytes?_eq hx]
  exact fromUTF8?_toUTF8 _

/-- A live string ends inside its chunk. -/
theorem stop_le (hw : a.Layout live) {x : Handle × String} (hx : x ∈ live) :
    ∃ c, a.chunks[x.1.chunk]? = some c ∧ x.1.stop ≤ c.bytes.size := by
  obtain ⟨s₁, s₂, c, -, hc, hb, hs, hl⟩ := hw.split hx
  refine ⟨c, hc, ?_⟩
  rw [hb, Handle.stop, hs, hl, size_toUTF8, String.utf8ByteSize_append,
    String.utf8ByteSize_append]
  omega

/-- Live strings sharing a chunk lie apart, each after the ones allocated before it. -/
theorem apart (hw : a.Layout live) :
    live.Pairwise fun x y => x.1.chunk ≠ y.1.chunk ∨ x.1.stop ≤ y.1.start :=
  pairwise_of_inChunk fun i => (hw.tiles i).pairwise

/-- A live string of positive length is the only live string with its handle. -/
theorem handle_ne (hw : a.Layout live) {l₁ l₂ : List (Handle × String)} {x : Handle × String}
    (hsplit : live = l₁ ++ x :: l₂) (hpos : 0 < x.1.len) : ∀ y ∈ l₁ ++ l₂, y.1 ≠ x.1 := by
  have hap := hw.apart
  rw [hsplit, List.pairwise_append, List.pairwise_cons] at hap
  intro y hy hyx
  have hlt : x.1.stop ≤ x.1.start := by
    rcases List.mem_append.mp hy with hy | hy
    · simpa [hyx] using hap.2.2 y hy x List.mem_cons_self
    · simpa [hyx] using hap.2.1.1 y hy
  simp only [Handle.stop] at hlt
  omega

/-- The layout after one chunk changes: the live strings of the other chunks are as before, and
the changed chunk holds the texts of its live strings laid end to end. -/
theorem modify (hw : a.Layout live) {i n : Nat} {f : Chunk → Chunk}
    {live' : List (Handle × String)} {last : Option Handle}
    (hlt : ∀ x ∈ live', x.1.chunk < a.chunks.size)
    (hother : ∀ j, i ≠ j → inChunk live' j = inChunk live j)
    (htiles : Tiles 0 (inChunk live' i))
    (hchunk : ∀ c, a.chunks[i]? = some c →
      (f c).bytes = (text (inChunk live' i)).toUTF8 ∧ (f c).bytes.size ≤ (f c).capacity)
    (hlast : ∀ h, last = some h → ∃ live₀ t, live' = live₀ ++ [(h, t)]) :
    ({ a with chunks := a.chunks.modify i f, last, allocations := n } : Arena).Layout live' := by
  refine ⟨fun x hx => ?_, fun j => ?_, fun j c hj => ?_, fun j c hj => ?_, fun h hh => ?_⟩
  · simpa using hlt x hx
  · by_cases hij : i = j
    · exact hij ▸ htiles
    · exact hother j hij ▸ hw.tiles j
  · rcases getElem?_modify_eq_some hj with ⟨rfl, c₀, hc₀, rfl⟩ | ⟨hij, hj⟩
    · exact (hchunk c₀ hc₀).1
    · exact hother j hij ▸ hw.bytes j c hj
  · rcases getElem?_modify_eq_some hj with ⟨rfl, c₀, hc₀, rfl⟩ | ⟨hij, hj⟩
    · exact (hchunk c₀ hc₀).2
    · exact hw.room j c hj
  · exact hlast h hh

end Layout

/-! ## Allocation -/

section Allocating

variable [Allocator]

/-- The chunk chosen for `len` bytes has room for them, if no chunk outgrew its room before. -/
theorem chunkFor_room {len i : Nat} {a₁ : Arena}
    (hroom : ∀ (j : Nat) (c : Chunk), a.chunks[j]? = some c → c.bytes.size ≤ c.capacity)
    (h : a.chunkFor len = .ok (i, a₁)) :
    ∃ c, a₁.chunks[i]? = some c ∧ c.bytes.size + len ≤ c.capacity := by
  unfold chunkFor at h
  split at h
  · next c hback =>
    split at h
    · next hfit =>
      cases h
      have hc : a.chunks[a.chunks.size - 1]? = some c := by rwa [← Array.back?_eq_getElem?]
      have := hroom _ _ hc
      exact ⟨c, hc, by omega⟩
    · obtain ⟨rfl, -, -, hch⟩ := openChunk_eq_ok h
      exact ⟨_, by rw [hch, Array.getElem?_push_size], by simp⟩
  · obtain ⟨rfl, -, -, hch⟩ := openChunk_eq_ok h
    exact ⟨_, by rw [hch, Array.getElem?_push_size], by simp⟩

/-- Choosing a chunk keeps the layout: a chunk that opens holds no live string. -/
theorem Layout.chunkFor (hw : a.Layout live) {len i : Nat} {a₁ : Arena}
    (h : a.chunkFor len = .ok (i, a₁)) : a₁.Layout live := by
  obtain ⟨-, hl, -, hch⟩ := chunkFor_eq_ok h
  have hsize : a.chunks.size ≤ a₁.chunks.size := by
    rcases hch with hch | ⟨c₀, -, hch⟩ <;> simp [hch]
  -- a chunk of `a₁` is a chunk of `a`, or the new empty one after them
  have hold : ∀ (j : Nat) (c : Chunk), a₁.chunks[j]? = some c →
      a.chunks[j]? = some c ∨ (a.chunks.size = j ∧ c.bytes = .empty) := by
    intro j c hj
    rcases hch with hch | ⟨c₀, hc₀, hch⟩
    · exact .inl (hch ▸ hj)
    · rw [hch, Array.getElem?_push] at hj
      split at hj
      · next hj' =>
        cases hj
        exact .inr ⟨hj'.symm, hc₀⟩
      · exact .inl hj
  refine ⟨fun x hx => Nat.lt_of_lt_of_le (hw.chunk_lt x hx) hsize, hw.tiles, fun j c hj => ?_,
    fun j c hj => ?_, fun h' hh => hw.last h' (hl ▸ hh)⟩
  · rcases hold j c hj with hj | ⟨rfl, hc⟩
    · exact hw.bytes j c hj
    · rw [inChunk_eq_nil hw.chunk_lt (Nat.le_refl _), hc]
      rfl
  · rcases hold j c hj with hj | ⟨rfl, hc⟩
    · exact hw.room j c hj
    · simp [hc, ByteArray.size_empty]

/-- An allocation of a string's bytes adds the string to the live ones, after all of them. -/
theorem Layout.allocBytes (hw : a.Layout live) {t : String} {h : Handle}
    (hok : a.allocBytes t.toUTF8 = .ok (h, a')) : a'.Layout (live ++ [(h, t)]) := by
  obtain ⟨a₁, c, hchunk, hc, hstart, hlen, rfl⟩ := allocBytes_eq_ok hok
  obtain ⟨hi, -, -, -⟩ := chunkFor_eq_ok hchunk
  obtain ⟨c', hc', hfit⟩ := chunkFor_room hw.room hchunk
  rw [hc] at hc'
  cases hc'
  have hw₁ := hw.chunkFor hchunk
  have hcb : c.bytes = (text (inChunk live h.chunk)).toUTF8 := hw₁.bytes _ _ hc
  have hin : inChunk (live ++ [(h, t)]) h.chunk = inChunk live h.chunk ++ [(h, t)] := by
    rw [inChunk_append, inChunk_cons_self]
    rfl
  refine hw₁.modify (fun x hx => ?_) (fun j hj => ?_) ?_ (fun c₀ hc₀ => ?_) (fun l hl => ?_)
  · rcases List.mem_append.mp hx with hx | hx
    · exact hw₁.chunk_lt x hx
    · rw [List.mem_singleton.mp hx]
      show h.chunk < a₁.chunks.size
      omega
  · rw [inChunk_append, inChunk_cons_of_ne _ hj, inChunk_nil, List.append_nil]
  · -- the new string starts where the texts of the chosen chunk end
    rw [hin]
    refine (hw₁.tiles _).snoc ?_ (by rw [hlen, size_toUTF8])
    rw [hstart, hcb, size_toUTF8, Nat.zero_add]
  · rw [hc] at hc₀
    cases hc₀
    refine ⟨by rw [hin, text_append, toUTF8_append, ← hcb]; simp [text], ?_⟩
    simp only [ByteArray.size_append]
    omega
  · cases hl
    exact ⟨live, t, rfl⟩

/-- A failed allocation keeps the layout: it leaves the arena as it was, or as the choice of its
chunk left it. -/
theorem Layout.afterFailedAlloc (hw : a.Layout live) (len : Nat) :
    (a.afterFailedAlloc len).Layout live := by
  unfold Arena.afterFailedAlloc
  split
  · cases hc : a.chunkFor len with
    | ok r =>
      obtain ⟨i, a₁⟩ := r
      exact hw.chunkFor hc
    | error e => exact hw
  · exact hw

end Allocating

/-! ## Fills -/

/-- A fill is refused, changing nothing, when the content is too long; otherwise it reads the
range of the handle and overwrites it with the padded content. -/
theorem fill_eq_some {h : Handle} {content : String} {b : Bool}
    (hf : a.fill h content = some (b, a')) :
    (h.len < content.utf8ByteSize ∧ b = false ∧ a' = a) ∨
      (content.utf8ByteSize ≤ h.len ∧ (∃ x, a.bytes? h = some x) ∧ b = true ∧
        a' = { a with chunks := a.chunks.modify h.chunk (overwrite h content) }) := by
  unfold fill at hf
  split at hf
  · next hlt =>
    cases hf
    exact .inl ⟨hlt, rfl, rfl⟩
  · next hge =>
    split at hf
    · cases hf
    · next x hx =>
      cases hf
      refine .inr ⟨by omega, ⟨x, hx⟩, rfl, ?_⟩
      congr
      funext c
      simp only [overwrite, padded, toUTF8_append, spaces_eq]

/-- The bytes of a chunk whose live strings are `s₁`, then `x`, then `s₂`, once the range of `x`
is overwritten with content that fits. -/
theorem overwrite_bytes {x : Handle × String} {s₁ s₂ : List (Handle × String)} {c : Chunk}
    {content : String} (hb : c.bytes = (text (s₁ ++ x :: s₂)).toUTF8)
    (hs : x.1.start = 0 + (text s₁).utf8ByteSize) (hl : x.1.len = x.2.utf8ByteSize) :
    (overwrite x.1 content c).bytes =
      (text (s₁ ++ (x.1, padded x.1 content) :: s₂)).toUTF8 := by
  rw [text_append, text_cons] at hb
  have h₁ : c.bytes = (text s₁).toUTF8 ++ (x.2 ++ text s₂).toUTF8 := by rw [hb, toUTF8_append]
  have h₂ : c.bytes = (text s₁ ++ x.2).toUTF8 ++ (text s₂).toUTF8 := by
    rw [hb, ← String.append_assoc, toUTF8_append]
  have hpre : c.bytes.extract 0 x.1.start = (text s₁).toUTF8 := by
    rw [h₁]
    exact ByteArray.extract_append_eq_left (by rw [hs, Nat.zero_add, size_toUTF8])
  have hpost : c.bytes.extract x.1.stop c.bytes.size = (text s₂).toUTF8 := by
    conv => lhs; rw [h₂]
    refine ByteArray.extract_append_eq_right ?_ ByteArray.size_append
    rw [Handle.stop, hs, hl, size_toUTF8, String.utf8ByteSize_append]
    omega
  simp only [overwrite, hpre, hpost, text_append, text_cons, toUTF8_append, ByteArray.append_assoc]

namespace Layout

/-- Filling an empty live handle with content that fits writes nothing. -/
theorem fill_empty (hw : a.Layout live) {content : String} {x : Handle × String}
    (hx : x ∈ live) (h0 : x.1.len = 0) (hc : content.utf8ByteSize ≤ x.1.len) :
    a.chunks.modify x.1.chunk (overwrite x.1 content) = a.chunks ∧
      live.map (refill x.1 content) = live := by
  have hempty : content = "" := String.utf8ByteSize_eq_zero_iff.mp (by omega)
  subst hempty
  have hpad : padded x.1 "" = "" := by simp [padded, h0, blank, String.ofList_nil]
  constructor
  · -- the range is empty, so the chunk is cut and joined where it was
    obtain ⟨c, hc', hle⟩ := hw.stop_le hx
    have hss : x.1.stop = x.1.start := by rw [Handle.stop, h0, Nat.add_zero]
    apply Array.ext_getElem?
    intro j
    rw [Array.getElem?_modify]
    split
    · next hj =>
      subst hj
      rw [hc']
      have hjoin : c.bytes.extract 0 x.1.start ++ "".toUTF8 ++
          c.bytes.extract x.1.start c.bytes.size = c.bytes := by
        rw [show "".toUTF8 = ByteArray.empty from rfl, ByteArray.append_empty,
          ← ByteArray.extract_eq_extract_append_extract _ (Nat.zero_le _) (by omega),
          ByteArray.extract_zero_size]
      simp only [Option.map_some, overwrite, hpad, hss, hjoin]
    · rfl
  · refine (List.map_congr_left fun y hy => ?_).trans (List.map_id live)
    by_cases hyh : y.1 = x.1
    · have hy0 : y.2 = "" :=
        String.utf8ByteSize_eq_zero_iff.mp (by rw [← hw.len_eq hy, hyh, h0])
      obtain ⟨y₁, y₂⟩ := y
      simp only at hyh hy0
      subst hyh hy0
      simp [refill, hpad]
    · exact refill_of_ne hyh

/-- Filling a live handle of positive length with content that fits writes the padded content
as its text, and leaves every other live string alone. -/
theorem fill_nonempty (hw : a.Layout live) {x : Handle × String} (hx : x ∈ live)
    (hpos : 0 < x.1.len) {content : String} (hc : content.utf8ByteSize ≤ x.1.len) :
    ({ a with chunks := a.chunks.modify x.1.chunk (overwrite x.1 content) } : Arena).Layout
      (live.map (refill x.1 content)) := by
  obtain ⟨l₁, l₂, hsplit⟩ := List.append_of_mem hx
  have hne := hw.handle_ne hsplit hpos
  have hid : ∀ l : List (Handle × String), (∀ y ∈ l, y.1 ≠ x.1) →
      l.map (refill x.1 content) = l :=
    fun l hl => (List.map_congr_left fun y hy => refill_of_ne (hl y hy)).trans (List.map_id l)
  have hmap : live.map (refill x.1 content) = l₁ ++ (x.1, padded x.1 content) :: l₂ := by
    rw [hsplit, List.map_append, List.map_cons,
      hid l₁ fun y hy => hne y (List.mem_append_left _ hy),
      hid l₂ fun y hy => hne y (List.mem_append_right _ hy)]
    simp [refill]
  -- the strings of the filled chunk, before and after
  have hin : inChunk live x.1.chunk = inChunk l₁ x.1.chunk ++ x :: inChunk l₂ x.1.chunk := by
    rw [hsplit, inChunk_append, inChunk_cons_self]
  have hin' : inChunk (live.map (refill x.1 content)) x.1.chunk =
      inChunk l₁ x.1.chunk ++ (x.1, padded x.1 content) :: inChunk l₂ x.1.chunk := by
    rw [hmap, inChunk_append, inChunk_cons_self]
  have ht := hw.tiles x.1.chunk
  rw [hin] at ht
  obtain ⟨hs, hl⟩ := ht.start_eq
  have hsize : (padded x.1 content).utf8ByteSize = x.2.utf8ByteSize := by
    rw [utf8ByteSize_padded hc, hl]
  refine hw.modify (fun y hy => ?_) (fun j hj => ?_) (hin' ▸ ht.replace rfl hsize)
    (fun c hc₀ => ?_) (fun h hh => ?_)
  · obtain ⟨y₀, hy₀, rfl⟩ := List.mem_map.mp hy
    simpa using hw.chunk_lt y₀ hy₀
  · rw [hmap, hsplit, inChunk_append, inChunk_append,
      inChunk_cons_of_ne (x := (x.1, padded x.1 content)) _ hj, inChunk_cons_of_ne _ hj]
  · have hb := hw.bytes _ _ hc₀
    rw [hin] at hb
    have hb' : (overwrite x.1 content c).bytes = _ := overwrite_bytes hb hs hl
    refine ⟨by rw [hin', hb'], ?_⟩
    -- the chunk keeps its length
    have hlen : (overwrite x.1 content c).bytes.size = c.bytes.size := by
      rw [hb', hb]
      simp [text_append, hsize]
    rw [show (overwrite x.1 content c).capacity = c.capacity from rfl, hlen]
    exact hw.room _ _ hc₀
  · obtain ⟨live₀, t, hlast⟩ := hw.last h hh
    refine ⟨live₀.map (refill x.1 content), (refill x.1 content (h, t)).2, ?_⟩
    rw [hlast, List.map_append, List.map_singleton]
    congr 2
    exact Prod.ext (refill_fst _ _ _) rfl

/-- A fill of a live handle writes the padded content as the text of that handle, unless it is
refused. -/
theorem fill (hw : a.Layout live) {x : Handle × String} (hx : x ∈ live) {content : String}
    {b : Bool} (hf : a.fill x.1 content = some (b, a')) :
    a'.Layout (if b then live.map (refill x.1 content) else live) := by
  rcases fill_eq_some hf with ⟨-, rfl, rfl⟩ | ⟨hc, -, rfl, rfl⟩
  · exact hw
  · rw [if_pos rfl]
    by_cases h0 : x.1.len = 0
    · obtain ⟨hch, hlive⟩ := hw.fill_empty hx h0 hc
      rw [hch, hlive]
      exact hw
    · exact hw.fill_nonempty hx (Nat.pos_of_ne_zero h0) hc

end Layout

/-! ## Reclaims -/

/-- A reclaim that answers gives back the last allocation when it still ends the active chunk and
starts a character, cutting the chunk back to where that allocation started; otherwise it changes
nothing. -/
theorem reclaimTail_eq {h : Handle} {b : Bool} (hr : a.reclaimTail h = some (b, a')) :
    (b = true ∧ a.last = some h ∧ h.chunk + 1 = a.chunks.size ∧
        (∃ c, a.chunks.back? = some c ∧ h.stop = c.bytes.size ∧ isBoundary c.bytes h.start = true) ∧
        a' = { a with
          chunks := a.chunks.modify h.chunk fun c => { c with bytes := c.bytes.extract 0 h.start }
          last := none
          allocations := a.allocations - 1 }) ∨
      (b = false ∧ a' = a) := by
  unfold reclaimTail at hr
  split at hr
  · next hc =>
    split at hr
    · next c hback =>
      split at hr
      · next hstop =>
        split at hr
        · next hbound =>
          cases hr
          exact .inl ⟨rfl, hc.1, hc.2, ⟨c, hback, hstop, hbound⟩, rfl⟩
        · cases hr
      · cases hr
        exact .inr ⟨rfl, rfl⟩
    · cases hr
      exact .inr ⟨rfl, rfl⟩
  · cases hr
    exact .inr ⟨rfl, rfl⟩

/-- A reclaim panics only on the last allocation, ending the active chunk, when its start cuts a
character. -/
theorem reclaimTail_eq_none {h : Handle} (hr : a.reclaimTail h = none) :
    a.last = some h ∧ h.chunk + 1 = a.chunks.size ∧
      ∃ c, a.chunks.back? = some c ∧ h.stop = c.bytes.size ∧ isBoundary c.bytes h.start = false := by
  unfold reclaimTail at hr
  split at hr
  · next hc =>
    split at hr
    · next c hback =>
      split at hr
      · next hstop =>
        split at hr
        · cases hr
        · next hbound => exact ⟨hc.1, hc.2, c, hback, hstop, Bool.eq_false_iff.mpr hbound⟩
      · cases hr
    · cases hr
  · cases hr

/-- A reclaim that succeeds ends the handle of the last allocation, and one that fails changes
nothing. -/
theorem Layout.reclaimTail (hw : a.Layout live) {h : Handle} {b : Bool}
    (hr : a.reclaimTail h = some (b, a')) :
    a'.Layout (if b then live.filter (·.1 ≠ h) else live) := by
  rcases reclaimTail_eq hr with ⟨rfl, hlast, -, -, rfl⟩ | ⟨rfl, rfl⟩
  · rw [if_pos rfl]
    obtain ⟨live₀, t, hlive⟩ := hw.last h hlast
    -- an earlier string with the handle `h` is empty, since it lies before the last one
    have hzero : ∀ y ∈ live₀, y.1 = h → y.1.len = 0 := by
      have hap := hw.apart
      rw [hlive, List.pairwise_append] at hap
      intro y hy hyh
      have hlt : h.stop ≤ h.start := by simpa [hyh] using hap.2.2 y hy (h, t) List.mem_cons_self
      simp only [Handle.stop] at hlt
      rw [hyh]
      omega
    have hremoved : ∀ y ∈ live₀, decide (y.1 ≠ h) = false → y.1.len = 0 ∧ y.2 = "" := by
      intro y hy hyh
      have h0 := hzero y hy (by simpa using hyh)
      exact ⟨h0, String.utf8ByteSize_eq_zero_iff.mp
        (by rw [← hw.len_eq (hlive ▸ List.mem_append_left _ hy), h0])⟩
    have hfilter : live.filter (·.1 ≠ h) = live₀.filter (·.1 ≠ h) := by simp [hlive]
    have hin : inChunk live h.chunk = inChunk live₀ h.chunk ++ [(h, t)] := by
      rw [hlive, inChunk_append, show inChunk [(h, t)] h.chunk = [(h, t)] from inChunk_cons_self _ _]
    have ht := hw.tiles h.chunk
    rw [hin] at ht
    obtain ⟨hs, -⟩ := Tiles.start_eq (x := (h, t)) ht
    rw [hfilter]
    refine hw.modify (fun y hy => hw.chunk_lt y (hlive ▸ List.mem_append_left _ (List.mem_filter.mp hy).1))
      (fun j hj => ?_) ?_ (fun c hc => ?_) (fun _ hl => by cases hl)
    · -- the other chunks lose only empty strings
      rw [inChunk_filter, hlive, inChunk_append, inChunk_cons_of_ne _ hj, inChunk_nil,
        List.append_nil]
      refine List.filter_eq_self.mpr fun y hy => ?_
      have hyj := (mem_inChunk.mp hy).2
      simp only [ne_eq, decide_eq_true_eq]
      rintro rfl
      exact hj hyj
    · rw [inChunk_filter]
      exact ht.of_append.filter fun y hy hyh => (hremoved y (mem_inChunk.mp hy).1 hyh).1
    · -- the active chunk is cut back to the texts before the last string
      have hb := hw.bytes _ _ hc
      rw [hin, text_append, toUTF8_append] at hb
      rw [inChunk_filter, text_filter fun y hy hyh => (hremoved y (mem_inChunk.mp hy).1 hyh).2]
      refine ⟨by
        simp only [hb]
        exact ByteArray.extract_append_eq_left (by rw [hs, Nat.zero_add, size_toUTF8]), ?_⟩
      have := hw.room _ _ hc
      simp only [ByteArray.size_extract]
      omega
  · exact hw

/-- A reclaim never panics while the live strings lie as laid out: the last allocation starts
where the texts before it in its chunk end, which is where a character starts. -/
theorem Layout.reclaimTail_ne_none (hw : a.Layout live) (h : Handle) : a.reclaimTail h ≠ none := by
  intro hr
  obtain ⟨hlast, hi, c, hback, -, hbound⟩ := reclaimTail_eq_none hr
  obtain ⟨live₀, t, hlive⟩ := hw.last h hlast
  have hc : a.chunks[h.chunk]? = some c := by
    rwa [Array.back?_eq_getElem?, ← hi, Nat.add_sub_cancel] at hback
  obtain ⟨s₁, s₂, c', hsplit, hc', hb, hs, -⟩ :=
    hw.split (x := (h, t)) (hlive ▸ List.mem_append_right _ List.mem_cons_self)
  rw [hc] at hc'
  cases hc'
  -- the chunk's bytes are the texts before the allocation with the rest appended
  have hb' : c.bytes = (text s₁).toUTF8 ++ (t ++ text s₂).toUTF8 := by
    rw [hb, String.append_assoc, toUTF8_append]
  have hstart : isBoundary c.bytes h.start = true := by
    rw [hb', show h.start = (text s₁).toUTF8.size by rw [size_toUTF8]; exact hs]
    exact isBoundary_append_toUTF8 _ _
  rw [hstart] at hbound
  cases hbound

end Arena

end Lexicon
