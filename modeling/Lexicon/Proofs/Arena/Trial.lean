import Lexicon.Symbol

/-!
# Trial copies in the name arena

A symbol table copies every name it looks up into the arena before it knows whether it needs the
copy. The copies never disturb the strings already there: appending a string keeps what every
handle reads, the copy reads back as the name's canonical form, and giving the copy back at once
returns the arena to the state the choice of chunk left it in (with at most one more, empty,
chunk).

* `Arena.Keeps`: every handle that reads a string in one arena reads the same in another.
* `Arena.isBoundary_append_toUTF8`: the end of a byte sequence stays a character boundary when a
  string is appended to it.
* `Arena.resolve?_allocLower`, `Arena.allocLower_keeps`: a lowercase copy reads back as the
  canonical name, and keeps every other string.
* `Arena.reclaimTail_allocBytes`, `Arena.reclaimTail_allocLower_keeps`: the copy just made is
  given back, and then too every other string reads as before.
-/

namespace Lexicon

/-- A bind in `Except` succeeds exactly when its first step succeeds and the rest succeeds on
that value. -/
theorem except_bind_eq_ok {ε α β : Type} {x : Except ε α} {f : α → Except ε β} {b : β} :
    x >>= f = .ok b ↔ ∃ a, x = .ok a ∧ f a = .ok b := by
  cases x <;> simp [bind, Except.bind]

/-- A computation that succeeds on a value returns it. -/
theorem except_ok_bind {ε α β : Type} (x : α) (f : α → Except ε β) : (Except.ok x >>= f) = f x :=
  rfl

/-- A count fits a field exactly when it is at most `fieldMax`, and then it is kept as it is. -/
theorem fitField_eq_ok {what : String} {n m : Nat} :
    fitField what n = .ok m ↔ n ≤ fieldMax ∧ m = n := by
  unfold fitField
  split <;> simp [*, eq_comm]

theorem fromUTF8?_toUTF8 (s : String) : String.fromUTF8? s.toUTF8 = some s := by
  simp only [String.fromUTF8?, String.toUTF8_eq_toByteArray, dif_pos s.isValidUTF8]
  rfl

namespace Arena

/-- Every handle that reads a string in `a` reads the same string in `a'`. -/
def Keeps (a a' : Arena) : Prop := ∀ h s, a.resolve? h = some s → a'.resolve? h = some s

theorem Keeps.refl (a : Arena) : a.Keeps a := fun _ _ hs => hs

theorem Keeps.trans {a b c : Arena} (hab : a.Keeps b) (hbc : b.Keeps c) : a.Keeps c :=
  fun h s hs => hbc h s (hab h s hs)

/-! ## Character boundaries -/

set_option maxRecDepth 20000 in
/-- A byte that can start the encoding of a character is no continuation byte. -/
theorem lt_or_le_of_isUTF8FirstByte {b : UInt8} (h : b.IsUTF8FirstByte) : b < 0x80 ∨ 0xC0 ≤ b := by
  -- a property of single bytes: checked on all 256 of them
  have hall : ∀ n, n < 256 → (UInt8.ofNat n).IsUTF8FirstByte →
      UInt8.ofNat n < 0x80 ∨ 0xC0 ≤ UInt8.ofNat n := by decide
  have := hall b.toNat b.toNat_lt
  simp only [UInt8.ofNat_toNat] at this
  exact this h

theorem getElem?_append_left {B S : ByteArray} {i : Nat} (hi : i < B.size) :
    (B ++ S)[i]? = B[i]? := by
  have hi' : i < (B ++ S).size := by rw [ByteArray.size_append]; omega
  rw [getElem?_pos (B ++ S) i hi', getElem?_pos B i hi, ByteArray.getElem_append_left hi]

/-- Where a string is appended to a byte sequence, a character starts, or the sequence ends. -/
theorem isBoundary_append_toUTF8 (B : ByteArray) (s : String) :
    isBoundary (B ++ s.toUTF8) B.size = true := by
  rw [String.toUTF8_eq_toByteArray]
  by_cases hs : s.toByteArray.size = 0
  · -- nothing appended: the position is the end
    have hend : B.size = (B ++ s.toByteArray).size := by rw [ByteArray.size_append]; omega
    simp only [isBoundary, ← hend, beq_self_eq_true, Bool.or_true, Bool.true_or]
  · have hlt : B.size < (B ++ s.toByteArray).size := by rw [ByteArray.size_append]; omega
    have hget : (B ++ s.toByteArray)[B.size]? = some s.toByteArray[0] := by
      rw [getElem?_pos (B ++ s.toByteArray) B.size hlt,
        ByteArray.getElem_append_right (Nat.le_refl _)]
      simp
    have hfirst := lt_or_le_of_isUTF8FirstByte
      (s.isValidUTF8.isUTF8FirstByte_getElem_zero (Nat.pos_of_ne_zero hs))
    unfold isBoundary
    rw [hget]
    rcases hfirst with hb | hb <;> simp [hb]

/-- Appending a string keeps every character boundary up to the old end. -/
theorem isBoundary_append {B : ByteArray} {s : String} {i : Nat} (hi : i ≤ B.size)
    (hb : isBoundary B i = true) : isBoundary (B ++ s.toUTF8) i = true := by
  rcases Nat.lt_or_eq_of_le hi with hlt | rfl
  · -- below the old end the byte is the old one, and neither sequence ends there
    have hend : (i == (B ++ s.toUTF8).size) = false := by
      rw [beq_eq_false_iff_ne, ByteArray.size_append]; omega
    have hend' : (i == B.size) = false := beq_eq_false_iff_ne.mpr (Nat.ne_of_lt hlt)
    simp only [isBoundary, getElem?_append_left hlt, hend, hend', Bool.or_false] at hb ⊢
    exact hb
  · exact isBoundary_append_toUTF8 B s

/-- Appending a string to a chunk keeps what every handle inside it reads. -/
theorem bytes?_append {a a' : Arena} {h : Handle} {c c' : Chunk} {s : String} {x : ByteArray}
    (hc : a.chunks[h.chunk]? = some c) (hc' : a'.chunks[h.chunk]? = some c')
    (happ : c'.bytes = c.bytes ++ s.toUTF8) (hx : a.bytes? h = some x) : a'.bytes? h = some x := by
  simp only [bytes?, hc, hc', happ] at hx ⊢
  split at hx
  · next hin =>
    obtain ⟨hstop, hstart, hend⟩ := hin
    have hstop' : h.stop ≤ (c.bytes ++ s.toUTF8).size := by
      rw [ByteArray.size_append]; omega
    have hstart' : h.start ≤ c.bytes.size := by simp only [Handle.stop] at hstop; omega
    rw [if_pos ⟨hstop', isBoundary_append hstart' hstart, isBoundary_append hstop hend⟩]
    rw [← hx, ByteArray.extract_append]
    have hdrop : h.stop - c.bytes.size = 0 := by omega
    have hnil : s.toUTF8.extract (h.start - c.bytes.size) 0 = .empty :=
      ByteArray.extract_eq_empty_iff.mpr (by simp)
    rw [hdrop, hnil, ByteArray.append_empty]
  · cases hx

/-- An arena whose chunks are those of `a`, each perhaps with a string appended, and perhaps with
more chunks after them, keeps every string of `a`. -/
theorem keeps_of_chunks {a a' : Arena}
    (h : ∀ (i : Nat) (c : Chunk), a.chunks[i]? = some c → ∃ (c' : Chunk) (s : String), a'.chunks[i]? = some c' ∧
      c'.bytes = c.bytes ++ s.toUTF8) : a.Keeps a' := by
  intro g t hg
  have hb : ∃ x, a.bytes? g = some x ∧ String.fromUTF8? x = some t := by
    simpa [resolve?, Option.bind_eq_some_iff] using hg
  obtain ⟨x, hx, ht⟩ := hb
  cases hc : a.chunks[g.chunk]? with
  | none => simp [bytes?, hc] at hx
  | some c =>
    obtain ⟨c', s, hc', happ⟩ := h g.chunk c hc
    simp [resolve?, bytes?_append hc hc' happ hx, ht]

/-! ## Choosing the chunk -/

section Allocating

variable [Allocator]

theorem openChunk_eq_ok {a a₁ : Arena} {len i : Nat} (h : a.openChunk len = .ok (i, a₁)) :
    i = a.chunks.size ∧ a₁.last = a.last ∧ a₁.allocations = a.allocations ∧
      a₁.chunks = a.chunks.push ⟨.empty, max a.config.chunkSize len⟩ := by
  unfold openChunk at h
  dsimp only at h
  -- the two refused reservations fail; only the last branch opens the chunk
  split at h
  · cases h
  · split at h
    · cases h
    · cases h
      exact ⟨rfl, rfl, rfl, rfl⟩

/-- The chosen chunk is the last one: the active chunk, or a new empty one opened after it. -/
theorem chunkFor_eq_ok {a a₁ : Arena} {len i : Nat} (h : a.chunkFor len = .ok (i, a₁)) :
    i + 1 = a₁.chunks.size ∧ a₁.last = a.last ∧ a₁.allocations = a.allocations ∧
      (a₁.chunks = a.chunks ∨ ∃ c : Chunk, c.bytes = .empty ∧ a₁.chunks = a.chunks.push c) := by
  unfold chunkFor at h
  split at h
  · next c hc =>
    split at h
    · cases h
      have hsize : 0 < a.chunks.size := by
        rw [Array.back?_eq_getElem?] at hc
        exact Nat.pos_of_ne_zero fun h0 => by simp [h0] at hc
      exact ⟨by omega, rfl, rfl, .inl rfl⟩
    · obtain ⟨rfl, hl, hn, hch⟩ := openChunk_eq_ok h
      exact ⟨by simp [hch], hl, hn, .inr ⟨_, rfl, hch⟩⟩
  · obtain ⟨rfl, hl, hn, hch⟩ := openChunk_eq_ok h
    exact ⟨by simp [hch], hl, hn, .inr ⟨_, rfl, hch⟩⟩

/-- Choosing a chunk keeps every string. -/
theorem chunkFor_keeps {a a₁ : Arena} {len i : Nat} (h : a.chunkFor len = .ok (i, a₁)) :
    a.Keeps a₁ := by
  obtain ⟨-, -, -, hch⟩ := chunkFor_eq_ok h
  refine keeps_of_chunks fun j c hc => ⟨c, "", ?_, by simp⟩
  rcases hch with hch | ⟨c₀, -, hch⟩
  · rw [hch, hc]
  · have hj : j < a.chunks.size := (Array.getElem?_eq_some_iff.mp hc).1
    rw [hch, Array.getElem?_push, if_neg (Nat.ne_of_lt hj), hc]


/-! ## Appending a string -/

/-- A successful allocation appends the bytes to the chunk that `chunkFor` chose; the new handle
starts at that chunk's old end and is the last allocation. -/
theorem allocBytes_eq_ok {a a' : Arena} {bytes : ByteArray} {h : Handle}
    (hok : a.allocBytes bytes = .ok (h, a')) :
    ∃ a₁ c, a.chunkFor bytes.size = .ok (h.chunk, a₁) ∧ a₁.chunks[h.chunk]? = some c ∧
      h.start = c.bytes.size ∧ h.len = bytes.size ∧
      a' = { a₁ with
        chunks := a₁.chunks.modify h.chunk fun c => { c with bytes := c.bytes ++ bytes }
        last := some h
        allocations := a₁.allocations + 1 } := by
  unfold allocBytes at hok
  obtain ⟨len, hlen, hok⟩ := except_bind_eq_ok.mp hok
  obtain ⟨-, rfl⟩ := fitField_eq_ok.mp hlen
  obtain ⟨⟨i, a₁⟩, hchunk, hok⟩ := except_bind_eq_ok.mp hok
  obtain ⟨hi, -, -, -⟩ := chunkFor_eq_ok hchunk
  -- the chosen chunk exists, so its old end is the start of the handle
  obtain ⟨c, hc⟩ : ∃ c, a₁.chunks[i]? = some c := ⟨a₁.chunks[i], by simp⟩
  obtain ⟨ch, hch, hok⟩ := except_bind_eq_ok.mp hok
  obtain ⟨-, rfl⟩ := fitField_eq_ok.mp hch
  obtain ⟨st, hst, hok⟩ := except_bind_eq_ok.mp hok
  simp only [hc, Option.map_some, Option.getD_some] at hst
  obtain ⟨-, rfl⟩ := fitField_eq_ok.mp hst
  simp only [pure, Except.pure, Except.ok.injEq, Prod.mk.injEq] at hok
  obtain ⟨rfl, rfl⟩ := hok
  exact ⟨a₁, c, hchunk, hc, rfl, rfl, rfl⟩

theorem allocLower_eq (a : Arena) (n : String) : a.allocLower n = a.allocBytes (canonical n).toUTF8 :=
  rfl

/-- A lowercase copy reads back as the canonical name. -/
theorem resolve?_allocLower {a a' : Arena} {n : String} {h : Handle}
    (hok : a.allocLower n = .ok (h, a')) : a'.resolve? h = some (canonical n) := by
  rw [allocLower_eq] at hok
  obtain ⟨a₁, c, -, hc, hstart, hlen, rfl⟩ := allocBytes_eq_ok hok
  have hc' : (a₁.chunks.modify h.chunk fun c => { c with bytes := c.bytes ++ (canonical n).toUTF8 })[h.chunk]? =
      some { c with bytes := c.bytes ++ (canonical n).toUTF8 } := by
    rw [Array.getElem?_modify, if_pos rfl, hc]
    rfl
  have hstop : h.stop = (c.bytes ++ (canonical n).toUTF8).size := by
    rw [Handle.stop, hstart, hlen, ByteArray.size_append]
  have hend : isBoundary (c.bytes ++ (canonical n).toUTF8) h.stop = true := by
    rw [hstop]
    simp only [isBoundary, beq_self_eq_true, Bool.or_true, Bool.true_or]
  simp only [resolve?, bytes?, hc']
  rw [if_pos ⟨Nat.le_of_eq hstop, hstart ▸ isBoundary_append_toUTF8 _ _, hend⟩,
    ByteArray.extract_append_eq_right hstart (hstop.trans ByteArray.size_append)]
  exact fromUTF8?_toUTF8 _

/-- Keeping a lowercase copy keeps every string that was there. -/
theorem allocLower_keeps {a a' : Arena} {n : String} {h : Handle}
    (hok : a.allocLower n = .ok (h, a')) : a.Keeps a' := by
  rw [allocLower_eq] at hok
  obtain ⟨a₁, c, hchunk, hc, -, -, rfl⟩ := allocBytes_eq_ok hok
  refine (chunkFor_keeps hchunk).trans (keeps_of_chunks fun j c' hc' => ?_)
  by_cases hj : h.chunk = j
  · subst hj
    rw [hc] at hc'
    cases hc'
    refine ⟨{ c with bytes := c.bytes ++ (canonical n).toUTF8 }, canonical n, ?_, rfl⟩
    rw [Array.getElem?_modify, if_pos rfl, hc]
    rfl
  · exact ⟨c', "", by rw [Array.getElem?_modify, if_neg hj, hc'], by simp⟩

/-! ## Giving the copy back -/

/-- Giving back a string's copy right after it was made succeeds, since the copy starts a
character, and returns the arena to where the choice of its chunk left it, with no last
allocation. -/
theorem reclaimTail_allocBytes {a a' : Arena} {s : String} {h : Handle}
    (hok : a.allocBytes s.toUTF8 = .ok (h, a')) :
    ∃ a₁, a.chunkFor s.toUTF8.size = .ok (h.chunk, a₁) ∧
      a'.reclaimTail h = some (true, { a₁ with last := none }) := by
  obtain ⟨a₁, c, hchunk, hc, hstart, hlen, rfl⟩ := allocBytes_eq_ok hok
  obtain ⟨hi, -, -, -⟩ := chunkFor_eq_ok hchunk
  refine ⟨a₁, hchunk, ?_⟩
  have hback : (a₁.chunks.modify h.chunk fun c => { c with bytes := c.bytes ++ s.toUTF8 }).back? =
      some { c with bytes := c.bytes ++ s.toUTF8 } := by
    rw [Array.back?_eq_getElem?, Array.size_modify, ← hi, Nat.add_sub_cancel, Array.getElem?_modify,
      if_pos rfl, hc]
    rfl
  have hstop : h.stop = (c.bytes ++ s.toUTF8).size := by
    rw [Handle.stop, hstart, hlen, ByteArray.size_append]
  have hbound : isBoundary (c.bytes ++ s.toUTF8) h.start = true :=
    hstart ▸ isBoundary_append_toUTF8 _ _
  -- cutting the chunk back at the handle's start restores its old bytes
  have hchunks : ((a₁.chunks.modify h.chunk fun c => { c with bytes := c.bytes ++ s.toUTF8 }).modify
      h.chunk fun c => { c with bytes := c.bytes.extract 0 h.start }) = a₁.chunks := by
    apply Array.ext_getElem?
    intro j
    by_cases hj : h.chunk = j
    · subst hj
      rw [Array.getElem?_modify, if_pos rfl, Array.getElem?_modify, if_pos rfl, hc]
      simp [ByteArray.extract_append_eq_left hstart]
    · rw [Array.getElem?_modify, if_neg hj, Array.getElem?_modify, if_neg hj]
  unfold reclaimTail
  rw [if_pos ⟨rfl, by simp [hi]⟩]
  simp only [hback, hstop, hbound, if_true, hchunks, Nat.add_sub_cancel]

/-- Giving a lowercase copy back at once keeps every string that was there. -/
theorem reclaimTail_allocLower_keeps {a a' : Arena} {n : String} {h : Handle}
    (hok : a.allocLower n = .ok (h, a')) :
    ∃ a₂, a'.reclaimTail h = some (true, a₂) ∧ a.Keeps a₂ := by
  obtain ⟨a₁, hchunk, hre⟩ := reclaimTail_allocBytes hok
  exact ⟨_, hre, (chunkFor_keeps hchunk).trans (keeps_of_chunks fun j c hc => ⟨c, "", hc, by simp⟩)⟩

end Allocating

end Arena

end Lexicon
