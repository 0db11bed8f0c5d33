import Lexicon.Proofs.Arena.Live

/-!
# Sessions of calls on the name arena

A client of an arena makes one call after another: allocations of the three kinds, fills and
reclaims, through any handles. A call that fails still leaves an arena behind, the one the order
of its steps gives (`Arena.afterFailedAlloc`); a fill or a reclaim whose range cuts a character
panics, and ends the session. `Arena.Session` follows an arena from empty through such calls, with
their answers in order.

An allocation checks the length of its string before anything changes, and a chunk that cannot
open is not added. After the choice of the chunk only the 32-bit fields of the handle can fail:
the offset only in a chunk that was already open, since a chunk just opened is empty, and the
number of the chunk only once there are 2^32 chunks. So a failed allocation leaves the arena as it
was, with one exception: a chunk that the allocation opened as number 2^32 stays. Sessions reach
that case.

* `Arena.Call`, `Arena.Reply`, `Arena.Call.step`, `Arena.Session`: calls and sessions.
* `Arena.AllocFailure`, `Arena.LeftAfter`: the failures of an allocation, and what each leaves.
* `Arena.failed_calls_leave`: every failed or refused call of every arena leaves it as
  `LeftAfter` says.
* `Arena.Step`, `Arena.step_of_call`: what one call of a session does.
* `Arena.session_keeps_opened_chunk`: a session of 2^32 one-byte strings, each in a chunk of one
  byte, after which a failed allocation keeps the chunk it opened.
-/

namespace Lexicon

/-- A bind in `Except` fails exactly when its first step fails, or succeeds and the rest fails on
that value. -/
theorem except_bind_eq_error {ε α β : Type} {x : Except ε α} {f : α → Except ε β} {e : ε} :
    x >>= f = .error e ↔ x = .error e ∨ ∃ a, x = .ok a ∧ f a = .error e := by
  cases x <;> simp [bind, Except.bind]

theorem fitField_eq_error {what : String} {n : Nat} {e : StoreError} :
    fitField what n = .error e ↔ fieldMax < n ∧ e = .capacityOverflow what n := by
  unfold fitField
  split <;> simp_all [eq_comm]

namespace Arena

variable {a a₁ a' : Arena} {len i : Nat}

/-! ## Calls and sessions -/

/-- A call that may change an arena. -/
inductive Call where
  | alloc (len : Nat)
  | allocStr (s : String)
  | allocLower (s : String)
  | fill (h : Handle) (content : String)
  | reclaim (h : Handle)

/-- The answer to a call. -/
inductive Reply where
  | handle (h : Handle)
  | failed (e : StoreError)
  | filled (b : Bool)
  | reclaimed (b : Bool)
  deriving DecidableEq

/-- The failures that an allocation of `len` bytes can give: the length does not fit a 32-bit
field, there is no memory for the chunk or for the grown chunk index, or the number of the chunk
or the offset in it does not fit a 32-bit field. -/
def AllocFailure (len : Nat) (e : StoreError) : Prop :=
  e = .capacityOverflow "string lengths" len ∨ (∃ n, e = .chunkAllocation n) ∨
    (∃ n, e = .chunkIndexGrowth n) ∨ (∃ n, e = .capacityOverflow "string arena chunks" n) ∨
    ∃ n, e = .capacityOverflow "string arena chunk offsets" n

/-- What a failed allocation with the failure `e` leaves of `a`: the arena as it was; or, when the
allocation opened a chunk whose number does not fit a 32-bit field, `a` with that chunk, empty,
after the others, and the same last allocation and count of allocations. -/
def LeftAfter (a : Arena) (e : StoreError) (a' : Arena) : Prop :=
  a' = a ∨ fieldMax < a.chunks.size ∧ e = .capacityOverflow "string arena chunks" a.chunks.size ∧
    a'.last = a.last ∧ a'.allocations = a.allocations ∧
    ∃ c : Chunk, c.bytes = .empty ∧ a'.chunks = a.chunks.push c

section Sessions

variable [Allocator]

/-- The answer of an allocation of `len` bytes from `a`, and the arena it leaves, failed or not. -/
def Reply.ofAlloc (a : Arena) (len : Nat) : Except StoreError (Handle × Arena) → Reply × Arena
  | .ok (h, a') => (.handle h, a')
  | .error e => (.failed e, a.afterFailedAlloc len)

/-- The answer of a call and the arena after it; `none` when the call panics, as a fill or a
reclaim does on a range that cuts a character. -/
def Call.step : Call → Arena → Option (Reply × Arena)
  | .alloc len, a => some (Reply.ofAlloc a len (a.alloc len))
  | .allocStr s, a => some (Reply.ofAlloc a s.utf8ByteSize (a.allocStr s))
  | .allocLower s, a => some (Reply.ofAlloc a s.utf8ByteSize (a.allocLower s))
  | .fill h content, a => (a.fill h content).map fun r => (.filled r.1, r.2)
  | .reclaim h, a => (a.reclaimTail h).map fun r => (.reclaimed r.1, r.2)

/-- The arenas a client reaches from an empty one of any sizing, with the answers of its calls so
far, oldest first. -/
inductive Session : List Reply → Arena → Prop
  | start (config : Config) : Session [] (empty config)
  | call {rs : List Reply} {a a' : Arena} {c : Call} {r : Reply} :
      Session rs a → c.step a = some (r, a') → Session (rs ++ [r]) a'

/-! ## Failed allocations -/

/-- A choice of chunk that opens none changes nothing. -/
theorem chunkFor_eq_self (h : a.chunkFor len = .ok (i, a₁)) (hc : a₁.chunks = a.chunks) :
    a₁ = a := by
  unfold Arena.chunkFor at h
  -- a chunk that opens makes the chunks one longer
  have hopen : ∀ {j : Nat}, a.openChunk len = .ok (j, a₁) → False := fun ho => by
    obtain ⟨-, -, -, hch⟩ := openChunk_eq_ok ho
    have := congrArg Array.size (hch.symm.trans hc)
    simp at this
  split at h
  · split at h
    · cases h
      rfl
    · exact (hopen h).elim
  · exact (hopen h).elim

/-- A choice of chunk fails only for memory: a chunk of that room, or a grown chunk index. -/
theorem chunkFor_error {e : StoreError} (h : a.chunkFor len = .error e) :
    (∃ n, e = .chunkAllocation n) ∨ ∃ n, e = .chunkIndexGrowth n := by
  have hopen : a.openChunk len = .error e →
      (∃ n, e = .chunkAllocation n) ∨ ∃ n, e = .chunkIndexGrowth n := by
    intro ho
    unfold Arena.openChunk at ho
    dsimp only at ho
    split at ho
    · cases ho
      exact .inl ⟨_, rfl⟩
    · split at ho
      · cases ho
        exact .inr ⟨_, rfl⟩
      · cases ho
  unfold Arena.chunkFor at h
  split at h
  · split at h
    · cases h
    · exact hopen h
  · exact hopen h

/-- Where an allocation fails: at the length, at the choice of the chunk, or after the choice, at
the chunk's number or at the offset in the chunk. -/
theorem allocBytes_eq_error {bytes : ByteArray} {e : StoreError}
    (he : a.allocBytes bytes = .error e) :
    fitField "string lengths" bytes.size = .error e ∨
      bytes.size ≤ fieldMax ∧ (a.chunkFor bytes.size = .error e ∨
        ∃ i a₁, a.chunkFor bytes.size = .ok (i, a₁) ∧
          (fitField "string arena chunks" i = .error e ∨
            fitField "string arena chunk offsets"
              ((a₁.chunks[i]?.map (·.bytes.size)).getD 0) = .error e)) := by
  unfold allocBytes at he
  rcases except_bind_eq_error.mp he with hlen | ⟨len, hlen, he⟩
  · exact .inl hlen
  obtain ⟨hfit, rfl⟩ := fitField_eq_ok.mp hlen
  refine .inr ⟨hfit, ?_⟩
  rcases except_bind_eq_error.mp he with hchunk | ⟨⟨i, a₁⟩, hchunk, he⟩
  · exact .inl hchunk
  refine .inr ⟨i, a₁, hchunk, ?_⟩
  rcases except_bind_eq_error.mp he with hnum | ⟨_, -, he⟩
  · exact .inl hnum
  rcases except_bind_eq_error.mp he with hoff | ⟨_, -, he⟩
  · exact .inr hoff
  · cases he

theorem afterFailedAlloc_of_chunkFor (hfit : len ≤ fieldMax) (h : a.chunkFor len = .ok (i, a₁)) :
    a.afterFailedAlloc len = a₁ := by
  simp only [afterFailedAlloc, if_pos hfit, h]

/-- A failed allocation leaves the arena as `LeftAfter` says. The length is checked before
anything changes, and a chunk that cannot open is not added. After the choice of the chunk, a
failure at the offset is in a chunk that was already open, since a chunk just opened is empty, and
then the choice changed nothing; a failure at the chunk's number leaves what the choice left. -/
theorem allocBytes_error {bytes : ByteArray} {e : StoreError}
    (he : a.allocBytes bytes = .error e) :
    AllocFailure bytes.size e ∧ a.LeftAfter e (a.afterFailedAlloc bytes.size) := by
  rcases allocBytes_eq_error he with hlen | ⟨hfit, hchunk | ⟨i, a₁, hchunk, hnum | hoff⟩⟩
  · obtain ⟨hbig, rfl⟩ := fitField_eq_error.mp hlen
    exact ⟨.inl rfl, .inl (if_neg (Nat.not_le.mpr hbig))⟩
  · refine ⟨.inr ((chunkFor_error hchunk).imp_right .inl), .inl ?_⟩
    simp only [afterFailedAlloc, if_pos hfit, hchunk]
  · obtain ⟨hbig, rfl⟩ := fitField_eq_error.mp hnum
    refine ⟨.inr (.inr (.inr (.inl ⟨_, rfl⟩))), ?_⟩
    rw [afterFailedAlloc_of_chunkFor hfit hchunk]
    obtain ⟨hi, hl, hn, hch⟩ := chunkFor_eq_ok hchunk
    rcases hch with hch | ⟨c, hc, hch⟩
    · exact .inl (chunkFor_eq_self hchunk hch)
    · -- the chunk opened comes after the old ones, so its number is their count
      have hnew : i = a.chunks.size := by simpa [hch] using hi
      subst hnew
      exact .inr ⟨hbig, rfl, hl, hn, c, hc, hch⟩
  · obtain ⟨hbig, rfl⟩ := fitField_eq_error.mp hoff
    -- a chunk opened by the choice is empty, so the offset that failed is in an old chunk
    obtain ⟨hi, -, -, hch⟩ := chunkFor_eq_ok hchunk
    have hsame : a₁.chunks = a.chunks := by
      rcases hch with hch | ⟨c, hc, hch⟩
      · exact hch
      · have hget : a₁.chunks[i]? = some c := by
          rw [hch, Array.getElem?_push]
          simp only [hch, Array.size_push, Nat.add_right_cancel_iff] at hi
          simp [hi]
        simp [hget, hc, fieldMax] at hbig
    refine ⟨.inr (.inr (.inr (.inr ⟨_, rfl⟩))), .inl ?_⟩
    rw [afterFailedAlloc_of_chunkFor hfit hchunk]
    exact chunkFor_eq_self hchunk hsame

theorem alloc_error {e : StoreError} (he : a.alloc len = .error e) :
    AllocFailure len e ∧ a.LeftAfter e (a.afterFailedAlloc len) := by
  unfold alloc at he
  split at he
  · have := allocBytes_error he
    rwa [spaces_eq, size_toUTF8, utf8ByteSize_blank] at this
  · next hbig =>
    cases he
    exact ⟨.inl rfl, .inl (if_neg hbig)⟩

theorem allocStr_error {s : String} {e : StoreError} (he : a.allocStr s = .error e) :
    AllocFailure s.utf8ByteSize e ∧ a.LeftAfter e (a.afterFailedAlloc s.utf8ByteSize) := by
  have := allocBytes_error he
  rwa [size_toUTF8] at this

theorem allocLower_error {s : String} {e : StoreError} (he : a.allocLower s = .error e) :
    AllocFailure s.utf8ByteSize e ∧ a.LeftAfter e (a.afterFailedAlloc s.utf8ByteSize) := by
  have := allocBytes_error (by rwa [allocLower_eq] at he)
  rwa [size_toUTF8, utf8ByteSize_canonical] at this

/-! ## What failed calls leave -/

/-- What failed and refused calls leave. An allocation of any kind that fails gives one of the
failures of an allocation and leaves the arena as `LeftAfter` says: as it was, the same chunks
with the same bytes, the same last allocation and the same count of allocations, unless the
allocation opened a chunk whose number does not fit a 32-bit field. A fill refused for content
longer than its string changes nothing. -/
structure FailuresLeave (a : Arena) : Prop where
  alloc : ∀ len e, a.alloc len = .error e → AllocFailure len e ∧ a.LeftAfter e (a.afterFailedAlloc len)
  allocStr : ∀ s e, a.allocStr s = .error e →
    AllocFailure s.utf8ByteSize e ∧ a.LeftAfter e (a.afterFailedAlloc s.utf8ByteSize)
  allocLower : ∀ s e, a.allocLower s = .error e →
    AllocFailure s.utf8ByteSize e ∧ a.LeftAfter e (a.afterFailedAlloc s.utf8ByteSize)
  fill : ∀ h content a', a.fill h content = some (false, a') → a' = a

/-- In every arena, with any allocator, a call that fails or is refused leaves the arena as
`LeftAfter` says. -/
theorem failed_calls_leave (a : Arena) : a.FailuresLeave := by
  refine ⟨fun _ _ => alloc_error, fun _ _ => allocStr_error, fun _ _ => allocLower_error,
    fun h content a' hf => ?_⟩
  rcases fill_eq_some hf with ⟨-, -, rfl⟩ | ⟨-, -, hb, -⟩
  · rfl
  · cases hb

/-! ## What a call of a session does -/

/-- What a call does to an arena: a successful allocation appends a string's bytes and answers
its handle, a failed allocation leaves the arena as `LeftAfter` says, a fill answers whether it
wrote, and a reclaim whether it gave the string back. -/
inductive Step (a : Arena) : Reply → Arena → Prop
  | alloc {bytes : ByteArray} {h : Handle} {a' : Arena} :
      a.allocBytes bytes = .ok (h, a') → Step a (.handle h) a'
  | failed {e : StoreError} {a' : Arena} : a.LeftAfter e a' → Step a (.failed e) a'
  | fill {h : Handle} {content : String} {b : Bool} {a' : Arena} :
      a.fill h content = some (b, a') → Step a (.filled b) a'
  | reclaim {h : Handle} {b : Bool} {a' : Arena} :
      a.reclaimTail h = some (b, a') → Step a (.reclaimed b) a'

/-- An allocation call answers the handle of a successful `allocBytes`, or fails and leaves the
arena that `afterFailedAlloc` gives. -/
theorem ofAlloc_step {r : Reply} {x : Except StoreError (Handle × Arena)}
    (hok : ∀ h a', x = .ok (h, a') → ∃ bytes, a.allocBytes bytes = .ok (h, a'))
    (herr : ∀ e, x = .error e → a.LeftAfter e (a.afterFailedAlloc len))
    (h : Reply.ofAlloc a len x = (r, a')) : Step a r a' := by
  cases x with
  | ok p =>
    obtain ⟨h', a''⟩ := p
    cases h
    obtain ⟨bytes, hb⟩ := hok h' a' rfl
    exact .alloc hb
  | error e =>
    cases h
    exact .failed (herr e rfl)

/-- Every call that answers is one of the steps. -/
theorem step_of_call {c : Call} {r : Reply} (h : c.step a = some (r, a')) : Step a r a' := by
  cases c with
  | alloc len =>
    exact ofAlloc_step (fun _ _ hok => ⟨_, alloc_eq_ok hok⟩) (fun _ he => (alloc_error he).2)
      (Option.some.inj h)
  | allocStr s =>
    exact ofAlloc_step (fun _ _ hok => ⟨_, hok⟩) (fun _ he => (allocStr_error he).2)
      (Option.some.inj h)
  | allocLower s =>
    exact ofAlloc_step (fun _ _ hok => ⟨_, by rwa [allocLower_eq] at hok⟩)
      (fun _ he => (allocLower_error he).2) (Option.some.inj h)
  | fill h' content =>
    obtain ⟨⟨b, a''⟩, hf, he⟩ := Option.map_eq_some_iff.mp h
    cases he
    exact .fill hf
  | reclaim h' =>
    obtain ⟨⟨b, a''⟩, hr, he⟩ := Option.map_eq_some_iff.mp h
    cases he
    exact .reclaim hr

end Sessions

/-! ## A session that keeps a chunk after a failure -/

/-- `n` one-byte strings `a`, each in a chunk of its own of one byte, in an arena whose chunk index
grows one slot at a time. -/
def oneByteRow (n : Nat) : Arena :=
  ⟨Array.replicate n ⟨"a".toUTF8, 1⟩, n, ⟨1, 1⟩, if n = 0 then none else some ⟨n - 1, 0, 1⟩, n⟩

/-- The answers of the copies of `a` that build `oneByteRow n`. -/
def oneByteReplies (n : Nat) : List Reply := (List.range n).map fun i => .handle ⟨i, 0, 1⟩

@[simp] theorem chunks_size_oneByteRow (n : Nat) : (oneByteRow n).chunks.size = n :=
  Array.size_replicate ..

/-- Where a copy of `a` goes in `oneByteRow n`: the active chunk is full, so a chunk numbered `n`
opens. -/
theorem chunkFor_oneByteRow (n : Nat) :
    letI := Allocator.granting
    (oneByteRow n).chunkFor 1 =
      .ok (n, { oneByteRow n with chunks := (oneByteRow n).chunks.push ⟨.empty, 1⟩, slots := n + 1 }) := by
  let _ : Allocator := Allocator.granting
  have hopen : (oneByteRow n).openChunk 1 =
      .ok (n, { oneByteRow n with chunks := (oneByteRow n).chunks.push ⟨.empty, 1⟩, slots := n + 1 }) := by
    simp [Arena.openChunk, oneByteRow]
  unfold Arena.chunkFor
  cases n with
  | zero => simpa [oneByteRow] using hopen
  | succ m =>
    -- the active chunk holds its one byte already
    have hback : (oneByteRow (m + 1)).chunks.back? = some ⟨"a".toUTF8, 1⟩ := by
      simp [oneByteRow, Array.back?_eq_getElem?]
    rw [hback]
    exact hopen

/-- Writing `a` into the chunk that opened after `oneByteRow n` gives the chunks of
`oneByteRow (n + 1)`. -/
theorem chunks_oneByteRow_succ (n : Nat) :
    ((oneByteRow n).chunks.push ⟨.empty, 1⟩).modify n
      (fun c => { c with bytes := c.bytes ++ "a".toUTF8 }) = (oneByteRow (n + 1)).chunks := by
  apply Array.ext_getElem?
  intro j
  simp only [oneByteRow]
  rw [Array.getElem?_modify, Array.getElem?_push, Array.getElem?_replicate, Array.getElem?_replicate]
  by_cases hj : n = j
  · subst hj
    simp [ByteArray.empty_append]
  · simp only [if_neg hj, Array.size_replicate]
    by_cases hlt : j < n
    · simp [hlt, Nat.lt_succ_of_lt hlt, Ne.symm hj]
    · have hge : ¬ j < n + 1 := by omega
      simp [hlt, hge, Ne.symm hj]

/-- A copy of `a` into `oneByteRow n` makes `oneByteRow (n + 1)`, while the new chunk's number fits
a 32-bit field. -/
theorem allocStr_oneByteRow {n : Nat} (hn : n ≤ fieldMax) :
    letI := Allocator.granting
    (oneByteRow n).allocStr "a" = .ok (⟨n, 0, 1⟩, oneByteRow (n + 1)) := by
  let _ : Allocator := Allocator.granting
  have hsize : ("a".toUTF8).size = 1 := rfl
  have h1 : 1 ≤ fieldMax := by decide
  simp only [allocStr, allocBytes, hsize, fitField, if_pos h1, bind, Except.bind, chunkFor_oneByteRow,
    if_pos hn]
  -- the new handle starts the chunk that opened
  have hget : ((oneByteRow n).chunks.push ⟨.empty, 1⟩)[n]? = some ⟨.empty, 1⟩ := by
    rw [Array.getElem?_push, if_pos (chunks_size_oneByteRow n).symm]
  simp only [hget, Option.map_some, Option.getD_some, ByteArray.size_empty, Nat.zero_le, if_true,
    pure, Except.pure, chunks_oneByteRow_succ]
  simp [oneByteRow]

/-- The copies of `a` reach `oneByteRow n`, for every `n` up to 2^32. -/
theorem session_oneByteRow {n : Nat} (hn : n ≤ fieldMax + 1) :
    letI := Allocator.granting
    Session (oneByteReplies n) (oneByteRow n) := by
  let _ : Allocator := Allocator.granting
  induction n with
  | zero => exact .start ⟨1, 1⟩
  | succ m ih =>
    have hstep : (Call.allocStr "a").step (oneByteRow m) =
        some (.handle ⟨m, 0, 1⟩, oneByteRow (m + 1)) := by
      simp only [Call.step, allocStr_oneByteRow (Nat.le_of_lt_succ hn), Reply.ofAlloc]
    have hreplies : oneByteReplies (m + 1) = oneByteReplies m ++ [.handle ⟨m, 0, 1⟩] := by
      simp [oneByteReplies, List.range_succ]
    rw [hreplies]
    exact .call (ih (by omega)) hstep

/-- Past 2^32 chunks, a copy of `a` into `oneByteRow n` fails on the number of the chunk it opened,
and that chunk stays. -/
theorem step_oneByteRow_of_lt {n : Nat} (hn : fieldMax < n) :
    letI := Allocator.granting
    (Call.allocStr "a").step (oneByteRow n) =
      some (.failed (.capacityOverflow "string arena chunks" n),
        { oneByteRow n with chunks := (oneByteRow n).chunks.push ⟨.empty, 1⟩, slots := n + 1 }) := by
  let _ : Allocator := Allocator.granting
  have hsize : ("a".toUTF8).size = 1 := rfl
  have hlen : "a".utf8ByteSize = 1 := rfl
  have h1 : 1 ≤ fieldMax := by decide
  have hfail : (oneByteRow n).allocStr "a" = .error (.capacityOverflow "string arena chunks" n) := by
    simp only [allocStr, allocBytes, hsize, fitField, if_pos h1, bind, Except.bind,
      chunkFor_oneByteRow, if_neg (Nat.not_le.mpr hn)]
  have hleft : (oneByteRow n).afterFailedAlloc 1 =
      { oneByteRow n with chunks := (oneByteRow n).chunks.push ⟨.empty, 1⟩, slots := n + 1 } := by
    simp only [afterFailedAlloc, if_pos h1, chunkFor_oneByteRow]
  simp only [Call.step, hfail, Reply.ofAlloc, hlen, hleft]

/-- After 2^32 copies of `a`, each opening a chunk of one byte, a further copy opens chunk number
2^32, whose number does not fit a 32-bit field: the copy fails, and the chunk it opened stays. -/
theorem session_keeps_opened_chunk :
    letI := Allocator.granting
    Session (oneByteReplies 4294967296) (oneByteRow 4294967296) ∧
      ∃ a', (Call.allocStr "a").step (oneByteRow 4294967296) =
          some (.failed (.capacityOverflow "string arena chunks" 4294967296), a') ∧
        a'.chunks.size = (oneByteRow 4294967296).chunks.size + 1 :=
  ⟨session_oneByteRow (by decide), _, step_oneByteRow_of_lt (by decide), Array.size_push ..⟩

end Arena

end Lexicon
