import Lexicon.Proofs.Arena.Session

/-!
# The tail of the name arena

The arena can give back its most recent allocation, and only while no reclaim has succeeded
since. What makes this work is where the last allocation lies: the last allocation, while it
stands, ends the active chunk and is counted among the allocations. Allocations put it there, and
a fill, through any handle, keeps the length of every chunk. A failed allocation keeps it there
too, except when it keeps a chunk it opened as number 2^32 (`Arena.LeftAfter`): then the last
allocation no longer lies in the active chunk.

Where the last allocation lies, a reclaim of it cuts the active chunk back to where it started,
and then leaves nothing to give back until the next allocation; a reclaim of any other handle
answers false and changes nothing. The cut must fall on a character: a fill through a handle given
back earlier can write a character across the start of the last allocation, and then the reclaim
panics.

* `Arena.Reply.reclaimable`, `Arena.Reply.held`: what the answers of a session leave to give back,
  and the allocations still held.
* `Arena.AtTail`: where the last allocation lies; every step but that one failure keeps it.
* `Arena.TailLaws`, `Arena.session_tailLaws`: the laws of the tail in every arena of a session
  whose allocations never failed on the number of a chunk.
* `Arena.session_reclaim_panics`: a session whose reclaim of the last allocation panics.
-/

namespace Lexicon

namespace Arena

variable {a a₁ a' : Arena} {rs : List Reply} {r : Reply}

/-! ## The history of a session -/

namespace Reply

/-- The allocation that can be given back after an answer, from the one before it: the handle of
a successful allocation, none after a successful reclaim, and otherwise as before. -/
def nextTail (p : Option Handle) : Reply → Option Handle
  | .handle h => some h
  | .reclaimed true => none
  | _ => p

/-- The allocations held after an answer, oldest first, from those before it: a successful
allocation adds its handle, and a successful reclaim gives back the most recent one. -/
def nextHeld (l : List Handle) : Reply → List Handle
  | .handle h => l ++ [h]
  | .reclaimed true => l.dropLast
  | _ => l

/-- The handle of the most recent successful allocation among the answers, unless a reclaim
succeeded after it. -/
def reclaimable (rs : List Reply) : Option Handle := rs.foldl nextTail none

/-- The handles of the allocations that no reclaim has given back, oldest first. -/
def held (rs : List Reply) : List Handle := rs.foldl nextHeld []

@[simp] theorem reclaimable_snoc (rs : List Reply) (r : Reply) :
    reclaimable (rs ++ [r]) = nextTail (reclaimable rs) r := by
  simp [reclaimable]

@[simp] theorem held_snoc (rs : List Reply) (r : Reply) : held (rs ++ [r]) = nextHeld (held rs) r := by
  simp [held]

/-- Answers with no successful allocation leave nothing to give back when nothing was. -/
theorem foldl_nextTail_none : ∀ {l : List Reply}, (∀ h, .handle h ∉ l) → l.foldl nextTail none = none
  | [], _ => rfl
  | r :: l, hl => by
    have hr : nextTail none r = none := by
      cases r with
      | handle h => exact absurd List.mem_cons_self (hl h)
      | reclaimed b => cases b <;> rfl
      | failed => rfl
      | filled => rfl
    rw [List.foldl_cons, hr]
    exact foldl_nextTail_none fun h hh => hl h (List.mem_cons_of_mem _ hh)

/-- After a successful reclaim, nothing can be given back until an allocation succeeds. -/
theorem reclaimable_after_reclaim (rs₀ : List Reply) {rs₁ : List Reply} (h : ∀ h, .handle h ∉ rs₁) :
    reclaimable (rs₀ ++ .reclaimed true :: rs₁) = none := by
  rw [reclaimable, List.foldl_append, List.foldl_cons]
  exact foldl_nextTail_none h

end Reply

/-! ## Chunk lengths -/

theorem activeUsed_of_last {a : Arena} {i : Nat} (hi : i + 1 = a.chunks.size) :
    a.activeUsed = (a.chunks[i]?.map (·.bytes.size)).getD 0 := by
  rw [activeUsed, Array.back?_eq_getElem?, ← hi, Nat.add_sub_cancel]

/-- A handle that reads bytes ends inside its chunk. -/
theorem bytes?_stop_le {h : Handle} {x : ByteArray} (hx : a.bytes? h = some x) :
    ∃ c, a.chunks[h.chunk]? = some c ∧ h.stop ≤ c.bytes.size := by
  unfold bytes? at hx
  split at hx
  · next c hc =>
    split at hx
    · next hin => exact ⟨c, hc, hin.1⟩
    · cases hx
  · cases hx

/-- A fill keeps the length of every chunk: the content is padded to the length of the range, and
the range lies in its chunk. -/
theorem fill_lengths {h : Handle} {content : String} {b : Bool} (hf : a.fill h content = some (b, a'))
    (j : Nat) : (a'.chunks[j]?).map (·.bytes.size) = (a.chunks[j]?).map (·.bytes.size) := by
  rcases fill_eq_some hf with ⟨-, -, rfl⟩ | ⟨hfit, ⟨x, hx⟩, -, rfl⟩
  · rfl
  obtain ⟨c, hc, hstop⟩ := bytes?_stop_le hx
  rw [Array.getElem?_modify]
  split
  · next hj =>
    subst hj
    have hpad := utf8ByteSize_padded hfit
    simp only [Handle.stop] at hstop
    simp only [hc, Option.map_some, overwrite, ByteArray.size_append, ByteArray.size_extract,
      size_toUTF8, hpad, Option.some.injEq, Handle.stop]
    omega
  · rfl

theorem fill_activeUsed {h : Handle} {content : String} {b : Bool}
    (hf : a.fill h content = some (b, a')) : a'.activeUsed = a.activeUsed := by
  have hsize : a'.chunks.size = a.chunks.size := by
    rcases fill_eq_some hf with ⟨-, -, rfl⟩ | ⟨-, -, -, rfl⟩ <;> simp
  rw [activeUsed, activeUsed, Array.back?_eq_getElem?, Array.back?_eq_getElem?, hsize,
    fill_lengths hf]

/-! ## The last allocation ends the active chunk -/

/-- Whether offset `i` of the active chunk starts a character or ends the chunk; true when no
chunk is open. -/
def startsChar (a : Arena) (i : Nat) : Bool :=
  (a.chunks.back?.map fun c => isBoundary c.bytes i).getD true

/-- Where the last allocation lies while it stands: in the active chunk, ending where that chunk
ends, and counted among the allocations. -/
def AtTail (a : Arena) : Prop :=
  ∀ h, a.last = some h → h.chunk + 1 = a.chunks.size ∧ h.stop = a.activeUsed ∧ 1 ≤ a.allocations

/-- The chunk of the last allocation is the active one, and the allocation ends it. -/
theorem AtTail.active (ht : a.AtTail) {h : Handle} (hl : a.last = some h) :
    ∃ c, a.chunks[h.chunk]? = some c ∧ a.chunks.back? = some c ∧ h.stop = c.bytes.size := by
  obtain ⟨hi, hstop, -⟩ := ht h hl
  obtain ⟨c, hc⟩ : ∃ c, a.chunks[h.chunk]? = some c := ⟨_, Array.getElem?_eq_getElem (by omega)⟩
  have hback : a.chunks.back? = some c := by
    rw [Array.back?_eq_getElem?, ← hi, Nat.add_sub_cancel, hc]
  rw [activeUsed, hback] at hstop
  exact ⟨c, hc, hback, hstop⟩

/-- A reclaim of a handle other than the last allocation answers false and changes nothing. -/
theorem reclaimTail_of_ne {h : Handle} (hl : a.last ≠ some h) : a.reclaimTail h = some (false, a) := by
  unfold reclaimTail
  rw [if_neg fun hc => hl hc.1]

/-- A reclaim of the last allocation, which ends the active chunk, gives it back when its start
begins a character, and panics otherwise. -/
theorem AtTail.reclaimTail_of_last (ht : a.AtTail) {h : Handle} (hl : a.last = some h) :
    (a.reclaimTail h).map (·.1) = if a.startsChar h.start then some true else none := by
  obtain ⟨c, -, hback, hstop⟩ := ht.active hl
  unfold reclaimTail startsChar
  rw [if_pos ⟨hl, (ht h hl).1⟩, hback]
  simp only [hstop, if_true, Option.map_some, Option.getD_some]
  split <;> rfl

section Steps

variable [Allocator]

/-- Every step keeps the last allocation at the tail, but a failure that keeps a chunk it opened.
An allocation appends its string to the active chunk or to one it opens; a fill keeps every
length; a reclaim that succeeds leaves no last allocation. -/
theorem AtTail.step (ht : a.AtTail) (h : Step a r a')
    (hr : ∀ n, r ≠ .failed (.capacityOverflow "string arena chunks" n)) : a'.AtTail := by
  cases h with
  | alloc hok =>
    obtain ⟨a₁, c, hchunk, hc, hstart, hlen, rfl⟩ := allocBytes_eq_ok hok
    obtain ⟨hi, -, -, -⟩ := chunkFor_eq_ok hchunk
    rintro h' hh
    cases hh
    refine ⟨by simpa using hi, ?_, by simp⟩
    rw [activeUsed_of_last (by simpa using hi), Array.getElem?_modify, if_pos rfl, hc]
    simp [Handle.stop, hstart, hlen]
  | failed hleft =>
    rcases hleft with rfl | ⟨-, he, -⟩
    · exact ht
    · exact absurd (congrArg Reply.failed he) (hr _)
  | fill hf =>
    intro h' hh
    rcases fill_eq_some hf with ⟨-, -, rfl⟩ | ⟨-, -, -, rfl⟩
    · exact ht h' hh
    · obtain ⟨hi, hstop, hn⟩ := ht h' hh
      exact ⟨by simpa using hi, hstop.trans (fill_activeUsed hf).symm, hn⟩
  | reclaim hr =>
    rcases reclaimTail_eq hr with ⟨-, -, -, -, rfl⟩ | ⟨-, rfl⟩
    · intro h' hh
      cases hh
    · exact ht

end Steps

/-! ## Sessions track their history -/

/-- The invariant of a session: the last allocation lies at the tail and is the one the answers
leave to give back, and the arena holds one allocation per handle not given back. -/
structure Tracks (rs : List Reply) (a : Arena) : Prop where
  atTail : a.AtTail
  last : a.last = Reply.reclaimable rs
  count : a.allocations = (Reply.held rs).length
  held_last : ∀ h, a.last = some h → (Reply.held rs).getLast? = some h

theorem Tracks.start (config : Config) : Tracks [] (Arena.empty config) where
  atTail _ hl := nomatch hl
  last := rfl
  count := rfl
  held_last _ hl := nomatch hl

/-- An answer that neither allocates nor gives back keeps the history's allocations; an arena that
keeps its last allocation and its count then still tracks the history. -/
theorem Tracks.keep (ht : Tracks rs a) (hat : a'.AtTail)
    (htail : ∀ p, Reply.nextTail p r = p) (hheld : ∀ l, Reply.nextHeld l r = l)
    (hl : a'.last = a.last) (hn : a'.allocations = a.allocations) : Tracks (rs ++ [r]) a' where
  atTail := hat
  last := by rw [Reply.reclaimable_snoc, htail, hl, ht.last]
  count := by rw [Reply.held_snoc, hheld, hn, ht.count]
  held_last h hh := by
    rw [Reply.held_snoc, hheld]
    exact ht.held_last h (hl ▸ hh)

section Sessions

variable [Allocator]

theorem Tracks.step (ht : Tracks rs a) (h : Step a r a')
    (hr : ∀ n, r ≠ .failed (.capacityOverflow "string arena chunks" n)) : Tracks (rs ++ [r]) a' := by
  have hat := ht.atTail.step h hr
  cases h with
  | alloc hok =>
    obtain ⟨a₁, -, hchunk, -, -, -, rfl⟩ := allocBytes_eq_ok hok
    obtain ⟨-, -, hn, -⟩ := chunkFor_eq_ok hchunk
    refine ⟨hat, by simp [Reply.nextTail], ?_, ?_⟩
    · simp [Reply.nextHeld, hn, ht.count]
    · rintro h' hh
      cases hh
      simp [Reply.nextHeld]
  | failed hleft =>
    -- the one failure that changes the arena is excluded
    rcases hleft with rfl | ⟨-, he, -⟩
    · exact ht.keep hat (fun _ => rfl) (fun _ => rfl) rfl rfl
    · exact absurd (congrArg Reply.failed he) (hr _)
  | fill hf =>
    -- a fill changes neither the last allocation nor the count
    obtain ⟨hl, hn⟩ : a'.last = a.last ∧ a'.allocations = a.allocations := by
      rcases fill_eq_some hf with ⟨-, -, rfl⟩ | ⟨-, -, -, rfl⟩ <;> exact ⟨rfl, rfl⟩
    exact ht.keep hat (fun _ => rfl) (fun _ => rfl) hl hn
  | reclaim hrec =>
    rcases reclaimTail_eq hrec with ⟨rfl, hl, -, -, rfl⟩ | ⟨rfl, rfl⟩
    · -- the last allocation is counted, so taking one off is exact
      have hpos := (ht.atTail _ hl).2.2
      refine ⟨hat, by simp [Reply.nextTail], ?_, fun _ hh => nomatch hh⟩
      simp only [Reply.held_snoc, Reply.nextHeld, List.length_dropLast, ← ht.count]
    · exact ht.keep hat (fun _ => rfl) (fun _ => rfl) rfl rfl

/-- A session whose allocations never failed on the number of a chunk tracks its history. -/
theorem Session.tracks (h : Session rs a)
    (hno : ∀ n, Reply.failed (.capacityOverflow "string arena chunks" n) ∉ rs) : Tracks rs a := by
  induction h with
  | start config => exact .start config
  | call _ hc ih =>
    rename_i rs₀ _ _ _ r
    refine (ih fun n hn => hno n (List.mem_append_left _ hn)).step (step_of_call hc) ?_
    rintro n rfl
    exact hno n (List.mem_append_right _ List.mem_cons_self)

end Sessions

/-! ## The laws of the tail -/

/-- The laws of the tail of an arena whose session answered `rs`.
* While there is a last allocation, it ends the active chunk, and the count of allocations is at
  least one.
* A reclaim of `h` answers true when `h` is the handle of the most recent successful allocation,
  no reclaim has succeeded since, and its start begins a character; it panics when the start cuts
  a character; and it answers false, changing nothing, for every other handle.
* A reclaim that succeeds cuts the active chunk back to the start of that allocation, keeping its
  bytes before it, takes one off the count, changes no other chunk and no number of chunks, and
  leaves no last allocation.
* An allocation starts its string where its chunk ends just before it (at 0 in a chunk it opens),
  and ends the active chunk after it; so the cut restores the length the chunk had then.
* Once a reclaim has succeeded, every reclaim answers false until an allocation succeeds.
* The count of allocations is the number of handles not given back, and a reclaim gives back the
  most recent of them. -/
structure TailLaws [Allocator] (rs : List Reply) (a : Arena) : Prop where
  at_tail : ∀ h, a.last = some h →
    h.chunk + 1 = a.chunks.size ∧ h.stop = a.activeUsed ∧ 1 ≤ a.allocations
  reclaim_answer : ∀ h, (a.reclaimTail h).map (·.1) =
    if Reply.reclaimable rs = some h then (if a.startsChar h.start then some true else none)
    else some false
  reclaim_refused : ∀ h a', a.reclaimTail h = some (false, a') → a' = a
  reclaim_cuts : ∀ h a', a.reclaimTail h = some (true, a') →
    a'.chunks.size = a.chunks.size ∧ a'.allocations + 1 = a.allocations ∧ a'.last = none ∧
      a'.activeUsed = h.start ∧ (∀ i, i ≠ h.chunk → a'.chunks[i]? = a.chunks[i]?) ∧
      ∀ c, a.chunks[h.chunk]? = some c →
        a'.chunks[h.chunk]? = some { c with bytes := c.bytes.extract 0 h.start }
  alloc_start : ∀ (c : Call) h a', c.step a = some (.handle h, a') →
    h.start = (a.chunks[h.chunk]?.map (·.bytes.size)).getD 0 ∧ a'.activeUsed = h.stop
  fails_after_reclaim : ∀ rs₀ rs₁, rs = rs₀ ++ .reclaimed true :: rs₁ → (∀ h, .handle h ∉ rs₁) →
    ∀ h, a.reclaimTail h = some (false, a)
  count : a.allocations = (Reply.held rs).length
  gives_back_last : ∀ h, Reply.reclaimable rs = some h → (Reply.held rs).getLast? = some h

/-- A reclaim that succeeds cuts the active chunk back to the start of the last allocation. -/
theorem AtTail.reclaimTail_cut (ht : a.AtTail) {h : Handle}
    (hr : a.reclaimTail h = some (true, a')) :
    a'.chunks.size = a.chunks.size ∧ a'.allocations + 1 = a.allocations ∧ a'.last = none ∧
      a'.activeUsed = h.start ∧ (∀ i, i ≠ h.chunk → a'.chunks[i]? = a.chunks[i]?) ∧
      ∀ c, a.chunks[h.chunk]? = some c →
        a'.chunks[h.chunk]? = some { c with bytes := c.bytes.extract 0 h.start } := by
  rcases reclaimTail_eq hr with ⟨-, hl, hi, -, rfl⟩ | ⟨hb, -⟩
  · obtain ⟨-, -, hpos⟩ := ht h hl
    refine ⟨by simp, by simp; omega, rfl, ?_, fun i hi' => ?_, fun c hc => ?_⟩
    · -- the active chunk is the last allocation's, and it ends at the allocation's end
      obtain ⟨c, hc, -, hend⟩ := ht.active hl
      rw [activeUsed_of_last (by simpa using hi), Array.getElem?_modify, if_pos rfl, hc]
      simp only [Handle.stop] at hend
      simp [ByteArray.size_extract]
      omega
    · rw [Array.getElem?_modify, if_neg (Ne.symm hi')]
    · rw [Array.getElem?_modify, if_pos rfl, hc]
      rfl
  · cases hb

/-- An allocation starts its string where its chunk ended, at 0 in a chunk it opened. -/
theorem allocBytes_start [Allocator] {bytes : ByteArray} {h : Handle}
    (hok : a.allocBytes bytes = .ok (h, a')) :
    h.start = (a.chunks[h.chunk]?.map (·.bytes.size)).getD 0 := by
  obtain ⟨a₁, c, hchunk, hc, hstart, -, -⟩ := allocBytes_eq_ok hok
  obtain ⟨hi, -, -, hch⟩ := chunkFor_eq_ok hchunk
  rcases hch with hch | ⟨c₀, hc₀, hch⟩
  · rw [← hch, hc, hstart]
    rfl
  · -- the chunk it opened comes after the old ones, and is empty
    have hnew : h.chunk = a.chunks.size := by simpa [hch] using hi
    rw [hch, hnew, Array.getElem?_push_size] at hc
    cases hc
    rw [hstart, hc₀, hnew, Array.getElem?_eq_none (Nat.le_refl _)]
    rfl

/-- A reclaim answers by the history, as `TailLaws.reclaim_answer` says, wherever the last
allocation lies at the tail and is the one the history leaves to give back. -/
theorem reclaimTail_answer (ht : a.AtTail) (hlast : a.last = Reply.reclaimable rs) (h : Handle) :
    (a.reclaimTail h).map (·.1) =
      if Reply.reclaimable rs = some h then (if a.startsChar h.start then some true else none)
      else some false := by
  split
  · next hh => exact ht.reclaimTail_of_last (hlast.trans hh)
  · next hh => rw [reclaimTail_of_ne (hlast ▸ hh)]; rfl

/-- In every arena of a session, from any sizing, with any allocator and through any calls, the
laws of the tail hold, as long as no allocation failed on the number of a chunk. -/
theorem session_tailLaws [Allocator] (h : Session rs a)
    (hno : ∀ n, Reply.failed (.capacityOverflow "string arena chunks" n) ∉ rs) : TailLaws rs a := by
  have ht := h.tracks hno
  refine ⟨ht.atTail, reclaimTail_answer ht.atTail ht.last, fun h' a' hr => ?_,
    fun h' a' hr => ht.atTail.reclaimTail_cut hr, ?_, ?_, ht.count,
    fun h' hh => ht.held_last h' (ht.last ▸ hh)⟩
  · rcases reclaimTail_eq hr with ⟨hb, -⟩ | ⟨-, rfl⟩
    · cases hb
    · rfl
  · intro c h' a' hc
    cases step_of_call hc with
    | alloc hok => exact ⟨allocBytes_start hok, ((ht.atTail.step (.alloc hok) nofun) h' (by
        obtain ⟨-, -, -, -, -, -, rfl⟩ := allocBytes_eq_ok hok; rfl)).2.1.symm⟩
  · rintro rs₀ rs₁ rfl hno' h'
    exact reclaimTail_of_ne (ht.last.trans (Reply.reclaimable_after_reclaim rs₀ hno') ▸ nofun)

/-- A copy of `abc` and then of the empty string: the word still ends the active chunk, but only
the empty string, the last allocation, can be given back. -/
theorem session_tailLaws_empty_string :
    letI := Allocator.granting
    let a : Arena := ⟨#[⟨"abc".toUTF8, 20000⟩], 100, ⟨20000, 100⟩, some ⟨0, 3, 0⟩, 2⟩
    let rs : List Reply := [.handle ⟨0, 0, 3⟩, .handle ⟨0, 3, 0⟩]
    Session rs a ∧ (∀ n, Reply.failed (.capacityOverflow "string arena chunks" n) ∉ rs) ∧
      (a.reclaimTail ⟨0, 0, 3⟩).map (·.1) = some false ∧
      (a.reclaimTail ⟨0, 3, 0⟩).map (·.1) = some true ∧ TailLaws rs a := by
  let _ : Allocator := Allocator.granting
  intro a rs
  have h₁ : (Call.allocStr "abc").step (Arena.empty {}) =
      some (.handle ⟨0, 0, 3⟩, ⟨#[⟨"abc".toUTF8, 20000⟩], 100, ⟨20000, 100⟩, some ⟨0, 0, 3⟩, 1⟩) := by
    cbv
  have h₂ : (Call.allocStr "").step ⟨#[⟨"abc".toUTF8, 20000⟩], 100, ⟨20000, 100⟩, some ⟨0, 0, 3⟩, 1⟩ =
      some (.handle ⟨0, 3, 0⟩, a) := by
    cbv
  have hs : Session rs a := .call (.call (.start {}) h₁) h₂
  have hno : ∀ n, Reply.failed (.capacityOverflow "string arena chunks" n) ∉ rs := by simp [rs]
  exact ⟨hs, hno, by cbv, by cbv, session_tailLaws hs hno⟩

/-- A copy of `ab` given back, copies of `a` and `b` into its place, and a fill of `é` through the
handle given back, which writes one character over both: the last allocation, `b`, is the one to
give back, but it now starts inside that character, and its reclaim panics. -/
theorem session_reclaim_panics :
    letI := Allocator.granting
    let a : Arena := ⟨#[⟨"é".toUTF8, 20000⟩], 100, ⟨20000, 100⟩, some ⟨0, 1, 1⟩, 2⟩
    let rs : List Reply :=
      [.handle ⟨0, 0, 2⟩, .reclaimed true, .handle ⟨0, 0, 1⟩, .handle ⟨0, 1, 1⟩, .filled true]
    Session rs a ∧ Reply.reclaimable rs = some ⟨0, 1, 1⟩ ∧ (Call.reclaim ⟨0, 1, 1⟩).step a = none := by
  let _ : Allocator := Allocator.granting
  intro a rs
  have h₁ : (Call.allocStr "ab").step (Arena.empty {}) =
      some (.handle ⟨0, 0, 2⟩, ⟨#[⟨"ab".toUTF8, 20000⟩], 100, ⟨20000, 100⟩, some ⟨0, 0, 2⟩, 1⟩) := by
    cbv
  have h₂ : (Call.reclaim ⟨0, 0, 2⟩).step ⟨#[⟨"ab".toUTF8, 20000⟩], 100, ⟨20000, 100⟩, some ⟨0, 0, 2⟩, 1⟩ =
      some (.reclaimed true, ⟨#[⟨"".toUTF8, 20000⟩], 100, ⟨20000, 100⟩, none, 0⟩) := by
    cbv
  have h₃ : (Call.allocStr "a").step ⟨#[⟨"".toUTF8, 20000⟩], 100, ⟨20000, 100⟩, none, 0⟩ =
      some (.handle ⟨0, 0, 1⟩, ⟨#[⟨"a".toUTF8, 20000⟩], 100, ⟨20000, 100⟩, some ⟨0, 0, 1⟩, 1⟩) := by
    cbv
  have h₄ : (Call.allocStr "b").step ⟨#[⟨"a".toUTF8, 20000⟩], 100, ⟨20000, 100⟩, some ⟨0, 0, 1⟩, 1⟩ =
      some (.handle ⟨0, 1, 1⟩, ⟨#[⟨"ab".toUTF8, 20000⟩], 100, ⟨20000, 100⟩, some ⟨0, 1, 1⟩, 2⟩) := by
    cbv
  have h₅ : (Call.fill ⟨0, 0, 2⟩ "é").step ⟨#[⟨"ab".toUTF8, 20000⟩], 100, ⟨20000, 100⟩, some ⟨0, 1, 1⟩, 2⟩ =
      some (.filled true, a) := by
    cbv
  exact ⟨.call (.call (.call (.call (.call (.start {}) h₁) h₂) h₃) h₄) h₅, by decide, by cbv⟩

end Arena

end Lexicon
