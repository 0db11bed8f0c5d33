import Mathlib
import Lexicon.Proofs.Arena.Layout

/-!
# Live handles of the name arena

A handle is live from the successful allocation that returned it until a reclaim of it succeeds.
`Arena.Run` follows an arena from empty through any sequence of calls that fill only live
handles, with its live handles in the order they were allocated, each with the text it should
read as: spaces after a blank allocation, the string after a copy, its canonical form after a
lowercase copy, and the padded content after the latest fill. A failed allocation is a step too:
it leaves the arena that `Arena.afterFailedAlloc` gives, perhaps with a chunk it opened, and the
same live handles. Refused fills and reclaims change nothing, and reads change nothing at all.

* `Arena.LiveLaws`: what the live handles of an arena satisfy.
* `Arena.run_liveLaws`: the laws hold after every run, whatever the sizing of the arena.
-/

namespace Lexicon

namespace Arena

variable {a a' : Arena} {live : List (Handle × String)}

namespace Layout

/-- A fill of a live handle reads its range, which lies on character boundaries, so it is refused
only for content that does not fit. -/
theorem fill_some (hw : a.Layout live) {x : Handle × String} (hx : x ∈ live) (content : String) :
    ∃ a', a.fill x.1 content = some (decide (content.utf8ByteSize ≤ x.1.len), a') := by
  unfold Arena.fill
  by_cases hlt : x.1.len < content.utf8ByteSize
  · rw [if_pos hlt]
    exact ⟨a, by simp [Nat.not_le.mpr hlt]⟩
  · rw [if_neg hlt, hw.bytes?_eq hx, decide_eq_true (Nat.not_lt.mp hlt)]
    exact ⟨_, rfl⟩

end Layout

section Runs

variable [Allocator]

theorem alloc_eq_ok {len : Nat} {h : Handle} (hok : a.alloc len = .ok (h, a')) :
    a.allocBytes (blank len).toUTF8 = .ok (h, a') := by
  unfold alloc at hok
  split at hok
  · rwa [spaces_eq] at hok
  · cases hok

/-- The states an arena reaches from empty, with its live handles in allocation order, each with
the text the calls so far wrote there. Fills go through live handles only. -/
inductive Run : Arena → List (Handle × String) → Prop
  | empty (config : Config) : Run (Arena.empty config) []
  | alloc {a a' : Arena} {live : List (Handle × String)} {len : Nat} {h : Handle} :
      Run a live → a.alloc len = .ok (h, a') → Run a' (live ++ [(h, blank len)])
  | allocStr {a a' : Arena} {live : List (Handle × String)} {s : String} {h : Handle} :
      Run a live → a.allocStr s = .ok (h, a') → Run a' (live ++ [(h, s)])
  | allocLower {a a' : Arena} {live : List (Handle × String)} {s : String} {h : Handle} :
      Run a live → a.allocLower s = .ok (h, a') → Run a' (live ++ [(h, canonical s)])
  | allocFailed {a : Arena} {live : List (Handle × String)} {len : Nat} {e : StoreError} :
      Run a live → a.alloc len = .error e → Run (a.afterFailedAlloc len) live
  | allocStrFailed {a : Arena} {live : List (Handle × String)} {s : String} {e : StoreError} :
      Run a live → a.allocStr s = .error e → Run (a.afterFailedAlloc s.utf8ByteSize) live
  | allocLowerFailed {a : Arena} {live : List (Handle × String)} {s : String} {e : StoreError} :
      Run a live → a.allocLower s = .error e → Run (a.afterFailedAlloc s.utf8ByteSize) live
  | fill {a a' : Arena} {live : List (Handle × String)} {h : Handle} {content : String}
      {b : Bool} :
      Run a live → h ∈ live.map (·.1) → a.fill h content = some (b, a') →
      Run a' (if b then live.map (refill h content) else live)
  | reclaim {a a' : Arena} {live : List (Handle × String)} {h : Handle} {b : Bool} :
      Run a live → a.reclaimTail h = some (b, a') →
        Run a' (if b then live.filter (·.1 ≠ h) else live)

theorem Run.layout (hr : Run a live) : a.Layout live := by
  induction hr with
  | empty config => exact .empty config
  | alloc _ hok ih => exact ih.allocBytes (alloc_eq_ok hok)
  | allocStr _ hok ih => exact ih.allocBytes hok
  | allocLower _ hok ih => exact ih.allocBytes (by rwa [allocLower_eq] at hok)
  | allocFailed _ _ ih => exact ih.afterFailedAlloc _
  | allocStrFailed _ _ ih => exact ih.afterFailedAlloc _
  | allocLowerFailed _ _ ih => exact ih.afterFailedAlloc _
  | fill _ hh hf ih =>
    obtain ⟨x, hx, rfl⟩ := List.mem_map.mp hh
    exact ih.fill hx hf
  | reclaim _ hrec ih => exact ih.reclaimTail hrec

/-- The laws of the live handles of an arena. Live handles sharing a chunk do not overlap, and
each lies inside its chunk. Each reads back as its text and is exactly as long. A fill of a live
handle is never refused for its range, and succeeds exactly when the content fits. A lowercase
copy is as long as the string copied. No allocation, no fill through another live handle and no
reclaim of another handle changes what a live handle reads, and no reclaim panics. No chunk holds
more bytes than it reserved. -/
structure LiveLaws (a : Arena) (live : List (Handle × String)) : Prop where
  apart : live.Pairwise fun x y => x.1.chunk ≠ y.1.chunk ∨ x.1.stop ≤ y.1.start
  inside : ∀ x ∈ live, ∃ c, a.chunks[x.1.chunk]? = some c ∧ x.1.stop ≤ c.bytes.size
  reads : ∀ x ∈ live, a.resolve? x.1 = some x.2 ∧ x.1.len = x.2.utf8ByteSize
  fill : ∀ x ∈ live, ∀ content, ∃ a',
    a.fill x.1 content = some (decide (content.utf8ByteSize ≤ x.1.len), a')
  allocLower_len : ∀ s h a', a.allocLower s = .ok (h, a') → h.len = s.utf8ByteSize
  alloc_keeps : ∀ len h a', a.alloc len = .ok (h, a') → ∀ x ∈ live, a'.resolve? x.1 = some x.2
  allocStr_keeps : ∀ s h a', a.allocStr s = .ok (h, a') → ∀ x ∈ live, a'.resolve? x.1 = some x.2
  allocLower_keeps : ∀ s h a', a.allocLower s = .ok (h, a') →
    ∀ x ∈ live, a'.resolve? x.1 = some x.2
  fill_keeps : ∀ y ∈ live, ∀ content b a', a.fill y.1 content = some (b, a') →
    ∀ x ∈ live, x.1 ≠ y.1 → a'.resolve? x.1 = some x.2
  reclaim_keeps : ∀ h b a', a.reclaimTail h = some (b, a') →
    ∀ x ∈ live, x.1 ≠ h → a'.resolve? x.1 = some x.2
  reclaim_answers : ∀ h, a.reclaimTail h ≠ none
  room : ∀ c ∈ a.chunks, c.bytes.size ≤ c.capacity

namespace Layout

theorem allocBytes_keeps (hw : a.Layout live) {t : String} {h : Handle}
    (hok : a.allocBytes t.toUTF8 = .ok (h, a')) : ∀ x ∈ live, a'.resolve? x.1 = some x.2 :=
  fun _ hx => (hw.allocBytes hok).resolve?_eq (List.mem_append_left _ hx)

theorem liveLaws (hw : a.Layout live) : a.LiveLaws live where
  apart := hw.apart
  inside _ hx := hw.stop_le hx
  reads _ hx := ⟨hw.resolve?_eq hx, hw.len_eq hx⟩
  fill _ hx := hw.fill_some hx
  allocLower_len s h a' hok := by
    obtain ⟨-, -, -, -, -, hlen, -⟩ := allocBytes_eq_ok (by rwa [allocLower_eq] at hok)
    rw [hlen, size_toUTF8, utf8ByteSize_canonical]
  alloc_keeps _ _ _ hok := hw.allocBytes_keeps (alloc_eq_ok hok)
  allocStr_keeps _ _ _ hok := hw.allocBytes_keeps hok
  allocLower_keeps _ _ _ hok := hw.allocBytes_keeps (by rwa [allocLower_eq] at hok)
  fill_keeps y hy content b a' hf x hx hxy := by
    have hw' := hw.fill hy hf
    cases b
    · exact hw'.resolve?_eq hx
    · exact hw'.resolve?_eq (List.mem_map.mpr ⟨x, hx, refill_of_ne hxy⟩)
  reclaim_keeps h b a' hr x hx hxh := by
    have hw' := hw.reclaimTail hr
    cases b
    · exact hw'.resolve?_eq hx
    · exact hw'.resolve?_eq (List.mem_filter.mpr ⟨hx, by simpa using hxh⟩)
  reclaim_answers := hw.reclaimTail_ne_none
  room c hc := by
    obtain ⟨i, hi⟩ := Array.mem_iff_getElem?.mp hc
    exact hw.room i c hi

end Layout

/-- After any run of an arena, with any sizing and any allocator, failed allocations included,
its live handles satisfy the laws of live handles. -/
theorem run_liveLaws (hr : Run a live) : a.LiveLaws live :=
  hr.layout.liveLaws

end Runs

/-- A lowercase copy, then a blank string that does not fit the first chunk and opens a second
one, then a fill of the blank string. -/
theorem run_liveLaws_fill :
    let a : Arena := ⟨#[⟨"abc".toUTF8, 4⟩, ⟨"x ".toUTF8, 4⟩], 2, ⟨4, 1⟩, some ⟨1, 0, 2⟩, 2⟩
    let live : List (Handle × String) := [(⟨0, 0, 3⟩, "abc"), (⟨1, 0, 2⟩, "x ")]
    letI := Allocator.granting
    Run a live ∧ a.LiveLaws live := by
  intro a live
  let _ : Allocator := Allocator.granting
  have h₁ : (Arena.empty ⟨4, 1⟩).allocLower "AbC" =
      .ok (⟨0, 0, 3⟩, ⟨#[⟨"abc".toUTF8, 4⟩], 1, ⟨4, 1⟩, some ⟨0, 0, 3⟩, 1⟩) := by
    cbv
  have h₂ : (⟨#[⟨"abc".toUTF8, 4⟩], 1, ⟨4, 1⟩, some ⟨0, 0, 3⟩, 1⟩ : Arena).alloc 2 =
      .ok (⟨1, 0, 2⟩, ⟨#[⟨"abc".toUTF8, 4⟩, ⟨"  ".toUTF8, 4⟩], 2, ⟨4, 1⟩, some ⟨1, 0, 2⟩, 2⟩) := by
    cbv
  have h₃ : (⟨#[⟨"abc".toUTF8, 4⟩, ⟨"  ".toUTF8, 4⟩], 2, ⟨4, 1⟩, some ⟨1, 0, 2⟩, 2⟩ : Arena).fill
      ⟨1, 0, 2⟩ "x" = some (true, a) := by
    cbv
  have hr := Run.fill (Run.alloc (Run.allocLower (Run.empty ⟨4, 1⟩) h₁) h₂) (by decide) h₃
  have hlive : (if true then ([] ++ [((⟨0, 0, 3⟩ : Handle), canonical "AbC")] ++
      [((⟨1, 0, 2⟩ : Handle), blank 2)]).map (refill ⟨1, 0, 2⟩ "x") else
      [] ++ [((⟨0, 0, 3⟩ : Handle), canonical "AbC")] ++ [((⟨1, 0, 2⟩ : Handle), blank 2)]) =
      live := by
    cbv
  rw [hlive] at hr
  exact ⟨hr, run_liveLaws hr⟩

end Arena

end Lexicon
