import Mathlib
import Lexicon.Listing
import Lexicon.Proofs.Text.Utf8Order

/-!
# The reference listing

A listing should not depend on how names are stored. Read the lexemes of a text one by one,
keeping the entries of the canonical names seen so far, in the order they were first seen, and the
kind a declaration keyword left pending (`Listing.Fold`). A declaration keyword sets the pending
kind. An identifier counts one occurrence of its canonical name; if a kind is pending and the name
has none yet, the name takes it; and the pending kind is used up. The reference entries are the
fold's, in bytewise order of their names (`Listing.reference`).

The fold keeps each canonical name once, counts for each the identifiers that spell it, and so
counts every identifier once (`Listing.Tallies`). Sorting its entries bytewise gives the only
list of them in strictly increasing bytewise order (`Listing.eq_byBytes`).

* `Listing.lexemes`, `idents`, `firstError`: what a scan reports.
* `Listing.tick`, `Listing.Fold.step`, `Listing.Fold.run`: the fold.
* `Listing.tallies_run`: what the fold counts.
* `Listing.byBytes`, `Listing.reference`: the entries in bytewise order.
-/

namespace Lexicon

namespace Source

/-- The error an item reports, if it is one. -/
def errorOf : Item → Option ScanError
  | .error e => some e
  | .ok _ => none

/-- The source spelling of an identifier; none for a declaration keyword. -/
def Lexeme.ident? (l : Lexeme) : Option String :=
  match l.word with
  | .ident t => some t
  | .declarator _ => none

end Source

namespace Listing

/-- The lexemes among the items of a scan. -/
def lexemes (items : List Source.Item) : List Source.Lexeme := items.filterMap Except.toOption

/-- The identifiers among lexemes, in their source spelling. -/
def idents (ls : List Source.Lexeme) : List String := ls.filterMap Source.Lexeme.ident?

/-- The first error a scan reports. -/
def firstError (items : List Source.Item) : Option Source.ScanError :=
  items.findSome? Source.errorOf

/-- An entry after one more occurrence of its name while the kind `p` is pending: it takes `p`
unless it has a kind already. -/
def Entry.recount (p : Option Kind) (e : Entry) : Entry := ⟨e.kind.or p, e.name, e.occurrences + 1⟩

/-- The entries after one more occurrence of the canonical name `c` while the kind `p` is
pending: the entry of `c` counts it; a name seen for the first time gets an entry at the end,
with the kind `p` and one occurrence. -/
def tick (c : String) (p : Option Kind) (seen : List Entry) : List Entry :=
  if c ∈ seen.map (·.name) then seen.map fun e => if e.name = c then e.recount p else e
  else seen ++ [⟨p, c, 1⟩]

/-- The reference reading of lexemes: the entries of the canonical names in the order they were
first seen, and the kind a declaration keyword left pending. -/
structure Fold where
  seen : List Entry
  pending : Option Kind

namespace Fold

/-- Nothing seen, nothing pending. -/
def start : Fold := ⟨[], none⟩

/-- A declaration keyword leaves its kind pending; an identifier counts its canonical name with
the pending kind and uses the kind up. -/
def step (f : Fold) (l : Source.Lexeme) : Fold :=
  match l.word with
  | .declarator k => ⟨f.seen, some k⟩
  | .ident t => ⟨tick (canonical t) f.pending f.seen, none⟩

/-- The fold over lexemes, from the start. -/
def run (ls : List Source.Lexeme) : Fold := ls.foldl step start

end Fold

/-- Entries in increasing bytewise order of their names. -/
def byBytes (es : List Entry) : List Entry :=
  es.mergeSort fun x y => decide (utf8Bytes x.name ≤ utf8Bytes y.name)

/-- The reference entries of lexemes: the fold's, in bytewise order of their names. -/
def reference (ls : List Source.Lexeme) : List Entry := byBytes (Fold.run ls).seen

@[simp] theorem lexemes_nil : lexemes [] = [] := rfl

@[simp] theorem lexemes_cons_ok (l : Source.Lexeme) (items : List Source.Item) :
    lexemes (.ok l :: items) = l :: lexemes items := rfl

@[simp] theorem idents_nil : idents [] = [] := rfl

@[simp] theorem idents_cons (l : Source.Lexeme) (ls : List Source.Lexeme) :
    idents (l :: ls) = l.ident?.toList ++ idents ls := by
  simp only [idents, List.filterMap_cons]
  cases l.ident? <;> rfl

/-! ## One more occurrence -/

section Tick

variable {c : String} {p : Option Kind} {seen : List Entry}

theorem tick_of_mem (h : c ∈ seen.map (·.name)) :
    tick c p seen = seen.map fun e => if e.name = c then e.recount p else e := if_pos h

theorem tick_of_not_mem (h : c ∉ seen.map (·.name)) : tick c p seen = seen ++ [⟨p, c, 1⟩] :=
  if_neg h

/-- A name counted keeps its place; a new one comes last. -/
theorem names_tick :
    (tick c p seen).map (·.name) =
      if c ∈ seen.map (·.name) then seen.map (·.name) else seen.map (·.name) ++ [c] := by
  by_cases h : c ∈ seen.map (·.name)
  · rw [tick_of_mem h, if_pos h, List.map_map]
    refine List.map_congr_left fun e _ => ?_
    by_cases he : e.name = c <;> simp [he, Entry.recount]
  · rw [tick_of_not_mem h, if_neg h]
    simp

/-- Counting a name that is not there changes nothing. -/
theorem map_recount_of_not_mem (h : c ∉ seen.map (·.name)) :
    (seen.map fun e => if e.name = c then e.recount p else e) = seen := by
  have hid : ∀ e ∈ seen, (if e.name = c then e.recount p else e) = e := fun e he => by
    have hne : e.name ≠ c := fun hc => h (List.mem_map.mpr ⟨e, he, hc⟩)
    simp [hne]
  rw [List.map_congr_left hid, List.map_id']

theorem sum_tick (hnd : (seen.map (·.name)).Nodup) :
    ((tick c p seen).map (·.occurrences)).sum = (seen.map (·.occurrences)).sum + 1 := by
  by_cases h : c ∈ seen.map (·.name)
  · rw [tick_of_mem h]
    induction seen with
    | nil => simp at h
    | cons e seen ih =>
      rw [List.map_cons, List.nodup_cons] at hnd
      by_cases he : e.name = c
      · -- `c` is none of the later names, and they stay as they are
        rw [List.map_cons, map_recount_of_not_mem (he ▸ hnd.1)]
        simp [he, Entry.recount]
        omega
      · have hc : c ∈ seen.map (·.name) := by
          simpa [Ne.symm he] using h
        simp only [List.map_cons, if_neg he, List.sum_cons, ih hnd.2 hc]
        omega
  · rw [tick_of_not_mem h]
    simp

end Tick

/-! ## What the fold counts -/

/-- The entries `seen` tally the identifiers `ids`: they hold each canonical name once, exactly the
canonical names of `ids`, each with the number of identifiers that spell it, and so as many
occurrences in all as there are identifiers. -/
structure Tallies (seen : List Entry) (ids : List String) : Prop where
  nodup : (seen.map (·.name)).Nodup
  names : ∀ c, c ∈ seen.map (·.name) ↔ ∃ t ∈ ids, canonical t = c
  occurrences : ∀ e ∈ seen, e.occurrences = ids.countP fun t => canonical t = e.name
  total : (seen.map (·.occurrences)).sum = ids.length

theorem tallies_nil : Tallies [] [] := ⟨.nil, by simp, by simp, rfl⟩

section Tallies

variable {seen : List Entry} {ids : List String}

theorem exists_canonical_append {t c : String} :
    (∃ t' ∈ ids ++ [t], canonical t' = c) ↔ (∃ t' ∈ ids, canonical t' = c) ∨ canonical t = c := by
  simp [or_and_right, exists_or]

/-- Counting one more identifier keeps the tally. -/
theorem Tallies.tick (h : Tallies seen ids) (t : String) (p : Option Kind) :
    Tallies (tick (canonical t) p seen) (ids ++ [t]) where
  nodup := by
    rw [names_tick]
    split
    · exact h.nodup
    · next hc => exact h.nodup.append (List.nodup_singleton _) (by simpa using hc)
  names c := by
    rw [names_tick, exists_canonical_append, ← h.names]
    split
    · next hc => exact ⟨.inl, fun h' => h'.elim id (· ▸ hc)⟩
    · simp [eq_comm]
  occurrences e he := by
    rw [List.countP_append, List.countP_singleton]
    by_cases hc : canonical t ∈ seen.map (·.name)
    · rw [tick_of_mem hc] at he
      obtain ⟨e₀, he₀, rfl⟩ := List.mem_map.mp he
      by_cases hn : e₀.name = canonical t
      · simp [hn, Entry.recount, h.occurrences e₀ he₀]
      · simp [hn, h.occurrences e₀ he₀, Ne.symm hn]
    · rw [tick_of_not_mem hc] at he
      rcases List.mem_append.mp he with he | he
      · have hn : e.name ≠ canonical t := fun hn => hc (List.mem_map.mpr ⟨e, he, hn⟩)
        simp [h.occurrences e he, Ne.symm hn]
      · -- a new name: no identifier so far spells it
        rw [List.mem_singleton.mp he]
        have hzero : (ids.countP fun t' => canonical t' = canonical t) = 0 :=
          List.countP_eq_zero.mpr fun t' ht' hct => hc ((h.names _).mpr ⟨t', ht', by simpa using hct⟩)
        simp [hzero]
  total := by rw [sum_tick h.nodup, h.total, List.length_append, List.length_singleton]

theorem Tallies.step {f : Fold} (h : Tallies f.seen ids) (l : Source.Lexeme) :
    Tallies (f.step l).seen (ids ++ l.ident?.toList) := by
  obtain ⟨w, line⟩ := l
  cases w with
  | declarator k => simpa [Fold.step, Source.Lexeme.ident?] using h
  | ident t => exact h.tick t f.pending

theorem tallies_foldl (ls : List Source.Lexeme) {f : Fold} (h : Tallies f.seen ids) :
    Tallies (ls.foldl Fold.step f).seen (ids ++ idents ls) := by
  induction ls generalizing f ids with
  | nil => simpa using h
  | cons l ls ih =>
    rw [List.foldl_cons, idents_cons, ← List.append_assoc]
    exact ih (h.step l)

/-- The fold tallies the identifiers of the lexemes it read. -/
theorem tallies_run (ls : List Source.Lexeme) : Tallies (Fold.run ls).seen (idents ls) := by
  have h := tallies_foldl ls (f := Fold.start) tallies_nil
  rwa [List.nil_append] at h

/-- Every name tallied was spelled at least once. -/
theorem Tallies.one_le (h : Tallies seen ids) {e : Entry} (he : e ∈ seen) : 1 ≤ e.occurrences := by
  obtain ⟨t, ht, hc⟩ := (h.names e.name).mp (List.mem_map.mpr ⟨e, he, rfl⟩)
  rw [h.occurrences e he]
  exact List.countP_pos_iff.mpr ⟨t, ht, by simpa using hc⟩

/-- A tally is a tally in any order. -/
theorem Tallies.perm (h : Tallies seen ids) {es : List Entry} (hp : es.Perm seen) : Tallies es ids where
  nodup := (hp.map _).nodup_iff.mpr h.nodup
  names c := ((hp.map _).mem_iff).trans (h.names c)
  occurrences e he := h.occurrences e (hp.mem_iff.mp he)
  total := ((hp.map _).sum_eq).trans h.total

end Tallies

/-! ## Bytewise order -/

theorem byBytes_perm (es : List Entry) : (byBytes es).Perm es := List.mergeSort_perm _ _

/-- Entries with distinct names come out of `byBytes` in strictly increasing bytewise order. -/
theorem pairwise_byBytes {es : List Entry} (hnd : (es.map (·.name)).Nodup) :
    ((byBytes es).map (utf8Bytes ·.name)).Pairwise (· < ·) := by
  -- the comparison is a total preorder, so the sort orders by it
  have htrans : ∀ x y z : Entry, decide (utf8Bytes x.name ≤ utf8Bytes y.name) = true →
      decide (utf8Bytes y.name ≤ utf8Bytes z.name) = true →
        decide (utf8Bytes x.name ≤ utf8Bytes z.name) = true := by
    intro x y z hxy hyz
    simp only [decide_eq_true_eq] at hxy hyz ⊢
    exact List.le_trans hxy hyz
  have htotal : ∀ x y : Entry, (decide (utf8Bytes x.name ≤ utf8Bytes y.name) ||
      decide (utf8Bytes y.name ≤ utf8Bytes x.name)) = true := by
    intro x y
    simpa using List.le_total (utf8Bytes x.name) (utf8Bytes y.name)
  have hle := List.pairwise_mergeSort htrans htotal es
  have hne : (byBytes es).Pairwise fun x y => x.name ≠ y.name :=
    List.pairwise_map.mp (((byBytes_perm es).map _).nodup_iff.mpr hnd)
  rw [List.pairwise_map]
  exact (hle.and hne).imp fun ⟨h₁, h₂⟩ => Utf8.utf8Bytes_lt_of_le (by simpa using h₁) h₂

/-- Entries with distinct names sorted by name come out in strictly increasing bytewise order:
strings compare as their encodings. -/
theorem pairwise_mergeSort_name {es : List Entry} (hnd : (es.map (·.name)).Nodup) :
    ((es.mergeSort fun x y => decide (x.name ≤ y.name)).map (utf8Bytes ·.name)).Pairwise (· < ·) := by
  have htrans : ∀ x y z : Entry, decide (x.name ≤ y.name) = true → decide (y.name ≤ z.name) = true →
      decide (x.name ≤ z.name) = true := by
    intro x y z hxy hyz
    simp only [decide_eq_true_eq] at hxy hyz ⊢
    exact hxy.trans hyz
  have htotal : ∀ x y : Entry, (decide (x.name ≤ y.name) || decide (y.name ≤ x.name)) = true := by
    intro x y
    simpa using le_total x.name y.name
  have hle := List.pairwise_mergeSort htrans htotal es
  have hne : (es.mergeSort fun x y => decide (x.name ≤ y.name)).Pairwise fun x y => x.name ≠ y.name :=
    List.pairwise_map.mp (((List.mergeSort_perm es _).map _).nodup_iff.mpr hnd)
  rw [List.pairwise_map]
  exact (hle.and hne).imp fun ⟨h₁, h₂⟩ =>
    Utf8.utf8Bytes_lt_iff.mpr (lt_of_le_of_ne (by simpa using h₁) h₂)

/-- The entries of `es` in strictly increasing bytewise order are `byBytes es`. -/
theorem eq_byBytes {l es : List Entry} (hp : l.Perm es) (hnd : (es.map (·.name)).Nodup)
    (hs : (l.map (utf8Bytes ·.name)).Pairwise (· < ·)) : l = byBytes es :=
  (hp.trans (byBytes_perm es).symm).eq_of_pairwise
    (fun _ _ _ _ h h' => absurd h' (List.lt_asymm h)) (List.pairwise_map.mp hs)
    (List.pairwise_map.mp (pairwise_byBytes hnd))

end Listing

end Lexicon
