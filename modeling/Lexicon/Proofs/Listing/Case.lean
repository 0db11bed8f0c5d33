import Mathlib
import Lexicon.Proofs.Source.Case
import Lexicon.Proofs.Listing.Collect

/-!
# A listing ignores the case of ASCII letters

Changing the case of ASCII letters anywhere in a text, in identifiers, keywords, comments or
string literals, changes nothing in its listing. The scan of a text's canonical form differs from
the scan of the text only in the spelling of identifiers (`Source.scan_canonical`), and a lookup
sees an identifier only through its canonical form, down to the trial copy it makes in the arena
(`Table.get_canonical`). So the same lookups run on the same tables and arenas: the same
entries, counts, kinds and statistics, chunks included, or the same error.

* `Recased`: a text with the case of some of its ASCII letters changed.
* `Listing.Tally.run_canonical`, `Listing.ofSource_canonical`: reading identifiers in canonical
  form, and listing a text's canonical form.
* `Listing.ofSource_recased`: the listing of a recased text.
-/

namespace Lexicon

/-- `c'` is `c`, or `c` is an ASCII letter and `c'` is it in the other case. -/
def Recases (c c' : Char) : Prop := c' = c ∨ c.isUpper ∧ c' = c.toLower ∨ c.isLower ∧ c' = c.toUpper

instance : DecidableRel Recases := fun _ _ => inferInstanceAs (Decidable (_ ∨ _ ∨ _))

/-- `s'` is `s` with the case of some of its ASCII letters changed. -/
def Recased (s s' : String) : Prop := List.Forall₂ Recases s.toList s'.toList

instance (s s' : String) : Decidable (Recased s s') :=
  inferInstanceAs (Decidable (List.Forall₂ _ _ _))

theorem toLower_of_isLower {c : Char} (h : c.isLower = true) : c.toLower = c := by
  rw [isLower_iff] at h
  rw [← Char.toNat_inj, toNat_toLower, if_neg (by omega)]

/-- Lowercasing forgets which case each ASCII letter was in. -/
theorem map_toLower_of_recases {l l' : List Char} (h : List.Forall₂ Recases l l') :
    l'.map Char.toLower = l.map Char.toLower := by
  induction h with
  | nil => rfl
  | @cons c c' l l' hc _ ih =>
    rw [List.map_cons, List.map_cons, ih]
    congr 1
    rcases hc with rfl | ⟨-, rfl⟩ | ⟨hl, rfl⟩
    · rfl
    · exact toLower_toLower c
    · rw [toLower_toUpper_of_isLower hl, toLower_of_isLower hl]

/-- Texts that differ in the case of ASCII letters have one canonical form. -/
theorem Recased.canonical_eq {s s' : String} (h : Recased s s') : canonical s' = canonical s := by
  rw [← String.toList_inj, canonical, canonical, String.toList_map, String.toList_map]
  exact map_toLower_of_recases h

/-- A lookup sees a name only through its canonical form, trial copy included. -/
theorem Table.get_canonical [Allocator] (t : Table) (sh : Shared) (n : String) :
    t.get sh (canonical n) = t.get sh n := by
  unfold Table.get
  rw [Arena.allocLower_eq, Arena.allocLower_eq, canonical_canonical]

namespace Listing

section Reading

variable [Allocator]

namespace Tally

/-- Reading a lexeme whose identifier is spelled in canonical form reads the lexeme. -/
theorem add_canonical (s : Tally) (l : Source.Lexeme) : s.add l.canonical = s.add l := by
  obtain ⟨w, line⟩ := l
  cases w with
  | declarator k => rfl
  | ident text =>
    show s.add ⟨.ident (canonical text), line⟩ = s.add ⟨.ident text, line⟩
    rw [add_ident, add_ident, Table.get_canonical]

/-- Reading the items of a scan with identifiers in canonical form reads the items. -/
theorem run_canonical (items : List Source.Item) (s : Tally) :
    run (items.map (Except.map Source.Lexeme.canonical)) s = run items s := by
  induction items generalizing s with
  | nil => rfl
  | cons item items ih =>
    cases item with
    | error e => rfl
    | ok l =>
      show run (.ok l.canonical :: items.map (Except.map Source.Lexeme.canonical)) s = _
      simp only [run, add_canonical]
      split
      · exact ih _
      · rfl

end Tally

/-- A text and its canonical form have one listing. -/
theorem ofSource_canonical (source : String) (config : Arena.Config) :
    ofSource (canonical source) config = ofSource source config := by
  rw [ofSource, ofSource, Source.scan_canonical, Tally.run_canonical]

/-- Changing the case of any ASCII letters of a text, wherever they stand, changes nothing in its
listing on any sizing: the same entries, counts, kinds and statistics, chunks included, and so the
same report, or the same error. -/
theorem ofSource_recased {s s' : String} (h : Recased s s') (config : Arena.Config) :
    ofSource s' config = ofSource s config := by
  rw [← ofSource_canonical s', h.canonical_eq, ofSource_canonical]

end Reading

/-- A declaration, a name and a comment in other cases. -/
theorem ofSource_recased_declaration :
    letI := Allocator.granting
    Recased "Local x ; Note" "lOCAL X ; nOTE" ∧
      ofSource "lOCAL X ; nOTE" {} = ofSource "Local x ; Note" {} :=
  have h : Recased "Local x ; Note" "lOCAL X ; nOTE" := by decide
  ⟨h, @ofSource_recased Allocator.granting _ _ h {}⟩

end Listing

end Lexicon
