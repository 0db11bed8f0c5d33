import Mathlib
import Lexicon.Proofs.Hash.Separation
import Lexicon.Proofs.Text.Utf8Order
import Lexicon.Proofs.Listing.Collect

/-!
# Tables without collisions

A table has a node per key of its bound names and a colliding node per key that two of them
share. When the hasher keeps the bound names apart, there is a node per symbol and no collision.
The polynomial key keeps canonical ASCII identifiers of at most nine bytes apart, so a table of
such names, and the listing of a text whose names are such, has neither.

* `Table.WellFormed.counts_of_injOn`: a hasher injective on the bound names gives a node per
  symbol and no collision.
* `Listing.Tally.run_reachable`: a run that succeeds ends in a reachable table keyed by the
  polynomial hasher.
* `Listing.ofSource_table`: a listing's counts are those of that table, and its names are the
  table's bound names.
* `shortWords_never_collide`: short canonical ASCII identifiers never share a key, in a table or
  in a listing.
-/

namespace Lexicon

namespace Table

variable {t : Table} {a : Arena}

/-- A hasher that keeps the bound names apart gives each symbol its own node, and no node
holds two symbols. -/
theorem WellFormed.counts_of_injOn (hw : t.WellFormed a)
    (hinj : ∀ c ∈ (t.bindings a).map (·.1), ∀ c' ∈ (t.bindings a).map (·.1),
      t.hasher.hash c = t.hasher.hash c' → c = c') :
    t.nodeCount = t.len ∧ t.collisionCount = 0 := by
  have hnd : ((t.bindings a).map (t.hasher.hash ·.1)).Nodup := by
    have := List.Nodup.map_on hinj hw.nodup_names
    rwa [List.map_map] at this
  constructor
  · rw [hw.nodeCount_eq, List.toFinset_card_of_nodup hnd, List.length_map, hw.length_bindings]
  · -- no key is counted twice, so no key passes the filter
    rw [hw.collisionCount_eq, Finset.card_eq_zero, Finset.filter_eq_empty_iff]
    intro key _ htwo
    have := List.nodup_iff_count_le_one.mp hnd key
    omega

/-- With the polynomial hasher, bound names that are all short canonical ASCII identifiers
give a node per symbol and no collision. -/
theorem WellFormed.counts_of_shortWords (hw : t.WellFormed a) (hh : t.hasher = .polynomial)
    (hwords : ∀ x ∈ t.bindings a, shortWord (utf8Bytes x.1)) :
    t.nodeCount = t.len ∧ t.collisionCount = 0 := by
  refine hw.counts_of_injOn fun c hc c' hc' hkey => Utf8.utf8Bytes_injective ?_
  obtain ⟨x, hx, rfl⟩ := List.mem_map.mp hc
  obtain ⟨x', hx', rfl⟩ := List.mem_map.mp hc'
  rw [hh] at hkey
  exact polyKey_injOn_shortWord (hwords x hx) (hwords x' hx') hkey

end Table

namespace Listing

open Table

section Reading

variable [Allocator]

namespace Tally

variable {s s' : Tally}

/-- Reading a lexeme keeps the table reachable and its hasher polynomial. -/
theorem add_reachable {l : Source.Lexeme} (h : s.add l = .ok s')
    (hr : Reachable s.table s.arena) (hh : s.table.hasher = .polynomial) :
    Reachable s'.table s'.arena ∧ s'.table.hasher = .polynomial := by
  obtain ⟨w, line⟩ := l
  cases w with
  | declarator k =>
    cases h
    exact ⟨hr, hh⟩
  | ident text =>
    rw [add_ident] at h
    cases hg : s.table.get ⟨s.arena, false⟩ text with
    | error e => simp [hg, Except.map] at h
    | ok r =>
      obtain ⟨id, t₁, a₁⟩ := r
      simp only [hg, Except.map, Except.ok.injEq] at h
      subst h
      exact ⟨(Reachable.get hr hg).declare id s.pending, by rw [hasher_declare, hasher_get hg, hh]⟩

/-- A run that succeeds ends in a reachable table keyed by the polynomial hasher, when it starts
in one. -/
theorem run_reachable {items : List Source.Item} (h : Tally.run items s = .ok s')
    (hr : Reachable s.table s.arena) (hh : s.table.hasher = .polynomial) :
    Reachable s'.table s'.arena ∧ s'.table.hasher = .polynomial := by
  induction items generalizing s with
  | nil =>
    cases h
    exact ⟨hr, hh⟩
  | cons item items ih =>
    cases item with
    | error e => cases h
    | ok l =>
      cases hadd : s.add l with
      | error e => simp [Tally.run, hadd] at h
      | ok s₁ =>
        simp only [Tally.run, hadd] at h
        obtain ⟨hr₁, hh₁⟩ := add_reachable hadd hr hh
        exact ih h hr₁ hh₁

end Tally

/-- A listing is read off a reachable table keyed by the polynomial hasher: its counts are the
table's, and its names are the table's bound names in some order. -/
theorem ofSource_table {source : String} {config : Arena.Config} {l : Listing}
    (h : ofSource source config = .ok l) :
    ∃ t a, Reachable t a ∧ t.hasher = .polynomial ∧ l.stats.symbols = t.len ∧
      l.stats.nodes = t.nodeCount ∧ l.stats.collisions = t.collisionCount ∧
      (l.entries.map (·.name)).Perm ((t.bindings a).map (·.1)) := by
  unfold ofSource at h
  cases hrun : Tally.run (Source.scan source) (Tally.start config) with
  | error e => simp [hrun, bind, Except.bind] at h
  | ok s =>
    simp only [hrun, bind, Except.bind, pure, Except.pure, Except.ok.injEq] at h
    subst h
    obtain ⟨hr, hh⟩ := Tally.run_reachable hrun (.empty .polynomial _) rfl
    refine ⟨s.table, s.arena, hr, hh, rfl, rfl, rfl, ?_⟩
    rw [iter_map_entry hr.wellFormed, ← map_name_entryOf s.counts]
    exact (List.mergeSort_perm _ _).map _

end Reading

end Listing

/-- Canonical ASCII identifiers (digits, underscores and lowercase ASCII letters) of at most
nine bytes never share a polynomial key. So a reachable table keyed by the polynomial hasher
whose bound names are all such has a node per symbol and no collision, and so has the listing of
any text whose names are all such. -/
theorem shortWords_never_collide [Allocator] :
    (∀ a b : List UInt8, shortWord a → shortWord b → a ≠ b → polyKey a ≠ polyKey b) ∧
    (∀ (t : Table) (a : Arena), Table.Reachable t a → t.hasher = .polynomial →
      (∀ x ∈ t.bindings a, shortWord (utf8Bytes x.1)) →
        t.nodeCount = t.len ∧ t.collisionCount = 0) ∧
    (∀ (source : String) (config : Arena.Config) (l : Listing),
      Listing.ofSource source config = .ok l →
      (∀ e ∈ l.entries, shortWord (utf8Bytes e.name)) →
        l.stats.nodes = l.stats.symbols ∧ l.stats.collisions = 0) := by
  refine ⟨fun a b ha hb hne hkey => hne (polyKey_injOn_shortWord ha hb hkey),
    fun t a hr hh hwords => hr.wellFormed.counts_of_shortWords hh hwords,
    fun source config l h hwords => ?_⟩
  obtain ⟨t, a, hr, hh, hsym, hnodes, hcoll, hperm⟩ := Listing.ofSource_table h
  -- the table's bound names are the listing's names
  have hbound : ∀ x ∈ t.bindings a, shortWord (utf8Bytes x.1) := by
    intro x hx
    obtain ⟨e, he, hname⟩ := List.mem_map.mp (hperm.symm.subset (List.mem_map_of_mem hx))
    rw [← hname]
    exact hwords e he
  obtain ⟨hn, hc⟩ := hr.wellFormed.counts_of_shortWords hh hbound
  exact ⟨by rw [hnodes, hsym, hn], by rw [hcoll, hc]⟩

set_option maxRecDepth 8000 in
/-- The names `x` and `y`; the table after a lookup of `Foo`; and the listing of a text naming `x`
twice and `y` once, with two symbols on two nodes. -/
theorem shortWords_never_collide_listing :
    letI := Allocator.granting
    (shortWord [120] ∧ shortWord [121] ∧ ([120] : List UInt8) ≠ [121] ∧
      polyKey [120] ≠ polyKey [121]) ∧
    (let t : Table :=
      ⟨⟨.node .leaf ⟨0, Hasher.polynomial.hash "foo", ⟨#[⟨none, ⟨0, 0, 3⟩⟩], 1⟩⟩ .leaf, 1⟩,
        .polynomial, 1⟩
    let a : Arena := ⟨#[⟨"foo".toUTF8, 20000⟩], 100, ⟨20000, 100⟩, some ⟨0, 0, 3⟩, 1⟩
    Table.Reachable t a ∧ t.hasher = .polynomial ∧ (∀ x ∈ t.bindings a, shortWord (utf8Bytes x.1)) ∧
      t.nodeCount = t.len ∧ t.collisionCount = 0) ∧
    (let l : Listing := ⟨[⟨none, "x", 2⟩, ⟨none, "y", 1⟩], ⟨2, 2, 0, 1⟩⟩
    Listing.ofSource "x y X" {} = .ok l ∧ (∀ e ∈ l.entries, shortWord (utf8Bytes e.name)) ∧
      l.stats.nodes = l.stats.symbols ∧ l.stats.collisions = 0) := by
  let _ : Allocator := Allocator.granting
  obtain ⟨hkeys, htable, hlisting⟩ := shortWords_never_collide
  refine ⟨?_, ?_, ?_⟩
  · have hx : shortWord [120] = true := by decide
    have hy : shortWord [121] = true := by decide
    have hne : ([120] : List UInt8) ≠ [121] := by decide
    exact ⟨hx, hy, hne, hkeys _ _ hx hy hne⟩
  · intro t a
    have hget :
        (Table.empty .polynomial).get ⟨Arena.empty {}, false⟩ "Foo" = .ok (⟨0, 0⟩, t, a) := by
      cbv
    have hr : Table.Reachable t a := .get (.empty _ _) hget
    have hbind : t.bindings a = [("foo", ⟨0, 0⟩, none)] := by cbv
    have hwords : ∀ x ∈ t.bindings a, shortWord (utf8Bytes x.1) := by
      rw [hbind]
      intro x hx
      rw [List.mem_singleton.mp hx]
      cbv
    exact ⟨hr, rfl, hwords, htable t a hr rfl hwords⟩
  · intro l
    have hl : Listing.ofSource "x y X" {} = .ok l := by cbv
    have hwords : ∀ e ∈ l.entries, shortWord (utf8Bytes e.name) := by
      intro e he
      simp only [l, List.mem_cons, List.not_mem_nil, or_false] at he
      rcases he with rfl | rfl <;> cbv
    exact ⟨hl, hwords, hlisting _ _ l hl hwords⟩

end Lexicon
