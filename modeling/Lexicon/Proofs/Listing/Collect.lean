import Mathlib
import Lexicon.Proofs.Listing.Fold
import Lexicon.Proofs.Table.Room

/-!
# A listing is the reference listing

A listing reads lexemes into a symbol table, with a map of occurrence counts by symbol id, and
then lists the table's symbols sorted by name. Read through the table's bindings, every state of
that run follows the reference fold (`Listing.Tally.Follows`): the bindings, each with the count
of its id, are the fold's entries in some order, and an id that no binding has counts nothing.
Each lexeme keeps this (`Follows.add`), and so does the whole run (`Follows.run`), which stops at
the first scan error and fails only if a lookup does. With names that fit a 32-bit field, a chunk
size that fits one too, no more identifiers than a 32-bit field counts, and an allocator that
grants what the lookups ask (`Listing.Grants`), no lookup fails.

So the listing of a text is the reference listing (`Listing.ofSource_reference`). The entries
are the fold's sorted bytewise, which depends on the text alone; the counts of the table are
those of the entries' names. Only the number of arena chunks depends on the sizing; and a sizing
whose first chunk index the allocator refuses fails on the first identifier.

* `Table.classify`, `Listing.declare`: how an identifier uses up the pending kind.
* `Listing.Lists`: bindings and counts that list the fold's entries.
* `Listing.Grants`: what the lookups of a listing ask of the allocator.
* `Listing.Tally.Follows`, `Follows.add`, `Follows.run`: the invariant of the run.
* `Listing.Shows`, `Listing.ofSource_reference`: what a listing shows.
-/

namespace Lexicon

namespace Table

variable {t t' : Table} {a a' : Arena} {c : String} {id : SymbolId} {k₀ : Option Kind}

/-- The only binding of the id of a binding is that binding. -/
theorem WellFormed.eq_of_id (hw : t.WellFormed a) (hm : (c, id, k₀) ∈ t.bindings a)
    {x : String × SymbolId × Option Kind} (hx : x ∈ t.bindings a) (hid : x.2.1 = id) :
    x = (c, id, k₀) :=
  List.inj_on_of_nodup_map hw.nodup_ids hx hm hid

/-- A binding has the id of a binding exactly when it has its name. -/
theorem WellFormed.id_iff_name (hw : t.WellFormed a) (hm : (c, id, k₀) ∈ t.bindings a) :
    ∀ x ∈ t.bindings a, x.2.1 = id ↔ x.1 = c := by
  rintro ⟨c', id', k'⟩ hx
  refine ⟨fun hid => by rw [hw.eq_of_id hm hx hid], fun hc => ?_⟩
  simp only at hc
  subst hc
  exact (hw.binding_unique hx hm).1

/-- The binding `x` after the symbol `id` is classified with the pending kind `p`: the symbol
takes `p` unless it has a kind. -/
def classify (p : Option Kind) (id : SymbolId) (x : String × SymbolId × Option Kind) :
    String × SymbolId × Option Kind :=
  if x.2.1 = id then (x.1, id, x.2.2.or p) else x

@[simp] theorem classify_id (p : Option Kind) (x : String × SymbolId × Option Kind) :
    (classify p id x).2.1 = x.2.1 := by
  unfold classify
  split <;> simp [*]

theorem map_classify_none (B : List (String × SymbolId × Option Kind)) :
    B.map (classify none id) = B := by
  have hid : ∀ x ∈ B, classify none id x = x := by
    rintro ⟨c, i, k⟩ -
    unfold classify
    split
    · next h =>
      simp only at h
      simp [h]
    · rfl
  rw [List.map_congr_left hid, List.map_id']

/-- The table after an identifier of the symbol `id` uses up the pending kind `p`: the symbol
takes `p` unless it has a kind. -/
def declare (t : Table) (id : SymbolId) : Option Kind → Table
  | some k => if (t.symbol? id).map (·.kind) = some none then (t.setKind id k).getD t else t
  | none => t

theorem hasher_declare (t : Table) (id : SymbolId) (p : Option Kind) :
    (t.declare id p).hasher = t.hasher := by
  cases p with
  | none => rfl
  | some k =>
    simp only [declare]
    split
    · cases hk : t.setKind id k with
      | none => rfl
      | some t' =>
        obtain ⟨-, rfl⟩ := setKind_eq_some.mp hk
        rfl
    · rfl

theorem Reachable.declare [Allocator] (h : Reachable t a) (id : SymbolId) (p : Option Kind) :
    Reachable (t.declare id p) a := by
  cases p with
  | none => exact h
  | some k =>
    simp only [Table.declare]
    split
    · cases hk : t.setKind id k with
      | none => exact h
      | some t' => exact .setKind h hk
    · exact h

/-- Using up the pending kind classifies the symbol `id` in the bindings. -/
theorem WellFormed.bindings_declare (hw : t.WellFormed a) (hm : (c, id, k₀) ∈ t.bindings a)
    (p : Option Kind) : (t.declare id p).bindings a = (t.bindings a).map (classify p id) := by
  cases p with
  | none => exact (map_classify_none _).symm
  | some k =>
    have hkind : (t.symbol? id).map (·.kind) = some k₀ := (hw.mem_bindings_iff.mp hm).2
    -- the binding of `id` is the only one the classification can change
    have hmap : ∀ k₁, (∀ x ∈ t.bindings a, x.2.1 = id → classify (some k) id x = (c, id, k₁)) →
        (t.bindings a).map (classify (some k) id) =
          (t.bindings a).map fun x => if x.2.1 = id then (x.1, id, k₁) else x := by
      intro k₁ hk₁
      refine List.map_congr_left fun x hx => ?_
      by_cases hid : x.2.1 = id
      · rw [hk₁ x hx hid, if_pos hid, hw.eq_of_id hm hx hid]
      · simp [classify, hid]
    simp only [declare]
    rw [hkind]
    cases k₀ with
    | none =>
      -- an unclassified symbol takes the kind
      obtain ⟨sym, hs, -⟩ := Option.map_eq_some_iff.mp hkind
      obtain ⟨t', ht'⟩ : ∃ t', t.setKind id k = some t' := ⟨_, by rw [Table.setKind, hs]; rfl⟩
      rw [if_pos rfl, ht', Option.getD_some, hw.setKind_bindings ht',
        hmap (some k) fun x hx hid => by simp [hw.eq_of_id hm hx hid, classify]]
    | some k₁ =>
      -- a classified symbol keeps its kind
      rw [if_neg (by simp), hmap (some k₁) fun x hx hid => by simp [hw.eq_of_id hm hx hid, classify]]
      refine (List.map_congr_left fun x hx => ?_).trans (List.map_id' _) |>.symm
      by_cases hid : x.2.1 = id
      · rw [if_pos hid, hw.eq_of_id hm hx hid]
      · rw [if_neg hid]

/-- A lookup keeps the table's hasher. -/
theorem hasher_get [Allocator] {held : Bool} {n : String} (h : t.get ⟨a, held⟩ n = .ok (id, t', a')) :
    t'.hasher = t.hasher := by
  obtain ⟨-, -, -, -, ⟨-, -, -, rfl, -⟩ | ⟨-, -, -, -, -, rfl, -⟩ | ⟨-, -, -, -, rfl, -⟩⟩ :=
    get_eq_ok h <;> rfl

end Table

namespace Listing

open Table

/-- Reading an identifier: a lookup, one more occurrence of the id it returns, and the pending
kind used up. -/
theorem add_ident [Allocator] (s : Tally) (text : String) (line : Nat) :
    s.add ⟨.ident text, line⟩ = (s.table.get ⟨s.arena, false⟩ text).map fun r =>
      ⟨r.2.1.declare r.1 s.pending, r.2.2, s.counts.insert r.1 (s.counts.getD r.1 0 + 1), none⟩ := by
  obtain ⟨table, arena, counts, pending⟩ := s
  simp only [Tally.add]
  cases table.get ⟨arena, false⟩ text with
  | error e => rfl
  | ok r =>
    obtain ⟨id, t₁, a₁⟩ := r
    cases pending <;> rfl

/-! ## Bindings that list the fold's entries -/

/-- The entry of a binding, with the occurrences counted for its id. -/
def entryOf (counts : Std.HashMap SymbolId Nat) (x : String × SymbolId × Option Kind) : Entry :=
  ⟨x.2.2, x.1, counts.getD x.2.1 0⟩

section Lists

variable {B B' : List (String × SymbolId × Option Kind)} {counts : Std.HashMap SymbolId Nat}
  {seen : List Entry} {c : String} {id : SymbolId} {k₀ : Option Kind}

theorem map_name_entryOf (counts : Std.HashMap SymbolId Nat) (B : List (String × SymbolId × Option Kind)) :
    (B.map (entryOf counts)).map (·.name) = B.map (·.1) := by
  simp [entryOf]

/-- One more occurrence of the symbol `id` of name `c`, classified with `p`: its entry is
recounted, and the others stay. -/
theorem map_entryOf_classify (hB : ∀ x ∈ B, x.2.1 = id ↔ x.1 = c) (counts : Std.HashMap SymbolId Nat)
    (p : Option Kind) :
    (B.map (classify p id)).map (entryOf (counts.insert id (counts.getD id 0 + 1))) =
      (B.map (entryOf counts)).map fun e => if e.name = c then e.recount p else e := by
  simp only [List.map_map]
  refine List.map_congr_left fun x hx => ?_
  by_cases hid : x.2.1 = id
  · have hc := (hB x hx).mp hid
    simp [classify, entryOf, Entry.recount, hid, hc]
  · have hc : x.1 ≠ c := fun h => hid ((hB x hx).mpr h)
    simp [classify, entryOf, hid, hc, Std.HashMap.getD_insert, Ne.symm hid]

/-- Bindings `B`, with the occurrences `counts` of their ids, list the entries `seen`: their
entries are `seen` in some order, and an id that no binding has has no occurrence. -/
structure Lists (B : List (String × SymbolId × Option Kind)) (counts : Std.HashMap SymbolId Nat)
    (seen : List Entry) : Prop where
  perm : (B.map (entryOf counts)).Perm seen
  unbound : ∀ id, (∀ x ∈ B, x.2.1 ≠ id) → counts.getD id 0 = 0

theorem Lists.mem_names (hl : Lists B counts seen) : c ∈ seen.map (·.name) ↔ c ∈ B.map (·.1) := by
  rw [← map_name_entryOf counts B]
  exact (hl.perm.map _).mem_iff.symm

/-- Counting an occurrence of a bound name recounts its entry. -/
theorem Lists.count_bound (hl : Lists B counts seen) (hm : (c, id, k₀) ∈ B)
    (hB : ∀ x ∈ B, x.2.1 = id ↔ x.1 = c) (p : Option Kind) :
    Lists (B.map (classify p id)) (counts.insert id (counts.getD id 0 + 1)) (tick c p seen) where
  perm := by
    rw [map_entryOf_classify hB, tick_of_mem (hl.mem_names.mpr (List.mem_map.mpr ⟨_, hm, rfl⟩))]
    exact hl.perm.map _
  unbound id' hid' := by
    have hB' : ∀ x ∈ B, x.2.1 ≠ id' := fun x hx => by simpa using hid' _ (List.mem_map_of_mem hx)
    have hne : id ≠ id' := hB' _ hm
    rw [Std.HashMap.getD_insert, if_neg (by simpa using hne)]
    exact hl.unbound id' hB'

/-- Counting the first occurrence of a name, bound to a fresh id, adds its entry. -/
theorem Lists.count_new (hl : Lists B counts seen) (hfresh : ∀ x ∈ B, x.2.1 ≠ id)
    (hc : c ∉ B.map (·.1)) (hperm : B'.Perm ((c, id, none) :: B))
    (hB' : ∀ x ∈ B', x.2.1 = id ↔ x.1 = c) (p : Option Kind) :
    Lists (B'.map (classify p id)) (counts.insert id (counts.getD id 0 + 1)) (tick c p seen) where
  perm := by
    rw [map_entryOf_classify hB', tick_of_not_mem (mt hl.mem_names.mp hc)]
    -- the fresh id has no occurrence yet, and no other entry has the name
    have hzero : counts.getD id 0 = 0 := hl.unbound id hfresh
    have hrest : ((B.map (entryOf counts)).map fun e => if e.name = c then e.recount p else e) =
        B.map (entryOf counts) :=
      map_recount_of_not_mem (by rwa [map_name_entryOf])
    have hhead : (((c, id, none) :: B).map (entryOf counts)).map
        (fun e => if e.name = c then e.recount p else e) = ⟨p, c, 1⟩ :: B.map (entryOf counts) := by
      rw [List.map_cons, List.map_cons, hrest]
      simp [entryOf, Entry.recount, hzero]
    refine ((hperm.map _).map _).trans ?_
    rw [hhead]
    exact (hl.perm.cons _).trans (List.perm_append_singleton _ _).symm
  unbound id' hid' := by
    have hB'' : ∀ x ∈ B', x.2.1 ≠ id' := fun x hx => by simpa using hid' _ (List.mem_map_of_mem hx)
    have hne : id ≠ id' := hB'' _ (hperm.mem_iff.mpr List.mem_cons_self)
    rw [Std.HashMap.getD_insert, if_neg (by simpa using hne)]
    exact hl.unbound id' fun x hx => hB'' x (hperm.mem_iff.mpr (List.mem_cons_of_mem _ hx))

end Lists

section Lookup

variable [Allocator] {t t₁ : Table} {a a₁ : Arena} {counts : Std.HashMap SymbolId Nat} {seen : List Entry}
  {text : String} {id : SymbolId}

/-- A lookup binds the canonical name to the id it returns, adds at most one binding, and with
that occurrence counted, the bindings after it list the fold's entries after it. -/
theorem Lists.get (hl : Lists (t.bindings a) counts seen) (hw : t.WellFormed a)
    (hget : t.get ⟨a, false⟩ text = .ok (id, t₁, a₁)) (p : Option Kind) :
    (∃ k₁, (canonical text, id, k₁) ∈ t₁.bindings a₁) ∧
      (t₁.bindings a₁).length ≤ (t.bindings a).length + 1 ∧
      Lists ((t₁.bindings a₁).map (classify p id)) (counts.insert id (counts.getD id 0 + 1))
        (tick (canonical text) p seen) := by
  by_cases hc : canonical text ∈ (t.bindings a).map (·.1)
  · -- a bound name: the lookup returns its id and changes no binding
    obtain ⟨⟨c, id₀, k₀⟩, hm, rfl⟩ := List.mem_map.mp hc
    obtain ⟨rfl, hsame⟩ := hw.get_of_mem hm hget
    rw [hsame]
    exact ⟨⟨k₀, hm⟩, by omega, hl.count_bound hm (hw.id_iff_name hm) p⟩
  · -- a new name: bound to a fresh id with no kind
    have hn : ∀ x ∈ t.bindings a, x.1 ≠ canonical text := fun x hx h =>
      hc (List.mem_map.mpr ⟨x, hx, h⟩)
    obtain ⟨hfresh, hperm⟩ := hw.get_of_not_mem hn hget
    have hm₁ : (canonical text, id, none) ∈ t₁.bindings a₁ := hperm.mem_iff.mpr List.mem_cons_self
    exact ⟨⟨none, hm₁⟩, by rw [hperm.length_eq, List.length_cons],
      hl.count_new hfresh hc hperm ((hw.get hget).id_iff_name hm₁) p⟩

end Lookup

/-! ## The run follows the fold -/

/-- What the lookups of `n` identifiers into a fresh arena of sizing `config` may ask of the
allocator, besides the chunk each may open: a chunk index of up to a slot per identifier and one
step more, collision buckets of up to twice as many symbols as identifiers, and node vectors of up
to a node per identifier. -/
structure Grants [Allocator] (config : Arena.Config) (n : Nat) : Prop where
  index : ∀ m ≤ n + config.clamp.indexStep, Allocator.grantsIndex m = true
  bucket : ∀ m ≤ 2 * n, Allocator.grantsBucket m = true
  nodes : ∀ m ≤ n, Allocator.grantsNodes m = true

namespace Tally

@[simp] theorem firstError_cons_error (e : Source.ScanError) (items : List Source.Item) :
    firstError (.error e :: items) = some e := rfl

@[simp] theorem firstError_cons_ok (l : Source.Lexeme) (items : List Source.Item) :
    firstError (.ok l :: items) = firstError items := rfl

section Runs

variable [Allocator]

/-- A tally follows the fold `f` after `n` identifiers, on an arena sized by `config`: its table
is reachable and keyed by the polynomial hasher, the pending kinds agree, its bindings with their
counts list the fold's entries, and the arena and the table stay within what `n` lookups need. -/
structure Follows (s : Tally) (f : Fold) (config : Arena.Config) (n : Nat) : Prop where
  reachable : Table.Reachable s.table s.arena
  hasher : s.table.hasher = .polynomial
  pending : s.pending = f.pending
  lists : Lists (s.table.bindings s.arena) s.counts f.seen
  bounded : s.arena.Bounded
  config : s.arena.config = config.clamp
  chunks : s.arena.chunks.size ≤ n
  len : s.table.len ≤ n

variable {s : Tally} {f : Fold} {config : Arena.Config} {n : Nat}

theorem follows_start (h : config.chunkSize ≤ fieldMax) : (start config).Follows .start config 0 where
  reachable := .empty .polynomial _
  hasher := rfl
  pending := rfl
  lists := by
    have hnil : (Table.empty .polynomial).bindings (Arena.empty config) = [] :=
      List.eq_nil_of_length_eq_zero (WellFormed.empty _ _).length_bindings
    exact ⟨by simp [start, hnil, Fold.start], fun _ _ => by simp [start]⟩
  bounded := Arena.bounded_empty h
  config := rfl
  chunks := by simp [start, Arena.empty]
  len := by simp [start, Table.len, Table.empty]

/-- The lookup of an identifier succeeds, if its name fits a 32-bit field, the allocator grants
the chunk it may open, and there are fewer identifiers so far than the `N` that the allocator
grants for and that a 32-bit field counts: the trial copy fits the arena, and a new symbol the
table. -/
theorem Follows.get_ok (h : s.Follows f config n) {text : String}
    (hlen : text.utf8ByteSize ≤ fieldMax)
    (hchunk : Allocator.grantsChunk (max config.clamp.chunkSize text.utf8ByteSize) = true)
    {N : Nat} (hg : Grants config N) (hN : N ≤ fieldMax) (hn : n < N) :
    ∃ r, s.table.get ⟨s.arena, false⟩ text = .ok r := by
  have hchunks := h.chunks
  have hcount := h.len
  -- the index grows to at most a slot per identifier and one step more
  have hidx : s.arena.chunks.size = s.arena.slots →
      Allocator.grantsIndex (s.arena.chunks.size + s.arena.config.indexStep) = true :=
    fun _ => hg.index _ (by rw [h.config]; omega)
  obtain ⟨⟨trial, a₀⟩, halloc⟩ := Arena.allocLower_ok h.bounded hlen (by omega)
    (by rwa [h.config]) hidx
  exact h.reachable.wellFormed.get_ok (by omega) (fun m hm => hg.bucket m (by omega))
    (fun m hm => hg.nodes m (by omega)) halloc

/-- An identifier keeps the invariant, within the same bounds. -/
theorem Follows.add_ident (h : s.Follows f config n) (line : Nat) {text : String}
    (hlen : text.utf8ByteSize ≤ fieldMax)
    (hchunk : Allocator.grantsChunk (max config.clamp.chunkSize text.utf8ByteSize) = true)
    {N : Nat} (hg : Grants config N) (hN : N ≤ fieldMax) (hn : n < N) :
    ∃ s', s.add ⟨.ident text, line⟩ = .ok s' ∧
      s'.Follows (f.step ⟨.ident text, line⟩) config (n + 1) := by
  have hw := h.reachable.wellFormed
  obtain ⟨⟨id, t₁, a₁⟩, hget⟩ := h.get_ok hlen hchunk hg hN hn
  have hr₁ : Table.Reachable t₁ a₁ := .get h.reachable hget
  obtain ⟨hb₁, hsize₁, hcfg₁⟩ := get_bounded h.bounded hlen hget
  obtain ⟨⟨k₁, hm₁⟩, hlen₁, hl₁⟩ := h.lists.get hw hget s.pending
  have hbind := hr₁.wellFormed.bindings_declare hm₁ s.pending
  refine ⟨⟨t₁.declare id s.pending, a₁, s.counts.insert id (s.counts.getD id 0 + 1), none⟩,
    by rw [Listing.add_ident, hget]; rfl, hr₁.declare id s.pending, ?_, rfl, ?_, hb₁,
    hcfg₁.trans h.config, by have := h.chunks; simp only; omega, ?_⟩
  · rw [hasher_declare, hasher_get hget, h.hasher]
  · show Lists _ _ (tick (canonical text) f.pending f.seen)
    rw [hbind, ← h.pending]
    exact hl₁
  · -- one more binding at most
    have hlen₂ := (hr₁.declare id s.pending).wellFormed.length_bindings
    rw [hbind, List.length_map] at hlen₂
    have := hw.length_bindings
    have := h.len
    show (t₁.declare id s.pending).len ≤ n + 1
    omega

theorem Follows.add_declarator (h : s.Follows f config n) (k : Kind) (line : Nat) :
    ({ s with pending := some k } : Tally).Follows (f.step ⟨.declarator k, line⟩) config n :=
  { h with pending := rfl }

/-- Every lexeme keeps the invariant, within the same bounds. -/
theorem Follows.add (h : s.Follows f config n) (l : Source.Lexeme)
    (hlen : ∀ t ∈ l.ident?.toList, t.utf8ByteSize ≤ fieldMax)
    (hchunk : ∀ t ∈ l.ident?.toList,
      Allocator.grantsChunk (max config.clamp.chunkSize t.utf8ByteSize) = true)
    {N : Nat} (hg : Grants config N) (hN : N ≤ fieldMax) (hn : n + l.ident?.toList.length ≤ N) :
    ∃ s', s.add l = .ok s' ∧ s'.Follows (f.step l) config (n + l.ident?.toList.length) := by
  obtain ⟨w, line⟩ := l
  cases w with
  | declarator k => exact ⟨_, rfl, h.add_declarator k line⟩
  | ident text =>
    simp only [Source.Lexeme.ident?, Option.toList_some, List.mem_singleton, forall_eq,
      List.length_singleton] at hlen hchunk hn ⊢
    exact h.add_ident line hlen hchunk hg hN hn

/-- The run over the items of a scan keeps the invariant: it stops at the first error, and
otherwise ends in a tally that follows the fold over all the lexemes. -/
theorem Follows.run (h : s.Follows f config n) (items : List Source.Item)
    (hlen : ∀ t ∈ idents (lexemes items), t.utf8ByteSize ≤ fieldMax)
    (hchunk : ∀ t ∈ idents (lexemes items),
      Allocator.grantsChunk (max config.clamp.chunkSize t.utf8ByteSize) = true)
    {N : Nat} (hg : Grants config N) (hN : N ≤ fieldMax)
    (hn : n + (idents (lexemes items)).length ≤ N) :
    (∀ e, firstError items = some e → Tally.run items s = .error (.scan e)) ∧
      (firstError items = none → ∃ s', Tally.run items s = .ok s' ∧
        s'.Follows ((lexemes items).foldl Fold.step f) config
          (n + (idents (lexemes items)).length)) := by
  induction items generalizing s f n with
  | nil => exact ⟨fun e he => by simp [firstError] at he, fun _ => ⟨s, rfl, by simpa using h⟩⟩
  | cons item items ih =>
    cases item with
    | error e =>
      -- the first error stops the run
      refine ⟨fun e' he => ?_, fun he => by simp at he⟩
      cases he
      rfl
    | ok l =>
      simp only [lexemes_cons_ok, idents_cons, List.mem_append, List.length_append] at hlen hchunk hn
      obtain ⟨s', hadd, h'⟩ := h.add l (fun t ht => hlen t (.inl ht)) (fun t ht => hchunk t (.inl ht))
        hg hN (by omega)
      obtain ⟨ih₁, ih₂⟩ := ih h' (fun t ht => hlen t (.inr ht)) (fun t ht => hchunk t (.inr ht))
        (by omega)
      have hrun : Tally.run (.ok l :: items) s = Tally.run items s' := by
        simp only [Tally.run, hadd]
      rw [hrun, firstError_cons_ok]
      refine ⟨ih₁, fun hn => ?_⟩
      obtain ⟨s'', hs'', hf⟩ := ih₂ hn
      refine ⟨s'', hs'', ?_⟩
      simp only [lexemes_cons_ok, List.foldl_cons, idents_cons, List.length_append]
      rwa [← Nat.add_assoc]

end Runs

end Tally

/-! ## What a listing shows -/

/-- The polynomial keys of the entries' names. -/
def keys (es : List Entry) : List Key := es.map fun e => Hasher.polynomial.hash e.name

/-- What the listing `l` of the lexemes `ls` shows: the reference entries, which hold each
canonical name of an identifier once, in strictly increasing bytewise order, with the number of
identifiers that spell it, at least one, and so as many occurrences in all as identifiers; and
the counts of the table: a symbol per entry, a node per key of their names, and a collision per
key shared by two names or more. -/
structure Shows (l : Listing) (ls : List Source.Lexeme) : Prop where
  entries : l.entries = reference ls
  sorted : (l.entries.map (utf8Bytes ·.name)).Pairwise (· < ·)
  names : ∀ c, c ∈ l.entries.map (·.name) ↔ ∃ t ∈ idents ls, canonical t = c
  occurrences : ∀ e ∈ l.entries, e.occurrences = (idents ls).countP fun t => canonical t = e.name
  one_le : ∀ e ∈ l.entries, 1 ≤ e.occurrences
  total : (l.entries.map (·.occurrences)).sum = (idents ls).length
  symbols : l.stats.symbols = l.entries.length
  nodes : l.stats.nodes = (keys l.entries).toFinset.card
  collisions : l.stats.collisions =
    ((keys l.entries).toFinset.filter fun k => 2 ≤ (keys l.entries).count k).card

/-- The entries a listing reads off its table are those of the bindings, each with its count. -/
theorem iter_map_entry {t : Table} {a : Arena} (hw : t.WellFormed a)
    (counts : Std.HashMap SymbolId Nat) :
    t.iter.map (fun p => (⟨p.2.kind, (t.name? a p.1).getD "", counts.getD p.1 0⟩ : Entry)) =
      (t.bindings a).map (entryOf counts) := by
  rw [bindings, List.map_filterMap, ← List.filterMap_eq_map]
  refine List.filterMap_congr fun p hp => ?_
  obtain ⟨m, hb⟩ := hw.bindingOf_iter hp
  have hname := (hw.mem_bindings_iff.mp (List.mem_filterMap.mpr ⟨p, hp, hb⟩)).1
  simp [hb, hname, entryOf]

namespace Tally

variable [Allocator] {s : Tally} {config : Arena.Config} {n : Nat} {ls : List Source.Lexeme}

/-- A tally that follows the fold over `ls` lists what the listing of `ls` shows. -/
theorem Follows.shows (h : s.Follows (Fold.run ls) config n) :
    Shows ⟨(s.table.iter.map fun p =>
        (⟨p.2.kind, (s.table.name? s.arena p.1).getD "", s.counts.getD p.1 0⟩ : Entry)).mergeSort
        fun a b => decide (a.name ≤ b.name),
      ⟨s.table.len, s.table.nodeCount, s.table.collisionCount, s.arena.chunkCount⟩⟩ ls := by
  have hw := h.reachable.wellFormed
  rw [iter_map_entry hw]
  -- the bindings' entries, sorted by name, are the fold's sorted bytewise
  set view := (s.table.bindings s.arena).map (entryOf s.counts)
  have ht : Tallies view (idents ls) := (tallies_run ls).perm h.lists.perm
  have hperm := List.mergeSort_perm view fun a b => decide (a.name ≤ b.name)
  have ht' := ht.perm hperm
  -- the keys of the bound names are those of the entries
  have hkeys : (s.table.bindings s.arena).map (s.table.hasher.hash ·.1) = keys view := by
    simp [keys, view, entryOf, h.hasher]
  have hkp : (keys view).Perm (keys (view.mergeSort fun a b => decide (a.name ≤ b.name))) :=
    (hperm.map _).symm
  refine ⟨?_, ?_, ht'.names, ht'.occurrences, fun e he => ht'.one_le he, ht'.total, ?_, ?_, ?_⟩
  · exact eq_byBytes (hperm.trans h.lists.perm) (tallies_run ls).nodup
      (pairwise_mergeSort_name ht.nodup)
  · exact pairwise_mergeSort_name ht.nodup
  · show s.table.len = _
    rw [← hw.length_bindings, hperm.length_eq, List.length_map]
  · show s.table.nodeCount = _
    rw [hw.nodeCount_eq, hkeys, List.toFinset_eq_of_perm _ _ hkp]
  · show s.table.collisionCount = _
    rw [hw.collisionCount_eq, hkeys, List.toFinset_eq_of_perm _ _ hkp]
    simp only [hkp.count_eq]

end Tally

section Listing

variable [Allocator]

/-- The listing of a text is its reference listing, on every sizing whose chunks fit a 32-bit
field, for identifiers that fit a 32-bit field and that a 32-bit field counts, with an allocator
that grants the chunk each identifier may open and what `Grants` names. If the scan reports an
error, the listing fails with the first one; otherwise it shows the fold's entries in bytewise
order, with the counts of their names. -/
theorem ofSource_reference (source : String) (config : Arena.Config)
    (hlen : ∀ t ∈ idents (lexemes (Source.scan source)), t.utf8ByteSize ≤ fieldMax)
    (hsize : config.chunkSize ≤ fieldMax)
    (hcount : (idents (lexemes (Source.scan source))).length ≤ fieldMax)
    (hchunk : ∀ t ∈ idents (lexemes (Source.scan source)),
      Allocator.grantsChunk (max config.clamp.chunkSize t.utf8ByteSize) = true)
    (hg : Grants config (idents (lexemes (Source.scan source))).length) :
    (∀ e, firstError (Source.scan source) = some e → ofSource source config = .error (.scan e)) ∧
      (firstError (Source.scan source) = none →
        ∃ l, ofSource source config = .ok l ∧ l.Shows (lexemes (Source.scan source))) := by
  obtain ⟨herr, hok⟩ := (Tally.follows_start hsize).run (Source.scan source) hlen hchunk hg hcount
    (by simp)
  refine ⟨fun e he => ?_, fun hn => ?_⟩
  · simp only [ofSource, herr e he]
    rfl
  · obtain ⟨s, hrun, hs⟩ := hok hn
    exact ⟨_, by simp only [ofSource, hrun]; rfl, hs.shows⟩

end Listing

set_option maxRecDepth 8000 in
/-- A declared name spelled twice: the text scans without error, every bound holds on the default
sizing with an allocator that grants everything, and the listing shows the reference listing. -/
theorem ofSource_reference_declared :
    letI := Allocator.granting
    (∀ t ∈ idents (lexemes (Source.scan "Local x X")), t.utf8ByteSize ≤ fieldMax) ∧
      ({} : Arena.Config).chunkSize ≤ fieldMax ∧
      (idents (lexemes (Source.scan "Local x X"))).length ≤ fieldMax ∧
      (∀ t ∈ idents (lexemes (Source.scan "Local x X")),
        Allocator.grantsChunk (max ({} : Arena.Config).clamp.chunkSize t.utf8ByteSize) = true) ∧
      Grants {} (idents (lexemes (Source.scan "Local x X"))).length ∧
      firstError (Source.scan "Local x X") = none ∧
      ∃ l, ofSource "Local x X" {} = .ok l ∧ l.Shows (lexemes (Source.scan "Local x X")) := by
  let _ : Allocator := Allocator.granting
  have hscan : Source.scan "Local x X" =
      [.ok ⟨.declarator .localVar, 1⟩, .ok ⟨.ident "x", 1⟩, .ok ⟨.ident "X", 1⟩] := by
    cbv
  have h₁ : ∀ t ∈ idents (lexemes (Source.scan "Local x X")), t.utf8ByteSize ≤ fieldMax := by
    rw [hscan]
    decide
  have h₂ : ({} : Arena.Config).chunkSize ≤ fieldMax := by decide
  have h₃ : (idents (lexemes (Source.scan "Local x X"))).length ≤ fieldMax := by
    rw [hscan]
    decide
  have h₄ : ∀ t ∈ idents (lexemes (Source.scan "Local x X")),
      Allocator.grantsChunk (max ({} : Arena.Config).clamp.chunkSize t.utf8ByteSize) = true :=
    fun _ _ => rfl
  have h₅ : Grants {} (idents (lexemes (Source.scan "Local x X"))).length :=
    ⟨fun _ _ => rfl, fun _ _ => rfl, fun _ _ => rfl⟩
  have hn : firstError (Source.scan "Local x X") = none := by
    rw [hscan]
    rfl
  exact ⟨h₁, h₂, h₃, h₄, h₅, hn, (ofSource_reference "Local x X" {} h₁ h₂ h₃ h₄ h₅).2 hn⟩

set_option maxRecDepth 8000 in
/-- A chunk index that must reserve 2^30 slots at once is refused by an allocator that grants
indexes of up to 2^20 slots: a text that scans without error gets no listing at all on that
sizing, but does on the default one. -/
theorem ofSource_fails_for_wide_index_step :
    letI : Allocator := ⟨fun _ => true, fun m => decide (m ≤ 1048576), fun _ => true, fun _ => true⟩
    firstError (Source.scan "a") = none ∧ (ofSource "a" {}).isOk = true ∧
      ofSource "a" ⟨20000, 1073741824⟩ = .error (.store (.chunkIndexGrowth 1073741824)) := by
  let _ : Allocator := ⟨fun _ => true, fun m => decide (m ≤ 1048576), fun _ => true, fun _ => true⟩
  refine ⟨?_, ?_, ?_⟩ <;> cbv

end Listing

end Lexicon
