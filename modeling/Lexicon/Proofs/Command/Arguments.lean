import Mathlib
import Lexicon.Command.Options

/-!
# The arguments of the listing command

The listing command accepts `--stats` and `--chunk-size=` followed by a size: an optional `+`,
then one or more ASCII digits whose decimal value is from 1 to 2^64 - 1. It reads its arguments
in order; a later size overrides an earlier one, and the first argument of neither form is the
answer instead of options.

* `IsSize`, `IsSizeArg`, `IsOptionArg`, `LastSize`: the accepted arguments and the size that
  counts, stated on the characters.
* `parseSize?_eq_some_iff`: the reader of sizes accepts exactly the sizes, with their values.
* `Options.add_eq_some_iff`, `Options.add_eq_none_iff`: one argument.
* `Options.parse_accepts_exactly`: the options of a list of accepted arguments, and the first
  argument that is refused.
-/

namespace Lexicon.Command

/-! ## Accepted arguments -/

/-- The value of ASCII decimal digits, the most significant first. -/
def decimalValue (ds : List Char) : Nat := Nat.ofDigits 10 (ds.reverse.map (·.toNat - '0'.toNat))

/-- `s` is a size of value `n`: an optional `+` and one or more ASCII digits, of value at most
`2 ^ 64 - 1`. -/
def IsSize (s : String) (n : Nat) : Prop :=
  ∃ ds : List Char, (s.toList = ds ∨ s.toList = '+' :: ds) ∧ ds ≠ [] ∧ (∀ d ∈ ds, d.isDigit) ∧
    decimalValue ds = n ∧ n ≤ 2 ^ 64 - 1

/-- `arg` sets the chunk size to `n`, which is not zero. -/
def IsSizeArg (arg : String) (n : Nat) : Prop :=
  ∃ s, arg = "--chunk-size=" ++ s ∧ IsSize s n ∧ 0 < n

/-- An argument the listing command accepts. -/
def IsOptionArg (arg : String) : Prop := arg = "--stats" ∨ ∃ n, IsSizeArg arg n

/-- The last size argument of `args` has the value `n`: only `--stats` follows it. -/
def LastSize (args : List String) (n : Nat) : Prop :=
  ∃ pre arg post, args = pre ++ arg :: post ∧ IsSizeArg arg n ∧ ∀ a ∈ post, a = "--stats"

theorem decimalValue_append_singleton (ds : List Char) (d : Char) :
    decimalValue (ds ++ [d]) = 10 * decimalValue ds + (d.toNat - '0'.toNat) := by
  simp [decimalValue, Nat.ofDigits_cons, Nat.add_comm]

/-- Reading digits from the left multiplies by ten and adds: the decimal value. -/
theorem foldl_digits_eq_decimalValue (ds : List Char) :
    ds.foldl (fun n d => 10 * n + (d.toNat - '0'.toNat)) 0 = decimalValue ds := by
  induction ds using List.reverseRecOn with
  | nil => rfl
  | append_singleton ds d ih => rw [List.foldl_concat, ih, decimalValue_append_singleton]

/-- A size is one value. -/
theorem IsSize.unique {s : String} {n m : Nat} (hn : IsSize s n) (hm : IsSize s m) : n = m := by
  obtain ⟨ds, hds, -, hdig₁, rfl, -⟩ := hn
  obtain ⟨es, hes, -, hdig₂, rfl, -⟩ := hm
  -- the sign, if any, is the one character that is no digit
  have hplus : ¬ ('+' : Char).isDigit := by decide
  suffices ds = es by rw [this]
  rcases hds with h₁ | h₁ <;> rcases hes with h₂ | h₂
  · exact h₁.symm.trans h₂
  · exact absurd (hdig₁ '+' (by rw [← h₁, h₂]; exact List.mem_cons_self)) hplus
  · exact absurd (hdig₂ '+' (by rw [← h₂, h₁]; exact List.mem_cons_self)) hplus
  · exact List.cons_injective (h₁.symm.trans h₂)

theorem IsSizeArg.unique {arg : String} {n m : Nat} (hn : IsSizeArg arg n) (hm : IsSizeArg arg m) :
    n = m := by
  obtain ⟨s, rfl, hs, -⟩ := hn
  obtain ⟨s', hs', hsize', -⟩ := hm
  rw [String.append_right_inj] at hs'
  exact hs.unique (hs' ▸ hsize')

theorem not_isSizeArg_stats (n : Nat) : ¬ IsSizeArg "--stats" n := by
  rintro ⟨s, h, -⟩
  have := congrArg (·.toList.take 3) h
  simp [String.toList_append] at this

/-! ## The reader of sizes -/

/-- The reader of sizes accepts exactly the sizes, and reads their values. -/
theorem parseSize?_eq_some_iff (s : String) (n : Nat) : parseSize? s = some n ↔ IsSize s n := by
  have hplus : ¬ ('+' : Char).isDigit := by decide
  have hmax : wordMax = 2 ^ 64 - 1 := by decide
  unfold parseSize?
  simp only [foldl_digits_eq_decimalValue, hmax]
  split
  · -- a leading `+`: the digits are the rest
    rename_i ds hs
    simp only [IsSize, hs]
    constructor
    · intro h
      split at h
      · rename_i hd
        split at h
        · cases h
          exact ⟨ds, .inr rfl, hd.1, by simpa using hd.2, rfl, by assumption⟩
        · cases h
      · cases h
    · rintro ⟨es, hes, hne, hdig, rfl, hle⟩
      have hds : ds = es := by
        rcases hes with h | h
        · exact absurd (hdig '+' (by rw [← h]; exact List.mem_cons_self)) hplus
        · exact List.cons_injective h
      subst hds
      rw [if_pos ⟨hne, by simpa using hdig⟩, if_pos hle]
  · -- no sign: the digits are the whole text
    rename_i ds hno
    constructor
    · intro h
      split at h
      · rename_i hd
        split at h
        · cases h
          exact ⟨s.toList, .inl rfl, hd.1, by simpa using hd.2, rfl, by assumption⟩
        · cases h
      · cases h
    · rintro ⟨es, hes, hne, hdig, rfl, hle⟩
      have hds : s.toList = es := by
        rcases hes with h | h
        · exact h
        · exact absurd h (hno es)
      rw [hds, if_pos ⟨hne, by simpa using hdig⟩, if_pos hle]

/-! ## One argument -/

namespace Options

theorem isPrefixOf_chunkSizeFlag_iff (arg : String) :
    chunkSizeFlag.isPrefixOf arg = true ↔ ∃ s, arg = chunkSizeFlag ++ s := by
  simp only [String.isPrefixOf, String.startsWith_string_iff]
  constructor
  · rintro ⟨t, ht⟩
    exact ⟨String.ofList t, String.ext_iff.mpr (by simp [String.toList_append, ht])⟩
  · rintro ⟨s, rfl⟩
    exact ⟨s.toList, by simp [String.toList_append]⟩

/-- What follows the prefix of the chunk-size option, as `add` cuts it. -/
theorem rest_of_chunkSizeFlag (s : String) :
    String.ofList ((chunkSizeFlag ++ s).toList.drop chunkSizeFlag.length) = s := by
  rw [String.toList_append, ← String.length_toList, List.drop_left, String.ofList_toList]

/-- An accepted argument sets the statistics or the chunk size, and nothing else. -/
theorem add_eq_some_iff (o o' : Options) (arg : String) :
    o.add arg = some o' ↔ (arg = "--stats" ∧ o' = { o with stats := true }) ∨
      ∃ n, IsSizeArg arg n ∧ o' = { o with chunkSize := some n } := by
  unfold add
  by_cases hstats : arg = "--stats"
  · subst hstats
    simp only [if_true, Option.some.injEq, true_and]
    exact ⟨fun h => .inl h.symm,
      fun h => h.elim Eq.symm fun ⟨n, hn, _⟩ => absurd hn (not_isSizeArg_stats n)⟩
  · rw [if_neg hstats]
    simp only [hstats, false_and, false_or]
    by_cases hpre : chunkSizeFlag.isPrefixOf arg = true
    · obtain ⟨s, rfl⟩ := (isPrefixOf_chunkSizeFlag_iff arg).mp hpre
      rw [if_pos hpre, rest_of_chunkSizeFlag]
      -- the size argument is the text after the prefix
      have hsize : ∀ n, IsSizeArg (chunkSizeFlag ++ s) n ↔ IsSize s n ∧ 0 < n := by
        intro n
        constructor
        · rintro ⟨s', h, hs', hn⟩
          rw [chunkSizeFlag, String.append_right_inj] at h
          exact ⟨h ▸ hs', hn⟩
        · rintro ⟨hs, hn⟩
          exact ⟨s, rfl, hs, hn⟩
      simp only [hsize]
      cases hp : parseSize? s with
      | none =>
        refine iff_of_false (by simp) ?_
        rintro ⟨n, ⟨hs, -⟩, -⟩
        rw [← parseSize?_eq_some_iff, hp] at hs
        cases hs
      | some m =>
        have hm := (parseSize?_eq_some_iff s m).mp hp
        dsimp only
        constructor
        · intro h
          by_cases hpos : 0 < m
          · rw [if_pos hpos] at h
            cases h
            exact ⟨m, ⟨hm, hpos⟩, rfl⟩
          · rw [if_neg hpos] at h
            cases h
        · rintro ⟨n, ⟨hn, hpos⟩, rfl⟩
          rw [hn.unique hm] at hpos ⊢
          simp [hpos]
    · rw [if_neg hpre]
      refine iff_of_false (by simp) ?_
      rintro ⟨n, ⟨s, rfl, -⟩, -⟩
      exact hpre ((isPrefixOf_chunkSizeFlag_iff _).mpr ⟨s, rfl⟩)

theorem add_eq_none_iff (o : Options) (arg : String) : o.add arg = none ↔ ¬ IsOptionArg arg := by
  rw [← not_iff_not, ← ne_eq, Option.ne_none_iff_exists', not_not]
  constructor
  · rintro ⟨o', h⟩
    rcases (add_eq_some_iff o o' arg).mp h with ⟨h, -⟩ | ⟨n, hn, -⟩
    · exact .inl h
    · exact .inr ⟨n, hn⟩
  · rintro (h | ⟨n, hn⟩)
    · exact ⟨_, (add_eq_some_iff o _ arg).mpr (.inl ⟨h, rfl⟩)⟩
    · exact ⟨_, (add_eq_some_iff o _ arg).mpr (.inr ⟨n, hn, rfl⟩)⟩

theorem isOptionArg_of_add_eq_some {o o' : Options} {arg : String} (h : o.add arg = some o') :
    IsOptionArg arg := by
  rcases (add_eq_some_iff o o' arg).mp h with ⟨h, -⟩ | ⟨n, hn, -⟩
  · exact .inl h
  · exact .inr ⟨n, hn⟩

/-! ## The whole list -/

/-- The options of `args` read from the options `o`, or the first argument that is none. -/
def parseFrom (o : Options) (args : List String) : Except String Options :=
  args.foldlM (fun o arg => match o.add arg with
    | some o => .ok o
    | none => .error arg) o

theorem parse_eq_parseFrom (args : List String) : parse args = parseFrom {} args := rfl

theorem parseFrom_cons (o : Options) (arg : String) (args : List String) :
    parseFrom o (arg :: args) = match o.add arg with
      | some o => parseFrom o args
      | none => .error arg := by
  simp only [parseFrom, List.foldlM_cons]
  cases o.add arg <;> rfl

/-- The options after an argument known to be accepted. -/
def apply (o : Options) (arg : String) : Options := (o.add arg).getD o

/-- Over accepted arguments the reading succeeds, with each argument applied in turn. -/
theorem parseFrom_eq_ok_iff (o o' : Options) (args : List String) :
    parseFrom o args = .ok o' ↔ (∀ a ∈ args, IsOptionArg a) ∧ o' = args.foldl apply o := by
  induction args generalizing o with
  | nil =>
    simp only [parseFrom, List.foldlM_nil, List.not_mem_nil, IsEmpty.forall_iff, implies_true,
      List.foldl_nil, true_and]
    exact ⟨fun h => (Except.ok.inj h).symm, fun h => h ▸ rfl⟩
  | cons arg args ih =>
    rw [parseFrom_cons, List.forall_mem_cons, List.foldl_cons]
    cases h : o.add arg with
    | none => exact iff_of_false (by simp) fun ⟨⟨ha, _⟩, _⟩ => (add_eq_none_iff o arg).mp h ha
    | some o₁ =>
      simp only [ih, apply, h, Option.getD_some, isOptionArg_of_add_eq_some h, true_and]

/-- The first refused argument is the answer, whatever the options read before it. -/
theorem parseFrom_eq_error_iff (o : Options) (args : List String) (a : String) :
    parseFrom o args = .error a ↔
      ∃ pre post, args = pre ++ a :: post ∧ (∀ x ∈ pre, IsOptionArg x) ∧ ¬ IsOptionArg a := by
  induction args generalizing o with
  | nil => simp [parseFrom, pure, Except.pure]
  | cons arg args ih =>
    rw [parseFrom_cons]
    cases h : o.add arg with
    | none =>
      -- the first argument is refused: it is the answer
      have hn := (add_eq_none_iff o arg).mp h
      simp only [Except.error.injEq]
      constructor
      · rintro rfl
        exact ⟨[], args, rfl, by simp, hn⟩
      · rintro ⟨pre, post, heq, hpre, ha⟩
        rcases List.cons_eq_append_iff.mp heq with ⟨rfl, hc⟩ | ⟨pre', rfl, -⟩
        · exact (List.cons.inj hc).1.symm
        · exact absurd (hpre arg List.mem_cons_self) hn
    | some o₁ =>
      have ha := isOptionArg_of_add_eq_some h
      simp only
      rw [ih o₁]
      constructor
      · rintro ⟨pre, post, rfl, hpre, hna⟩
        exact ⟨arg :: pre, post, rfl, List.forall_mem_cons.mpr ⟨ha, hpre⟩, hna⟩
      · rintro ⟨pre, post, heq, hpre, hna⟩
        rcases List.cons_eq_append_iff.mp heq with ⟨rfl, hc⟩ | ⟨pre', rfl, hrest⟩
        · exact absurd ((List.cons.inj hc).1 ▸ ha) hna
        · exact ⟨pre', post, hrest, fun x hx => hpre x (List.mem_cons_of_mem _ hx), hna⟩

/-! ## What the options hold -/

theorem lastSize_nil (n : Nat) : ¬ LastSize [] n := by
  rintro ⟨pre, arg, post, h, -⟩
  simp at h

theorem lastSize_cons (arg : String) (args : List String) (n : Nat) :
    LastSize (arg :: args) n ↔ LastSize args n ∨ (IsSizeArg arg n ∧ ∀ a ∈ args, a = "--stats") := by
  constructor
  · rintro ⟨pre, x, post, heq, hx, hpost⟩
    rcases List.cons_eq_append_iff.mp heq with ⟨rfl, hc⟩ | ⟨pre', rfl, hrest⟩
    · obtain ⟨rfl, rfl⟩ := List.cons.inj hc
      exact .inr ⟨hx, hpost⟩
    · exact .inl ⟨pre', x, post, hrest, hx, hpost⟩
  · rintro (⟨pre, x, post, rfl, hx, hpost⟩ | ⟨hx, hpost⟩)
    · exact ⟨arg :: pre, x, post, rfl, hx, hpost⟩
    · exact ⟨[], arg, args, rfl, hx, hpost⟩

/-- Accepted arguments turn the statistics on exactly when one of them is `--stats`. -/
theorem stats_foldl_apply (o : Options) (args : List String) (hargs : ∀ a ∈ args, IsOptionArg a) :
    (args.foldl apply o).stats = true ↔ o.stats = true ∨ "--stats" ∈ args := by
  induction args generalizing o with
  | nil => simp
  | cons arg args ih =>
    obtain ⟨harg, hrest⟩ := List.forall_mem_cons.mp hargs
    rw [List.foldl_cons, ih _ hrest, List.mem_cons]
    rcases harg with rfl | ⟨n, hn⟩
    · have h := (add_eq_some_iff o _ "--stats").mpr (.inl ⟨rfl, rfl⟩)
      simp [apply, h]
    · have h := (add_eq_some_iff o _ arg).mpr (.inr ⟨n, hn, rfl⟩)
      have hne : "--stats" ≠ arg := fun h => not_isSizeArg_stats n (h ▸ hn)
      simp [apply, h, hne]

/-- Over accepted arguments the chunk size is the value of the last size argument, or the one
read before when every argument is `--stats`. -/
theorem chunkSize_foldl_apply (o : Options) (args : List String) (hargs : ∀ a ∈ args, IsOptionArg a)
    (n : Nat) : (args.foldl apply o).chunkSize = some n ↔
      LastSize args n ∨ (o.chunkSize = some n ∧ ∀ a ∈ args, a = "--stats") := by
  induction args generalizing o with
  | nil => simp [lastSize_nil]
  | cons arg args ih =>
    obtain ⟨harg, hrest⟩ := List.forall_mem_cons.mp hargs
    rw [List.foldl_cons, ih _ hrest, lastSize_cons, List.forall_mem_cons]
    rcases harg with rfl | ⟨m, hm⟩
    · -- `--stats` leaves the size as it is
      have h := (add_eq_some_iff o _ "--stats").mpr (.inl ⟨rfl, rfl⟩)
      simp [apply, h, not_isSizeArg_stats]
    · -- a size argument sets the size; it is the last one when only `--stats` follows
      have h := (add_eq_some_iff o _ arg).mpr (.inr ⟨m, hm, rfl⟩)
      have hne : arg ≠ "--stats" := fun h => not_isSizeArg_stats m (h ▸ hm)
      have hsize : IsSizeArg arg n ↔ m = n := ⟨fun hn => hm.unique hn, fun h => h ▸ hm⟩
      simp only [apply, h, Option.getD_some, Option.some.injEq, hsize, hne, false_and, and_false,
        or_false]

/-- The options of an argument list, or the first refused argument. The list is read into
options exactly when every argument is `--stats` or a nonzero size after `--chunk-size=`; the
statistics are on exactly when `--stats` is among them, and the chunk size is the value of the
last size argument, none when there is none. Otherwise the answer is the first argument of
neither form. -/
theorem parse_accepts_exactly (args : List String) :
    (∀ o, parse args = .ok o ↔ (∀ a ∈ args, IsOptionArg a) ∧
      (o.stats = true ↔ "--stats" ∈ args) ∧ ∀ n, o.chunkSize = some n ↔ LastSize args n) ∧
    (∀ a, parse args = .error a ↔
      ∃ pre post, args = pre ++ a :: post ∧ (∀ x ∈ pre, IsOptionArg x) ∧ ¬ IsOptionArg a) := by
  refine ⟨fun o => ?_, fun a => parseFrom_eq_error_iff {} args a⟩
  rw [parse_eq_parseFrom, parseFrom_eq_ok_iff]
  constructor
  · rintro ⟨hargs, rfl⟩
    refine ⟨hargs, ?_, fun n => ?_⟩
    · simpa using stats_foldl_apply {} args hargs
    · simpa using chunkSize_foldl_apply {} args hargs n
  · rintro ⟨hargs, hstats, hsize⟩
    refine ⟨hargs, ?_⟩
    -- both sides agree on the statistics and on every chunk size
    have hs : o.stats = (args.foldl apply {}).stats := by
      rw [Bool.eq_iff_iff, hstats, stats_foldl_apply {} args hargs]
      simp
    have hc : o.chunkSize = (args.foldl apply {}).chunkSize := by
      refine Option.ext fun n => ?_
      rw [hsize, chunkSize_foldl_apply {} args hargs]
      simp
    cases o
    simp only at hs hc
    rw [hs, hc]

example : parse ["--chunk-size=+007", "--stats", "--chunk-size=12"] = .ok ⟨true, some 12⟩ := by cbv

example : parse ["--stats", "--chunk-size=0", "--verbose"] = .error "--chunk-size=0" := by cbv

end Options

end Lexicon.Command
