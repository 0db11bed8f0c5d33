import Lexicon.Arena.Basic

/-!
# Options of the listing command

The listing command takes `--stats`, which adds the statistics line, and `--chunk-size=N`,
which sets the arena's chunk size. A size is an optional `+` and one or more ASCII digits, with a
value from 1 to 2^64 - 1. The last size given wins.

* `Options.parse`: the options of an argument list, or the first argument that is none.
-/

namespace Lexicon.Command

/-- The options of the listing command. -/
structure Options where
  stats : Bool := false
  chunkSize : Option Nat := none
  deriving Repr, DecidableEq

/-- The largest size a machine word holds, `2 ^ 64 - 1`. -/
def wordMax : Nat := 18446744073709551615

/-- The value of a decimal numeral: an optional `+` and one or more ASCII digits, of value at
most `wordMax`. -/
def parseSize? (s : String) : Option Nat :=
  let digits := match s.toList with
    | '+' :: ds => ds
    | ds => ds
  if digits ≠ [] ∧ digits.all Char.isDigit then
    let n := digits.foldl (fun n d => 10 * n + (d.toNat - '0'.toNat)) 0
    if n ≤ wordMax then some n else none
  else none

/-- The prefix of the chunk-size option. -/
def chunkSizeFlag : String := "--chunk-size="

namespace Options

/-- Reads one argument into the options; `none` when it is not an option. -/
def add (o : Options) (arg : String) : Option Options :=
  if arg = "--stats" then some { o with stats := true }
  else if chunkSizeFlag.isPrefixOf arg then
    match parseSize? (String.ofList (arg.toList.drop chunkSizeFlag.length)) with
    | some n => if 0 < n then some { o with chunkSize := some n } else none
    | none => none
  else none

/-- The options of an argument list, or the first argument that is not an option. -/
def parse (args : List String) : Except String Options :=
  args.foldlM (fun o arg => match o.add arg with
    | some o => .ok o
    | none => .error arg) {}

/-- The arena sizing the options ask for: the chunk size given, or the default one. -/
def arenaConfig (o : Options) : Arena.Config :=
  match o.chunkSize with
  | some n => { chunkSize := n }
  | none => {}

end Options

end Lexicon.Command
