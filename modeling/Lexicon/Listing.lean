import Lexicon.Table.Basic
import Lexicon.Source.Scan
import Lexicon.Command.Output
import Std.Data.HashMap

/-!
# Listing the identifiers of a source text

A listing reads the lexemes of a source text into a fresh symbol table. A declaration keyword
leaves a pending kind; the next identifier consumes it, and takes it as its kind if it has none
yet. Every identifier counts one occurrence of its canonical name. The listing gives each
canonical name once, in bytewise order, with its kind and count, and the table's statistics.

* `Listing.ofSource`: the listing of a text, or the first scan error, or the storage failure of
  the first identifier that could not be stored.
* `Listing.report`: the listing as lines of text.
-/

namespace Lexicon

/-- One canonical name of a listing. -/
structure Listing.Entry where
  kind : Option Kind
  name : String
  occurrences : Nat
  deriving Repr, DecidableEq

/-- Counts of a listing's table and arena. -/
structure Listing.Stats where
  symbols : Nat
  nodes : Nat
  collisions : Nat
  chunks : Nat
  deriving Repr, DecidableEq

/-- The identifiers of a source text with their counts. -/
structure Listing where
  entries : List Listing.Entry
  stats : Listing.Stats
  deriving Repr

/-- Why a listing could not be made. -/
inductive Listing.Failure where
  | scan (e : Source.ScanError)
  | store (e : StoreError)
  deriving Repr, DecidableEq

namespace Listing

/-- The table, arena, occurrence counts and pending kind while lexemes are read. -/
structure Tally where
  table : Table
  arena : Arena
  counts : Std.HashMap SymbolId Nat
  pending : Option Kind

namespace Tally

/-- The start of a listing over an arena with the given sizing. -/
def start (config : Arena.Config) : Tally := ⟨.empty, .empty config, {}, none⟩

section Reading

variable [Allocator]

/-- Reads one lexeme. -/
def add : Tally → Source.Lexeme → Except StoreError Tally
  | s, ⟨.declarator k, _⟩ => .ok { s with pending := some k }
  | ⟨table, arena, counts, pending⟩, ⟨.ident text, _⟩ => do
    let (id, table, arena) ← table.get ⟨arena, false⟩ text
    let counts := counts.insert id (counts.getD id 0 + 1)
    let table := match pending with
      | some k => if ((table.symbol? id).map (·.kind)) = some none then (table.setKind id k).getD table
        else table
      | none => table
    pure { table, arena, counts, pending := none }

/-- Reads the items of a scan in order, stopping at the first error. -/
def run : List Source.Item → Tally → Except Failure Tally
  | [], s => .ok s
  | .error e :: _, _ => .error (.scan e)
  | .ok l :: rest, s =>
    match s.add l with
    | .ok s => run rest s
    | .error e => .error (.store e)

end Reading

end Tally

/-- The listing of a source text, over an arena with the given sizing. -/
def ofSource [Allocator] (source : String) (config : Arena.Config) : Except Failure Listing := do
  let s ← Tally.run (Source.scan source) (Tally.start config)
  let entries := s.table.iter.map fun (id, sym) =>
    (⟨sym.kind, (s.table.name? s.arena id).getD "", s.counts.getD id 0⟩ : Entry)
  pure ⟨entries.mergeSort fun a b => decide (a.name ≤ b.name),
    ⟨s.table.len, s.table.nodeCount, s.table.collisionCount, s.arena.chunkCount⟩⟩

/-- The word for an optional kind, `-` when there is none. -/
def kindWord : Option Kind → String
  | some k => k.name
  | none => "-"

/-- The string `s` padded with spaces on the right to `width` characters. -/
def padRight (s : String) (width : Nat) : String := s.pushn ' ' (width - s.length)

/-- The line of an entry: the kind in eight columns, the name and the count. -/
def Entry.line (e : Entry) : String :=
  padRight (kindWord e.kind) 8 ++ " " ++ e.name ++ " " ++ toString e.occurrences

/-- The statistics line. -/
def Stats.line (s : Stats) : String :=
  s!"{s.symbols} symbols, {s.nodes} nodes, {s.collisions} collisions, {s.chunks} arena chunks"

/-- A line per entry, then the statistics line when asked for, each ending in a line feed. -/
def report (l : Listing) (withStats : Bool) : String :=
  let o := Output.printAll {} (l.entries.map Entry.line)
  (if withStats then o.print l.stats.line else o).text

end Listing

end Lexicon
