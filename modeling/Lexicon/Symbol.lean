import Lexicon.Arena.Basic

/-!
# Symbols

A symbol is one distinct canonical name of a table: the name with its ASCII letters lowercased,
so that names differing only in the case of ASCII letters are one symbol. Its record holds the
handle of the canonical name in the arena and, once a declaration is seen, what the name
denotes.

* `canonical`: the canonical form of a name.
* `Kind`: local variable, global variable, function or type.
* `SymbolId`: the tree node and bucket slot of a symbol.
-/

namespace Lexicon

/-- The canonical form of a name: ASCII letters lowercased, every other character kept. -/
def canonical (name : String) : String := name.map Char.toLower

/-- What a name denotes, as its declaration says. -/
inductive Kind where
  | localVar
  | globalVar
  | function
  | type
  deriving Repr, DecidableEq

/-- The word for a kind. -/
def Kind.name : Kind → String
  | .localVar => "local"
  | .globalVar => "global"
  | .function => "function"
  | .type => "type"

/-- The record of one symbol: what it denotes, if known, and where its canonical name lives. -/
structure Symbol where
  kind : Option Kind
  name : Arena.Handle
  deriving Repr, DecidableEq

/-- A new symbol with no kind. -/
def Symbol.ofHandle (h : Arena.Handle) : Symbol := ⟨none, h⟩

/-- The stable handle of a symbol: its tree node and its slot in that node's bucket. -/
structure SymbolId where
  node : Nat
  slot : Nat
  deriving Repr, DecidableEq, Hashable

end Lexicon
