import Lexicon.Symbol

/-!
# Lexemes of a source text

What the scanner reports about a source text: identifiers with their spelling, declaration
keywords that classify the next identifier, and the two ways a text can be malformed.

* `ScanError.message`, `ScanError.context`: the text of an error and where it happened, as
  `line N` or `line:column`.
-/

namespace Lexicon.Source

/-- A word the symbol table cares about. -/
inductive Word where
  /-- A declaration keyword: the next identifier is declared with this kind. -/
  | declarator (kind : Kind)
  /-- An identifier, in its source spelling. -/
  | ident (text : String)
  deriving Repr, DecidableEq

/-- A word with the line it starts on, counting from 1. -/
structure Lexeme where
  word : Word
  line : Nat
  deriving Repr, DecidableEq

/-- A malformed source text. -/
inductive ScanError where
  /-- A string literal opened on line `line` does not close before the end of its line. -/
  | unterminatedString (line : Nat)
  /-- A character that no token may hold, at a line and a column counted in characters, both
  from 1. -/
  | illegalCharacter (ch : Char) (line column : Nat)
  deriving Repr, DecidableEq

namespace ScanError

/-- The text of an error. -/
def message : ScanError → String
  | .unterminatedString _ => "unterminated string literal"
  | .illegalCharacter c _ _ => "illegal character '" ++ String.singleton c ++ "'"

/-- Where an error happened. -/
def context : ScanError → String
  | .unterminatedString line => s!"line {line}"
  | .illegalCharacter _ line column => s!"{line}:{column}"

/-- The name of the kind of error. -/
def variant : ScanError → String
  | .unterminatedString _ => "UnterminatedString"
  | .illegalCharacter _ _ _ => "IllegalCharacter"

end ScanError

end Lexicon.Source
