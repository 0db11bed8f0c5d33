import Lexicon.Source.Lexeme
import Lexicon.Text.Alphanumeric

/-!
# Keywords and character classes of the source language

Reserved words match regardless of the case of ASCII letters. Four of them declare the next
identifier: `Local`, `Global`, `Function` and `Type`. `End` closes a block, so a keyword right
after it declares nothing (`End Function`).

* `keyword?`: the reserved word that a word spells.
* `classify`: what a word yields, given whether the previous word was `End`.
-/

namespace Lexicon.Source

/-- The reserved words, in upper case. -/
def keywords : List String :=
  ["AFTER", "AND", "BEFORE", "CASE", "CONST", "DATA", "DEFAULT", "DELETE", "DIM", "EACH", "ELSE",
    "ELSEIF", "END", "ENDIF", "EXIT", "FALSE", "FIELD", "FIRST", "FLOAT", "FOR", "FOREVER",
    "FUNCTION", "GLOBAL", "GOSUB", "GOTO", "IF", "INSERT", "INT", "LAST", "LOCAL", "MOD", "NEW",
    "NEXT", "NOT", "NULL", "OR", "PI", "READ", "REPEAT", "RESTORE", "RETURN", "SAR", "SELECT",
    "SHL", "SHR", "STEP", "STR", "THEN", "TO", "TRUE", "TYPE", "UNTIL", "WEND", "WHILE", "XOR",
    "INCLUDE"]

/-- Single-character tokens, the type sigils among them. -/
def punctuation : List Char := "#$%(),.\\=+-~^*/<>".toList

/-- Characters of words: Unicode alphanumerics and the underscore. -/
def isWordChar (c : Char) : Bool := Text.isAlphanumeric c || c == '_'

/-- The reserved word that `text` spells, ignoring the case of ASCII letters. -/
def keyword? (text : String) : Option String :=
  keywords.find? (· == text.map Char.toUpper)

/-- The kind that a declaring keyword gives. -/
def declarator? : String → Option Kind
  | "LOCAL" => some .localVar
  | "GLOBAL" => some .globalVar
  | "FUNCTION" => some .function
  | "TYPE" => some .type
  | _ => none

/-- What the word `text` yields, and whether the next word follows `End`. `End` itself yields
nothing; a keyword right after `End` yields nothing; otherwise a declaring keyword yields its
kind, another keyword nothing, and any other word an identifier. -/
def classify (afterEnd : Bool) (text : String) : Option Word × Bool :=
  match keyword? text with
  | some "END" => (none, true)
  | some kw => (if afterEnd then none else (declarator? kw).map .declarator, false)
  | none => (some (.ident text), false)

end Lexicon.Source
