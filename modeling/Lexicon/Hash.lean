/-!
# Keys of names

A name's key orders it in the tree of a symbol table. The standard key is a polynomial over the
name's UTF-8 bytes: start from zero, and for each byte multiply by 113 and add the byte, all
modulo 2^64. Keys are allowed to collide; the table keeps colliding names in one bucket.

* `polyKey`: the polynomial key of a byte sequence.
* `Hasher`: a key function on canonical names, with the polynomial one and a few degenerate
  ones (a constant, the byte length, the first byte, the polynomial reduced modulo a number).
-/

namespace Lexicon

/-- Keys of the tree: 64-bit words. -/
abbrev Key := UInt64

/-- The multiplier of the polynomial key. -/
def keyMultiplier : Key := 113

/-- The polynomial key of a byte sequence: each byte is added to 113 times the key so far,
modulo 2^64. -/
def polyKey (bytes : List UInt8) : Key :=
  bytes.foldl (fun k b => k * keyMultiplier + b.toUInt64) 0

/-- The UTF-8 bytes of a string, as a list. -/
def utf8Bytes (s : String) : List UInt8 := s.toUTF8.data.toList

/-- A deterministic key function on names. -/
structure Hasher where
  hash : String → Key

namespace Hasher

/-- The polynomial key of the name's UTF-8 bytes. -/
def polynomial : Hasher := ⟨fun s => polyKey (utf8Bytes s)⟩

/-- Every name gets the key `k`. -/
def constant (k : Key) : Hasher := ⟨fun _ => k⟩

/-- The polynomial key reduced modulo `m`. -/
def modulo (m : Key) : Hasher := ⟨fun s => polynomial.hash s % m⟩

/-- The number of UTF-8 bytes of the name. -/
def byteLength : Hasher := ⟨fun s => s.utf8ByteSize.toUInt64⟩

/-- The first UTF-8 byte of the name, and 0 for the empty name. -/
def firstByte : Hasher := ⟨fun s => ((utf8Bytes s).head?.map UInt8.toUInt64).getD 0⟩

end Hasher

end Lexicon
