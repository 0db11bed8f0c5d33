import Lexicon.Error

/-!
# The name arena

Canonical names are stored in chunks of bytes. A chunk reserves its full capacity when it opens
and never grows, so a handle, once handed out, keeps naming the same bytes. Strings are appended
to the last chunk, the active one, while it has room; otherwise a fresh chunk opens, as large as
the configured chunk size or the string, whichever is larger. The index of chunks grows by a
fixed number of slots whenever it is full.

Nothing is freed one by one, with one exception: the most recent allocation can be given back
while it still ends the active chunk (`reclaimTail`). The symbol table uses it to drop the
lowercase trial copy of a name that it already holds.

Memory for a new chunk, and for a larger chunk index, is asked of the `Allocator`.

* `Arena.allocBytes`, `alloc`, `allocStr`, `allocLower`: append a string and return its handle.
* `Arena.afterFailedAlloc`: the arena that a failed allocation leaves, by the order of its steps:
  as it was, unless the failure comes after a new chunk opened.
* `Arena.fill`: overwrite a string in place, padded with spaces.
* `Arena.resolve?`: read a string back.
* `Arena.reclaimTail`: give back the most recent allocation.
-/

namespace Lexicon

/-- Sizing of an arena: the bytes reserved for each chunk and the slots by which the chunk index
grows. -/
structure Arena.Config where
  chunkSize : Nat := 20000
  indexStep : Nat := 100
  deriving Repr, DecidableEq

/-- Where a string lives: its chunk, the offset of its first byte and its length in bytes. -/
structure Arena.Handle where
  chunk : Nat
  start : Nat
  len : Nat
  deriving Repr, DecidableEq

/-- A chunk: the bytes written so far, and the room reserved for it. -/
structure Arena.Chunk where
  bytes : ByteArray
  capacity : Nat

/-- Chunked bump storage for names. -/
structure Arena where
  /-- The chunks in the order they opened; the last one is active. -/
  chunks : Array Arena.Chunk
  /-- Slots of the chunk index reserved so far. -/
  slots : Nat
  config : Arena.Config
  /-- The most recent allocation, until it is given back. -/
  last : Option Arena.Handle
  /-- Allocations held, those given back excluded. -/
  allocations : Nat

namespace Arena

namespace Config

/-- Zero sizes are raised to one. -/
def clamp (c : Config) : Config := ⟨max c.chunkSize 1, max c.indexStep 1⟩

end Config

namespace Handle

/-- The offset just past the string. -/
def stop (h : Handle) : Nat := h.start + h.len

/-- Whether the string is empty. -/
def isEmpty (h : Handle) : Bool := h.len == 0

end Handle

/-- The space byte, which pads blank strings. -/
def filler : UInt8 := 32

/-- An empty arena with the given sizing, zero sizes raised to one. No chunk opens before the
first allocation. -/
def empty (config : Config := {}) : Arena :=
  ⟨#[], 0, config.clamp, none, 0⟩

/-- Number of chunks opened so far. -/
def chunkCount (a : Arena) : Nat := a.chunks.size

/-- Bytes written to the active chunk, or 0 when no chunk is open. -/
def activeUsed (a : Arena) : Nat := (a.chunks.back?.map (·.bytes.size)).getD 0

/-- Whether a position of a byte sequence starts a character or ends the sequence: UTF-8
continuation bytes are those from 0x80 to 0xBF. -/
def isBoundary (bytes : ByteArray) (i : Nat) : Bool :=
  i == 0 || i == bytes.size || (match bytes[i]? with
    | some b => b < 0x80 || 0xC0 ≤ b
    | none => false)

/-- A run of `n` spaces. -/
def spaces (n : Nat) : ByteArray := ⟨Array.replicate n filler⟩

section Allocating

variable [Allocator]

/-- Opens a chunk of `max chunkSize len` bytes, growing the chunk index by `indexStep` slots first
when it is full. The chunk's memory is reserved before the index grows. -/
def openChunk (a : Arena) (len : Nat) : Except StoreError (Nat × Arena) :=
  let size := max a.config.chunkSize len
  if !Allocator.grantsChunk size then .error (.chunkAllocation size)
  else
    let wanted := a.chunks.size + a.config.indexStep
    if a.chunks.size = a.slots ∧ !Allocator.grantsIndex wanted then
      .error (.chunkIndexGrowth wanted)
    else
      let slots := if a.chunks.size = a.slots then wanted else a.slots
      .ok (a.chunks.size, { a with chunks := a.chunks.push ⟨ByteArray.empty, size⟩, slots })

/-- The chunk that receives a string of `len` bytes: the active one if it has room, else a new
one. -/
def chunkFor (a : Arena) (len : Nat) : Except StoreError (Nat × Arena) :=
  match a.chunks.back? with
  | some c => if len ≤ c.capacity - c.bytes.size then .ok (a.chunks.size - 1, a) else a.openChunk len
  | none => a.openChunk len

/-- Appends `bytes` as one string and returns its handle. The length, the chunk number and the
offset must each fit a 32-bit field. -/
def allocBytes (a : Arena) (bytes : ByteArray) : Except StoreError (Handle × Arena) := do
  let len ← fitField "string lengths" bytes.size
  let (i, a) ← a.chunkFor len
  let start := (a.chunks[i]?.map (·.bytes.size)).getD 0
  let chunk ← fitField "string arena chunks" i
  let start ← fitField "string arena chunk offsets" start
  let h : Handle := ⟨chunk, start, len⟩
  pure (h, { a with
    chunks := a.chunks.modify i fun c => { c with bytes := c.bytes ++ bytes }
    last := some h
    allocations := a.allocations + 1 })

/-- Allocates a blank string of `len` bytes, all spaces. The length is checked before any byte
is made. -/
def alloc (a : Arena) (len : Nat) : Except StoreError (Handle × Arena) :=
  if len ≤ fieldMax then a.allocBytes (spaces len)
  else .error (.capacityOverflow "string lengths" len)

/-- Copies a string into the arena as it is. -/
def allocStr (a : Arena) (s : String) : Except StoreError (Handle × Arena) :=
  a.allocBytes s.toUTF8

/-- Copies a string into the arena with its ASCII letters lowercased; other characters are
copied unchanged, so the length in bytes stays the same. -/
def allocLower (a : Arena) (s : String) : Except StoreError (Handle × Arena) :=
  a.allocBytes (s.map Char.toLower).toUTF8

/-- The arena that an allocation of `len` bytes leaves when it fails. The length is checked
first, and a chunk that cannot open changes nothing; only a failure after the choice of chunk,
when the chunk number or the offset does not fit a 32-bit field, leaves behind the chunk that the
choice opened. -/
def afterFailedAlloc (a : Arena) (len : Nat) : Arena :=
  if len ≤ fieldMax then
    match a.chunkFor len with
    | .ok (_, a₁) => a₁
    | .error _ => a
  else a

end Allocating

/-- The bytes of a handle, when its range lies in its chunk and starts and ends on character
boundaries. -/
def bytes? (a : Arena) (h : Handle) : Option ByteArray :=
  match a.chunks[h.chunk]? with
  | some c =>
    if h.stop ≤ c.bytes.size ∧ isBoundary c.bytes h.start ∧ isBoundary c.bytes h.stop then
      some (c.bytes.extract h.start h.stop)
    else none
  | none => none

/-- The string of a handle, or `none` when its range leaves its chunk or cuts a character. -/
def resolve? (a : Arena) (h : Handle) : Option String :=
  (a.bytes? h).bind String.fromUTF8?

/-- Overwrites the string of `h` with `content`, padded with spaces. Content longer than the
string is refused and changes nothing (`some (false, a)`); a range that leaves its chunk or cuts
a character gives `none`. -/
def fill (a : Arena) (h : Handle) (content : String) : Option (Bool × Arena) :=
  if h.len < content.utf8ByteSize then some (false, a)
  else
    match a.bytes? h with
    | none => none
    | some _ =>
      let text := content.toUTF8 ++ spaces (h.len - content.utf8ByteSize)
      some (true, { a with chunks := a.chunks.modify h.chunk fun c =>
        { c with bytes := c.bytes.extract 0 h.start ++ text ++ c.bytes.extract h.stop c.bytes.size } })

/-- Gives back the most recent allocation if it still ends the active chunk, and says whether
it did. Any other handle is left alone. The chunk is cut back to the allocation's start, which
must begin a character: `none` otherwise, where the program panics. -/
def reclaimTail (a : Arena) (h : Handle) : Option (Bool × Arena) :=
  if a.last = some h ∧ h.chunk + 1 = a.chunks.size then
    match a.chunks.back? with
    | some c =>
      if h.stop = c.bytes.size then
        if isBoundary c.bytes h.start then
          some (true, { a with
            chunks := a.chunks.modify h.chunk fun c => { c with bytes := c.bytes.extract 0 h.start }
            last := none
            allocations := a.allocations - 1 })
        else none
      else some (false, a)
    | none => some (false, a)
  else some (false, a)

end Arena

end Lexicon
