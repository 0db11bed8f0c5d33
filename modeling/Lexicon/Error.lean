/-!
# Storage failures

A request to the symbol store fails only when a resource runs out, when a count no longer fits
the 32-bit fields of a handle, or when the shared name arena is entered a second time. Duplicate
names and shared keys are ordinary outcomes and never fail.

* `StoreError.message`: the text of each failure.
* `Abort`: a failure that ends the program, written `<message> at <context>`.
-/

namespace Lexicon

/-- The largest value of a 32-bit field of a handle. -/
def fieldMax : Nat := 4294967295

/-- Hexadecimal digits of a number with upper-case letters, most significant first. -/
def hexUpper (n : Nat) : String := String.ofList ((Nat.toDigits 16 n).map Char.toUpper)

/-- A storage request that the store could not satisfy. -/
inductive StoreError where
  /-- No memory for a new chunk of `requested` bytes. -/
  | chunkAllocation (requested : Nat)
  /-- The chunk index could not grow to hold `chunks` chunks. -/
  | chunkIndexGrowth (chunks : Nat)
  /-- A collision bucket could not double to `capacity` symbols. -/
  | bucketGrowth (capacity : Nat)
  /-- No memory for tree node number `nodes`. -/
  | nodeAllocation (nodes : Nat)
  /-- The shared arena is already held. -/
  | arenaBusy
  /-- The count `len` of the quantity `what` does not fit a 32-bit field. -/
  | capacityOverflow (what : String) (len : Nat)
  deriving Repr, DecidableEq

namespace StoreError

/-- The text of a failure. -/
def message : StoreError → String
  | .chunkAllocation n => s!"string arena could not allocate a chunk of {n} bytes"
  | .chunkIndexGrowth n => s!"string arena could not index {n} chunks"
  | .bucketGrowth n => s!"collision bucket could not grow to {n} symbols"
  | .nodeAllocation n => s!"splay tree could not allocate node {n}"
  | .arenaBusy => "string arena is already locked"
  | .capacityOverflow what n =>
    what ++ s!" exceeded capacity: {n} (0x" ++ hexUpper n ++ s!"), max is {fieldMax} (0x" ++
      hexUpper fieldMax ++ ")"

/-- The name of the kind of failure. -/
def variant : StoreError → String
  | .chunkAllocation _ => "ChunkAllocation"
  | .chunkIndexGrowth _ => "ChunkIndexGrowth"
  | .bucketGrowth _ => "BucketGrowth"
  | .nodeAllocation _ => "NodeAllocation"
  | .arenaBusy => "ArenaBusy"
  | .capacityOverflow _ _ => "CapacityOverflow"

end StoreError

/-- Narrows a count into a 32-bit field of a handle, naming the quantity when it does not fit. -/
def fitField (what : String) (n : Nat) : Except StoreError Nat :=
  if n ≤ fieldMax then .ok n else .error (.capacityOverflow what n)

/-- The system allocator as the store sees it: for each kind of reservation the store makes,
whether a reservation of a given size succeeds. Every allocation of the store asks it, so what
is proved of the store holds for every allocator, and a result that needs a reservation to
succeed says so in a hypothesis on the allocator. -/
class Allocator where
  /-- A chunk buffer of that many bytes. -/
  grantsChunk : Nat → Bool
  /-- A chunk index of that many slots. -/
  grantsIndex : Nat → Bool
  /-- A collision bucket with room for that many symbols. -/
  grantsBucket : Nat → Bool
  /-- A node vector holding that many nodes. -/
  grantsNodes : Nat → Bool

/-- The allocator that grants every reservation. -/
@[reducible] def Allocator.granting : Allocator :=
  ⟨fun _ => true, fun _ => true, fun _ => true, fun _ => true⟩

/-- A failure that ends the program, with the place where it happened. -/
structure Abort where
  message : String
  context : String
  deriving Repr, DecidableEq

namespace Abort

/-- Every aborted run exits with status 1. -/
def exitCode : UInt32 := 1

/-- The diagnostic line of an abort. -/
def line (a : Abort) : String := a.message ++ " at " ++ a.context

/-- The abort of a storage failure inside the part named `context`. -/
def ofError (context : String) (e : StoreError) : Abort := ⟨e.message, context⟩

end Abort

/-- Turns a storage failure into an abort of the part named `context`. -/
def orAbort {α : Type} (context : String) (r : Except StoreError α) : Except Abort α :=
  r.mapError (Abort.ofError context)

end Lexicon
