import Lexicon.Command.Run

/-!
# The program

Runs the command line on the process's arguments and files.
-/

namespace Lexicon.Command

/-- What a failed read of the file system means for the command. -/
def readFailure (e : IO.Error) : FileRead :=
  match e with
  | .noFileOrDirectory _ _ _ => .missing
  | .permissionDenied _ _ _ => .denied
  | .inappropriateType _ code _ => .failed (osErrorText code.toNat)
  | .otherError code _ => .failed (osErrorText code.toNat)
  | e => .failed (toString e)

/-- Reads a whole file. -/
def readPath (path : String) : IO FileRead := do
  try
    return .contents (← IO.FS.readBinFile path)
  catch e =>
    return readFailure e

end Lexicon.Command

open Lexicon.Command in
/-- Runs the command line, prints its outputs and exits with its status. The arena keeps the size
of each chunk and reserves no buffer ahead, so the program's allocator grants every reservation. -/
def main (args : List String) : IO UInt32 := do
  let out ← @run Lexicon.Allocator.granting _ _ readPath args
  IO.print out.stdout
  IO.eprint out.stderr
  return out.exit
