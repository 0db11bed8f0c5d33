import Lexicon.Listing
import Lexicon.Command.Options

/-!
# The command line

`llb symbols FILE [options]` lists the identifiers of a source file; `help` and `version` print
their texts. The command reads at most one file, through a reader that the caller gives, so the
same definition serves a real run and a run over a given set of files.

* `Command.run`: the exit status, standard output and standard error of a run.
-/

namespace Lexicon.Command

/-- What reading a file gave. -/
inductive FileRead where
  | contents (bytes : ByteArray)
  | missing
  | denied
  /-- Any other failure, with the system's text for it. -/
  | failed (reason : String)

/-- The system's text for an error number, as the run reports it. -/
def osErrorText (code : Nat) : String :=
  let what := match code with
    | 2 => "No such file or directory"
    | 13 => "Permission denied"
    | 20 => "Not a directory"
    | 21 => "Is a directory"
    | 36 => "File name too long"
    | 40 => "Too many levels of symbolic links"
    | _ => "Unknown error " ++ toString code
  what ++ s!" (os error {code})"

/-- What a run ends with. -/
structure Outcome where
  exit : UInt32
  stdout : String
  stderr : String
  deriving Repr, DecidableEq

/-- The general usage text. -/
def usage : String :=
  (Output.printAll {} [
    "llb3d compiler",
    "",
    "Usage: llb <command> [options]",
    "",
    "Commands:",
    "  symbols <file.bb>    List the identifiers a source file uses",
    "  help                 Show this help message",
    "  version              Show version information",
    "",
    "Symbols options:",
    "  --stats              Print symbol, node, collision and chunk counts",
    "  --chunk-size=<bytes> String arena chunk size (default: 20000)",
    "",
    "Logging:",
    "  RUST_LOG=llb_symtab=debug llb symbols game.bb",
    "",
    "Examples:",
    "  llb symbols game.bb",
    "  llb symbols game.bb --stats"]).text

/-- The usage text of the listing command, shown when the file is missing. -/
def symbolsUsage : String :=
  (Output.printAll {} [
    "Usage: llb symbols <file.bb> [options]",
    "",
    "Options:",
    "  --stats              Print table statistics",
    "  --chunk-size=<bytes> String arena chunk size (default: 20000)"]).text

/-- The version line. -/
def versionLine : String := "llb3d compiler 0.1.0\n"

/-- A failed run with a one-line diagnostic. -/
def fail (line : String) : Outcome := ⟨1, "", line ++ "\n"⟩

section Listing

variable [Allocator]

/-- The listing command on the file `path`, given what reading it gave. -/
def symbols (path : String) (o : Options) : FileRead → Outcome
  | .missing => fail s!"cannot find file '{path}'"
  | .denied => fail s!"permission denied reading '{path}'"
  | .failed reason => fail s!"error reading '{path}': {reason}"
  | .contents bytes =>
    match String.fromUTF8? bytes with
    | none => fail s!"'{path}' contains invalid UTF-8 data"
    | some source =>
      match Listing.ofSource source o.arenaConfig with
      | .ok l => ⟨0, l.report o.stats, ""⟩
      | .error (.scan e) => fail (Abort.line ⟨e.message, path ++ ":" ++ e.context⟩)
      | .error (.store e) => fail (Abort.ofError "symbol table" e).line

/-- A run with the arguments after the program's name, reading files through `read`. -/
def run {m : Type → Type} [Monad m] (read : String → m FileRead) (args : List String) :
    m Outcome :=
  match args with
  | [] => pure ⟨0, usage, ""⟩
  | cmd :: rest =>
    if cmd = "symbols" then
      match rest with
      | [] => pure ⟨1, "", symbolsUsage⟩
      | path :: opts =>
        match Options.parse opts with
        | .error arg => pure (fail s!"error: unrecognized option '{arg}'")
        | .ok o => symbols path o <$> read path
    else if cmd = "help" ∨ cmd = "--help" ∨ cmd = "-h" then pure ⟨0, usage, ""⟩
    else if cmd = "version" ∨ cmd = "--version" ∨ cmd = "-v" then pure ⟨0, versionLine, ""⟩
    else pure ⟨1, usage, s!"Unknown command: {cmd}\n\n"⟩

end Listing

end Lexicon.Command
