import Lexicon.Command.Run

/-!
# A working directory of given files

A working directory holding plain files and empty subdirectories, placed in a small system
tree, and what reading a path gives under the usual rules of path lookup: components are
separated by `/`, `.` stays and `..` goes to the parent, a file has no components below it, and
a directory cannot be read as a file.

The system tree is that of a current Linux installation with a merged `/usr`: `/bin`, `/sbin`,
`/lib` and `/lib64` are symbolic links into `/usr`, and `/dev`, a minimal device directory, has
`/dev/fd` and `/dev/stdin` lead to the descriptors of the process under `/proc/self`. A symbolic
link is followed to the directory it names, so a `..` after it goes to the parent of that
directory, not back to the link's own directory. The working directory lies in `/tmp` under a
name that no path component can spell. Of the files outside the working directory only the null
device and the standard input, which both read as empty, and the running program, which is not
text, are known; any other name there is missing.

A name longer than a component may be is refused as too long, except in the process and kernel
file systems under `/proc` and `/sys`, which only look names up and so find no such entry.

* `Workspace.read`: what reading a path gives.
-/

namespace Lexicon.Command

/-- An entry of a file system. -/
inductive Workspace.Entry where
  | file (bytes : ByteArray)
  | dir
  /-- A symbolic link to the entry at an absolute path, which is not itself a link. -/
  | link (target : List String)

/-- The entries of a working directory, by name. -/
structure Workspace where
  entries : List (String × Workspace.Entry)

namespace Workspace

/-- Where a lookup stands. -/
inductive Place where
  /-- A directory, by its absolute path. -/
  | dir (path : List String)
  /-- A file, with its contents. -/
  | file (bytes : ByteArray)

/-- The longest name of one component, in bytes. -/
def nameMax : Nat := 255

/-- The longest path, in bytes. -/
def pathMax : Nat := 4095

/-- The absolute path of the working directory: a directory of `/tmp` whose name is empty, so
that only `..` and the link `/proc/self/cwd` lead to it from outside. -/
def workDir : List String := ["tmp", ""]

/-- The start of the running program's file: an executable image, which is not UTF-8 text. -/
def programImage : ByteArray := ⟨#[0x7F, 0x45, 0x4C, 0x46, 0x02, 0x01, 0x01, 0x00, 0x80]⟩

/-- Whether the directory at `path` refuses names longer than `nameMax`: all do but those of the
process and kernel file systems. -/
def checksNames (path : List String) : Bool :=
  match path with
  | "proc" :: _ => false
  | "sys" :: _ => false
  | _ => true

/-- The entries of the system outside the working directory, by absolute path. -/
def systemEntries : List (List String × Entry) :=
  [([], .dir), (["bin"], .link ["usr", "bin"]), (["boot"], .dir), (["dev"], .dir),
    (["etc"], .dir), (["home"], .dir), (["lib"], .link ["usr", "lib"]),
    (["lib64"], .link ["usr", "lib64"]), (["media"], .dir), (["mnt"], .dir), (["opt"], .dir),
    (["proc"], .dir), (["root"], .dir), (["run"], .dir), (["sbin"], .link ["usr", "sbin"]),
    (["srv"], .dir), (["sys"], .dir), (["tmp"], .dir), (["usr"], .dir), (["var"], .dir),
    (["usr", "bin"], .dir), (["usr", "include"], .dir), (["usr", "lib"], .dir),
    (["usr", "lib64"], .dir), (["usr", "local"], .dir), (["usr", "sbin"], .dir),
    (["usr", "share"], .dir), (["dev", "null"], .file ByteArray.empty),
    (["dev", "fd"], .link ["proc", "self", "fd"]),
    (["dev", "stdin"], .link ["proc", "self", "fd", "0"]),
    (["dev", "pts"], .dir), (["dev", "shm"], .dir),
    (["proc", "self"], .dir), (["proc", "self", "fd"], .dir),
    (["proc", "self", "fd", "0"], .file ByteArray.empty), (["proc", "self", "cwd"], .link workDir),
    (["proc", "self", "root"], .link []), (["proc", "self", "exe"], .file programImage)]

/-- The entry at an absolute path: the working directory, one of its entries, or an entry of the
system. -/
def entryAt (w : Workspace) (path : List String) : Option Entry :=
  if path = workDir then some .dir
  else match path with
    | ["tmp", "", name] => (w.entries.find? (·.1 == name)).map (·.2)
    | _ => (systemEntries.find? (·.1 == path)).map (·.2)

/-- Where an entry at `path` leads: a file, a directory, or through a link to its target. -/
def enter (w : Workspace) (path : List String) : Option Place :=
  match w.entryAt path with
  | some (Entry.file bytes) => some (.file bytes)
  | some Entry.dir => some (.dir path)
  | some (Entry.link target) =>
    match w.entryAt target with
    | some (Entry.file bytes) => some (.file bytes)
    | some Entry.dir => some (.dir target)
    | _ => none
  | none => none

/-- One component of a lookup. -/
def visit (w : Workspace) : Place → String → Except FileRead Place
  | .file _, _ => .error (.failed (osErrorText 20))
  | p, "" => .ok p
  | p, "." => .ok p
  | .dir path, ".." => .ok (.dir path.dropLast)
  | .dir path, name =>
    if checksNames path ∧ nameMax < name.utf8ByteSize then .error (.failed (osErrorText 36))
    else match w.enter (path ++ [name]) with
      | some p => .ok p
      | none => .error .missing

/-- What reading `path` gives. -/
def read (w : Workspace) (path : String) : FileRead :=
  if path = "" then .missing
  else if pathMax < path.utf8ByteSize then .failed (osErrorText 36)
  else
    let start := if path.startsWith "/" then Place.dir [] else .dir workDir
    match (path.splitOn "/").foldlM w.visit start with
    | .ok (.file bytes) => .contents bytes
    | .ok (.dir _) => .failed (osErrorText 21)
    | .error r => r

end Workspace

end Lexicon.Command
