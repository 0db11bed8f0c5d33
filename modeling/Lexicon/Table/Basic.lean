import Lexicon.Bucket
import Lexicon.Splay.Basic

/-!
# Symbol tables

A symbol table maps names to symbols, case-insensitively in ASCII letters. Names live in an
arena that several tables may share; the table owns only its tree and buckets. A name's
canonical form is hashed to a key, the key finds a node of the splay tree, and the node's bucket
is scanned for the exact canonical name. The node touched by a lookup is always the root
afterwards.

Every lookup first copies the canonical name into the arena, as a trial copy. A lookup that
creates a symbol keeps the copy as the symbol's name; any other lookup gives it back.

* `Table.get`: the symbol of a name, created on first sight.
* `Table.find`: the symbol of a name, if there is one; it creates nothing.
* `Table.afterFailedGet`, `afterFailedFind`: the table and arena that a failed call leaves.
* `Table.symbol?`, `setKind`, `name?`, `iter`, `clear`: records, classification, names, the
  symbols in key order, teardown.
* `Table.withName`: runs a function on a symbol's name while the shared arena is held.
-/

namespace Lexicon

/-- The arena that tables share, and whether it is held right now; a held arena refuses every
lookup. -/
structure Shared where
  arena : Arena
  held : Bool := false

/-- A handle on a shared arena. Arenas are numbered as they are made, and a handle cloned from
another points to the same arena, so two handles share their arena exactly when they carry the
same number. -/
structure Shared.Ref where
  index : Nat
  deriving DecidableEq, Repr

/-- Whether two handles point to the same arena. -/
def Shared.Ref.ptrEq (a b : Shared.Ref) : Bool := a.index == b.index

/-- The handle of a new arena when `made` arenas exist, and the new count. -/
def Shared.Ref.fresh (made : Nat) : Shared.Ref × Nat := (⟨made⟩, made + 1)

/-- A new arena is shared with no handle made before it. -/
theorem Shared.Ref.ptrEq_fresh {a : Shared.Ref} {made : Nat} (h : a.index < made) :
    a.ptrEq (fresh made).1 = false := by
  simp only [ptrEq, fresh, beq_eq_false_iff_ne, ne_eq]
  omega

/-- What a teardown released. -/
structure Teardown where
  nodes : Nat
  symbols : Nat
  deriving Repr, DecidableEq

/-- A case-insensitive map from names to symbols. -/
structure Table where
  tree : SplayTree Bucket
  hasher : Hasher
  /-- Symbols created since the table was last emptied. -/
  symbols : Nat

namespace Table

/-- An empty table keyed by `hasher`. -/
def empty (hasher : Hasher := .polynomial) : Table := ⟨.empty, hasher, 0⟩

section Lookups

variable [Allocator]

/-- The arena with the trial copy `trial` given back. The copy was the last allocation and
starts a character, so giving it back never cuts one; the arena is kept as it is otherwise. -/
def giveBack (a : Arena) (trial : Arena.Handle) : Arena :=
  ((a.reclaimTail trial).map (·.2)).getD a

/-- The symbol of `name`, created on first sight with no kind.

The trial copy is given back on a hit. A key seen for the first time gets a node whose bucket
already holds the new symbol; a known key with a new name appends it to the key's bucket. -/
def get (t : Table) (sh : Shared) (name : String) : Except StoreError (SymbolId × Table × Arena) :=
  if sh.held then .error .arenaBusy
  else do
    let (trial, a) ← sh.arena.allocLower name
    let canon := canonical name
    let key := t.hasher.hash canon
    match t.tree.search key with
    | some (node, tree) =>
      let b := (tree.value? node).getD .empty
      match b.find a canon with
      | some slot => pure (⟨node, slot⟩, { t with tree }, giveBack a trial)
      | none =>
        let (slot, b) ← b.push (.ofHandle trial)
        pure (⟨node, slot⟩, { t with tree := tree.modify node fun _ => b, symbols := t.symbols + 1 },
          a)
    | none =>
      let (node, tree) ← t.tree.insert key (.single (.ofHandle trial))
      pure (⟨node, 0⟩, { t with tree, symbols := t.symbols + 1 }, a)

/-- The symbol of `name`, if the table has one. A node of the name's key is splayed to the root
even when its bucket lacks the name; the trial copy is always given back. -/
def find (t : Table) (sh : Shared) (name : String) :
    Except StoreError (Option SymbolId × Table × Arena) :=
  if sh.held then .error .arenaBusy
  else do
    let (trial, a) ← sh.arena.allocLower name
    let canon := canonical name
    let key := t.hasher.hash canon
    let (found, tree) := match t.tree.search key with
      | some (node, tree) => (((tree.value? node).bind (·.find a canon)).map (⟨node, ·⟩), tree)
      | none => (none, t.tree)
    pure (found, { t with tree }, giveBack a trial)

/-- The table and arena that a failed lookup of `name` leaves. A held arena refuses the lookup
before anything changes, and a failed trial copy leaves what the arena's failure leaves. A lookup
that fails after its trial copy, when the new symbol's bucket cannot grow or its slot has no
number, or a new node has no room or no number, has already splayed the node of its key; it
gives the copy back. -/
def afterFailedGet (t : Table) (sh : Shared) (name : String) : Table × Arena :=
  if sh.held then (t, sh.arena)
  else
    match sh.arena.allocLower name with
    | .error _ => (t, sh.arena.afterFailedAlloc name.utf8ByteSize)
    | .ok (trial, a) =>
      let tree := ((t.tree.search (t.hasher.hash (canonical name))).map (·.2)).getD t.tree
      ({ t with tree }, giveBack a trial)

/-- The table and arena that a failed search of `name` leaves: a search fails only for a held
arena or at its trial copy, before the tree is touched. -/
def afterFailedFind (t : Table) (sh : Shared) (name : String) : Table × Arena :=
  if sh.held then (t, sh.arena) else (t, sh.arena.afterFailedAlloc name.utf8ByteSize)

end Lookups

/-- The record behind `id`; `none` when the node or the slot does not exist. -/
def symbol? (t : Table) (id : SymbolId) : Option Symbol :=
  (t.tree.value? id.node).bind (·.get? id.slot)

/-- Sets the kind of the symbol `id`; `none` when there is no such symbol. -/
def setKind (t : Table) (id : SymbolId) (k : Kind) : Option Table :=
  (t.symbol? id).map fun _ =>
    { t with tree := t.tree.modify id.node (·.modify id.slot fun s => { s with kind := some k }) }

/-- The canonical name of the symbol `id`, read from the arena. -/
def name? (t : Table) (a : Arena) (id : SymbolId) : Option String :=
  (t.symbol? id).bind fun s => a.resolve? s.name

/-- Runs `f` on the canonical name of `id` while the shared arena is held, so that a lookup
through any table sharing it fails with `arenaBusy` inside `f`. -/
def withName {β : Type} (t : Table) (sh : Shared) (id : SymbolId) (f : String → Shared → β) :
    Option β :=
  (t.name? sh.arena id).map fun n => f n { sh with held := true }

/-- The symbols in key order, and in slot order within a bucket. -/
def iter (t : Table) : List (SymbolId × Symbol) :=
  t.tree.entries.flatMap fun e => e.value.symbols.toList.zipIdx.map fun (s, i) => (⟨e.id, i⟩, s)

/-- Number of distinct symbols. -/
def len (t : Table) : Nat := t.symbols

/-- Whether the table has no symbol. -/
def isEmpty (t : Table) : Bool := t.symbols == 0

/-- Number of distinct keys, one tree node each. -/
def nodeCount (t : Table) : Nat := t.tree.size

/-- The key of the node accessed last. -/
def rootKey? (t : Table) : Option Key := t.tree.rootKey?

/-- The bucket of tree node `node`. -/
def bucket? (t : Table) (node : Nat) : Option Bucket := t.tree.value? node

/-- Number of nodes whose bucket holds more than one symbol. -/
def collisionCount (t : Table) : Nat := (t.tree.entries.filter fun e => 1 < e.value.len).length

/-- Releases every node and bucket, children before parents, and leaves an empty table with the
same hasher. The names stay in the arena. -/
def clear (t : Table) : Teardown × Table :=
  let released := t.tree.drain.1
  (⟨released.length, (released.map fun p => p.2.len).foldr (· + ·) 0⟩, { t with tree := .empty, symbols := 0 })

end Table

end Lexicon
