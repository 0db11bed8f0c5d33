import Lexicon.Error
import Lexicon.Hash

/-!
# Splay trees

A binary search tree on 64-bit keys that moves every node it finds or inserts to the root by
bottom-up splaying. Each node carries the number it was created with, its key and a value.
Equal keys are allowed: an inserted key goes to the right of the equal keys on its path, and a
search stops at the first node of its key.

The tree is kept as an inductive tree. A search walks down and records the path as frames
(the parent's entry, the side taken and the other subtree); splaying then rebuilds the tree from
the bottom, two frames at a time, with the rotations of zig-zig and zig-zag steps, and a single
rotation (zig) when one frame is left.

* `SplayTree.search`: the first node of a key, splayed to the root; a miss changes nothing.
* `SplayTree.insert`: a new node, attached as a leaf and splayed to the root, in room that the
  allocator grants.
* `SplayTree.getOrInsert`: a search, and an insertion when it misses.
* `SplayTree.entries`, `rows`, `depth?`, `drain`: the in-order view, the links of every node,
  the height, and the post-order teardown.
-/

namespace Lexicon

namespace Splay

/-- The record of a node: its creation number, its key and its value. -/
structure Entry (α : Type) where
  id : Nat
  key : Key
  value : α

/-- A binary tree of entries. -/
inductive Tree (α : Type) where
  | leaf
  | node (left : Tree α) (entry : Entry α) (right : Tree α)

/-- The side of a parent on which a path goes down. -/
inductive Side where
  | left
  | right
  deriving DecidableEq, Repr

/-- One step of a path: the parent's entry, the side taken below it and the parent's other
subtree. -/
structure Frame (α : Type) where
  side : Side
  entry : Entry α
  other : Tree α

/-- The links of one node: its children and its parent, by creation number. -/
structure Row (α : Type) where
  id : Nat
  key : Key
  value : α
  left : Option Nat
  right : Option Nat
  parent : Option Nat

namespace Tree

variable {α : Type}

/-- Brings the left child of the root up: `((a x b) p c)` becomes `(a x (b p c))`. -/
def rotateRight : Tree α → Tree α
  | node (node a x b) p c => node a x (node b p c)
  | t => t

/-- Brings the right child of the root up: `(a p (b x c))` becomes `((a p b) x c)`. -/
def rotateLeft : Tree α → Tree α
  | node a p (node b x c) => node (node a p b) x c
  | t => t

/-- Applies `op` to the child of the root on side `d`. -/
def onChild (d : Side) (op : Tree α → Tree α) : Tree α → Tree α
  | leaf => leaf
  | node l e r =>
    match d with
    | .left => node (op l) e r
    | .right => node l e (op r)

/-- The entry at the root. -/
def root? : Tree α → Option (Entry α)
  | leaf => none
  | node _ e _ => some e

/-- Number of nodes. -/
def size : Tree α → Nat
  | leaf => 0
  | node l _ r => l.size + 1 + r.size

/-- Nodes on the longest path from the root, 0 for the empty tree. -/
def height : Tree α → Nat
  | leaf => 0
  | node l _ r => max l.height r.height + 1

/-- The entries in order (left subtree, node, right subtree), followed by `acc`. -/
def toListOnto : Tree α → List (Entry α) → List (Entry α)
  | leaf, acc => acc
  | node l e r, acc => l.toListOnto (e :: r.toListOnto acc)

/-- The entries in order: left subtree, node, right subtree. -/
def toList (t : Tree α) : List (Entry α) := t.toListOnto []

/-- The entries in post-order (left subtree, right subtree, node), followed by `acc`. -/
def postOrderOnto : Tree α → List (Entry α) → List (Entry α)
  | leaf, acc => acc
  | node l e r, acc => l.postOrderOnto (r.postOrderOnto (e :: acc))

/-- The entries in post-order: left subtree, right subtree, node. -/
def postOrder (t : Tree α) : List (Entry α) := t.postOrderOnto []

/-- The links of every node in order, below a parent numbered `parent`, followed by `acc`. -/
def rowsOnto (parent : Option Nat) : Tree α → List (Row α) → List (Row α)
  | leaf, acc => acc
  | node l e r, acc =>
    rowsOnto (some e.id) l
      (⟨e.id, e.key, e.value, l.root?.map (·.id), r.root?.map (·.id), parent⟩ ::
        rowsOnto (some e.id) r acc)

/-- The links of every node in order, below a parent numbered `parent`. -/
def rows (parent : Option Nat) (t : Tree α) : List (Row α) := rowsOnto parent t []

/-- The entry of the node numbered `id`. -/
def find? (id : Nat) : Tree α → Option (Entry α)
  | leaf => none
  | node l e r => if e.id = id then some e else (l.find? id).or (r.find? id)

/-- Applies `f` to the value of the node numbered `id`. -/
def modify (id : Nat) (f : α → α) : Tree α → Tree α
  | leaf => leaf
  | node l e r =>
    if e.id = id then node l { e with value := f e.value } r
    else node (l.modify id f) e (r.modify id f)

/-- The path down to the first node of key `k`, going left below a node's key and right above
it, with that node's subtree; `none` when no node on the way has the key. -/
def locate (k : Key) : Tree α → List (Frame α) → Option (Tree α × Entry α × Tree α × List (Frame α))
  | leaf, _ => none
  | node l e r, path =>
    if k < e.key then l.locate k (⟨.left, e, r⟩ :: path)
    else if e.key < k then r.locate k (⟨.right, e, l⟩ :: path)
    else some (l, e, r, path)

/-- The path down to the leaf where a new node of key `k` belongs; equal keys go right. -/
def leafPath (k : Key) : Tree α → List (Frame α) → List (Frame α)
  | leaf, path => path
  | node l e r, path =>
    if k < e.key then l.leafPath k (⟨.left, e, r⟩ :: path) else r.leafPath k (⟨.right, e, l⟩ :: path)

end Tree

/-- The rotation that brings the child on side `d` of the root up. -/
def Side.bringUp {α : Type} : Side → Tree α → Tree α
  | .left => Tree.rotateRight
  | .right => Tree.rotateLeft

/-- Puts `c` back below the parent that `f` records. -/
def Frame.attach {α : Type} (f : Frame α) (c : Tree α) : Tree α :=
  match f.side with
  | .left => .node c f.entry f.other
  | .right => .node f.other f.entry c

/-- Splays the subtree `c` up along a path, the frame nearest to it first. A parent and a
grandparent on the same side take two rotations at the grandparent (zig-zig); on different sides,
a rotation at the parent and then one at the grandparent (zig-zag); a last single frame takes one
rotation (zig). -/
def splayUp {α : Type} : Tree α → List (Frame α) → Tree α
  | c, [] => c
  | c, [f] => f.side.bringUp (f.attach c)
  | c, f1 :: f2 :: rest =>
    let s := f2.attach (f1.attach c)
    splayUp (if f1.side = f2.side then f2.side.bringUp (f2.side.bringUp s)
      else f2.side.bringUp (s.onChild f2.side f1.side.bringUp)) rest

end Splay

/-- A splay tree with values of type `α`, and the number of nodes created since it was last
emptied, which numbers the next node. -/
structure SplayTree (α : Type) where
  root : Splay.Tree α
  count : Nat

namespace SplayTree

open Splay

variable {α : Type}

/-- The empty tree; its first node will be number 0. -/
def empty : SplayTree α := ⟨.leaf, 0⟩

/-- Number of nodes. -/
def size (t : SplayTree α) : Nat := t.count

/-- Whether the tree has no node. -/
def isEmpty (t : SplayTree α) : Bool := t.count == 0

/-- The number of the root node. -/
def rootId? (t : SplayTree α) : Option Nat := t.root.root?.map (·.id)

/-- The key of the root node. -/
def rootKey? (t : SplayTree α) : Option Key := t.root.root?.map (·.key)

/-- The entries in key order. -/
def entries (t : SplayTree α) : List (Entry α) := t.root.toList

/-- The links of every node, in key order. -/
def rows (t : SplayTree α) : List (Row α) := t.root.rows none

/-- The height, counting the root alone as 0; `none` for the empty tree. -/
def depth? (t : SplayTree α) : Option Nat :=
  match t.root with
  | .leaf => none
  | r => some (r.height - 1)

/-- The value of the node numbered `id`. -/
def value? (t : SplayTree α) (id : Nat) : Option α := (t.root.find? id).map (·.value)

/-- Applies `f` to the value of the node numbered `id`. -/
def modify (t : SplayTree α) (id : Nat) (f : α → α) : SplayTree α :=
  { t with root := t.root.modify id f }

/-- The first node of key `k` on the search path, splayed to the root; `none`, and no change,
when no node has the key. -/
def search (t : SplayTree α) (k : Key) : Option (Nat × SplayTree α) :=
  match t.root.locate k [] with
  | some (l, e, r, path) => some (e.id, { t with root := splayUp (.node l e r) path })
  | none => none

section Inserting

variable [Allocator]

/-- Inserts a node of key `k` and value `v` as a leaf and splays it to the root. Its number is
the count of nodes so far, which must fit a 32-bit field, and the allocator must grant room for
one more node. -/
def insert (t : SplayTree α) (k : Key) (v : α) : Except StoreError (Nat × SplayTree α) := do
  let id ← fitField "splay tree nodes" t.count
  if !Allocator.grantsNodes (t.count + 1) then throw (.nodeAllocation (t.count + 1))
  pure (id, ⟨splayUp (.node .leaf ⟨id, k, v⟩ .leaf) (t.root.leafPath k []), t.count + 1⟩)

/-- The first node of key `k`, or a new one with the value `make ()` when there is none; says
whether it inserted. -/
def getOrInsert (t : SplayTree α) (k : Key) (make : Unit → α) :
    Except StoreError (Nat × Bool × SplayTree α) :=
  match t.search k with
  | some (id, t) => .ok (id, false, t)
  | none => do
    let (id, t) ← t.insert k (make ())
    pure (id, true, t)

end Inserting

/-- Every node's key and value in post-order (children before parents), and the empty tree. -/
def drain (t : SplayTree α) : List (Key × α) × SplayTree α :=
  (t.root.postOrder.map fun e => (e.key, e.value), empty)

/-- Empties the tree and gives the number of nodes released. -/
def clear (t : SplayTree α) : Nat × SplayTree α := (t.drain.1.length, empty)

end SplayTree

end Lexicon
