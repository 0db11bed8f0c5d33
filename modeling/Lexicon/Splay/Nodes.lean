import Lexicon.Splay.Basic

/-!
# Splay trees in a node vector

The splay tree as it is stored: one vector of nodes, each with its key, its value and the numbers
of its children and of its parent, and the number of the root. A node's number is its place in
the vector, given in order of creation. Every operation follows the links: a search and an
insertion walk down from the root, splaying walks up the parent links, rotating each node above
its parent by rewriting the links of at most four nodes, and the root is set once the walk up
ends. The teardown collects the numbers in post-order from the root and then takes each node
out of the vector.

An index outside the vector, which the stored program would not survive, gives `none`; so does a
walk longer than the vector has nodes, which on linked nodes never happens.

* `SplayNodes.rotate`: one rotation; `splayStep`, `splay`: the walk to the root.
* `SplayNodes.search`, `attach`, `insert`, `getOrInsert`: lookups and insertions.
* `SplayNodes.inOrder`, `postOrder`: the numbers reached from the root, by the child links.
* `SplayNodes.drain`, `clear`: the teardown.
-/

namespace Lexicon

namespace Splay

/-- The other side. -/
def Side.other : Side → Side
  | .left => .right
  | .right => .left

/-- A stored node: its key, the numbers of its children and of its parent, and its value. -/
structure Node (α : Type) where
  key : Key
  left : Option Nat
  right : Option Nat
  parent : Option Nat
  value : α
  deriving DecidableEq, Repr

namespace Node

variable {α : Type}

/-- The child on side `d`. -/
def child (n : Node α) : Side → Option Nat
  | .left => n.left
  | .right => n.right

/-- The node with its child on side `d` replaced by `c`. -/
def setChild (n : Node α) : Side → Option Nat → Node α
  | .left, c => { n with left := c }
  | .right, c => { n with right := c }

/-- The side on which the node names `x` as its child: left when its left link is `x`. -/
def sideOf (n : Node α) (x : Nat) : Side := if n.left = some x then .left else .right

end Node

end Splay

/-- A splay tree stored as a vector of nodes linked by number, with the number of its root. -/
structure SplayNodes (α : Type) where
  nodes : Array (Splay.Node α)
  root : Option Nat

namespace SplayNodes

open Splay

variable {α : Type}

/-- The empty tree. -/
def empty : SplayNodes α := ⟨#[], none⟩

/-- Number of nodes. -/
def size (s : SplayNodes α) : Nat := s.nodes.size

/-- The node numbered `i`. -/
def node? (s : SplayNodes α) (i : Nat) : Option (Node α) := s.nodes[i]?

/-- Rewrites the node numbered `i` by `f`. -/
def modifyNode (s : SplayNodes α) (i : Nat) (f : Node α → Node α) : Option (SplayNodes α) :=
  if i < s.nodes.size then some { s with nodes := s.nodes.modify i f } else none

/-- Rewrites by `f` the node whose number `o` holds, if it holds one. -/
def modifySome (s : SplayNodes α) : Option Nat → (Node α → Node α) → Option (SplayNodes α)
  | some i, f => s.modifyNode i f
  | none, _ => some s

/-- Lifts `x` above its parent `p`. On the side `d` where `p` holds `x`, `p` takes the subtree
of `x` on the other side, and `x` takes `p` there; the moved subtree's root, `p` and `x` get
their new parents; and `p`'s former parent, if any, names `x` where it named `p`. The root
number is left as it was. -/
def rotate (s : SplayNodes α) (x p : Nat) : Option (SplayNodes α) := do
  let pn ← s.node? p
  let xn ← s.node? x
  let grand := pn.parent
  let d := pn.sideOf x
  let moved := xn.child d.other
  let s ← s.modifyNode p (·.setChild d moved)
  let s ← s.modifyNode x (·.setChild d.other (some p))
  let s ← s.modifyNode p ({ · with parent := some x })
  let s ← s.modifySome moved ({ · with parent := some p })
  let s ← s.modifySome grand fun n =>
    if n.left = some p then { n with left := some x } else { n with right := some x }
  s.modifyNode x ({ · with parent := grand })

/-- One step of splaying `x`, whose parent is `p`: one rotation when `p` is the root (zig); with
a grandparent, a rotation of `p` and then of `x` when both hang on the same side (zig-zig), and
two rotations of `x` otherwise (zig-zag). -/
def splayStep (s : SplayNodes α) (x p : Nat) : Option (SplayNodes α) := do
  let pn ← s.node? p
  match pn.parent with
  | none => s.rotate x p
  | some g =>
    let gn ← s.node? g
    if pn.sideOf x = gn.sideOf p then (← s.rotate p g).rotate x p
    else (← s.rotate x p).rotate x g

/-- Splays `x` up by at most `fuel` steps, and makes it the root once it has no parent. -/
def splayLoop (x : Nat) : Nat → SplayNodes α → Option (SplayNodes α)
  | 0, _ => none
  | fuel + 1, s => do
    match (← s.node? x).parent with
    | none => some { s with root := some x }
    | some p => splayLoop x fuel (← s.splayStep x p)

/-- Splays `x` to the root. Each step lifts it at least one level, so as many steps as nodes
suffice. -/
def splay (s : SplayNodes α) (x : Nat) : Option (SplayNodes α) := splayLoop x s.nodes.size s

/-- Walks down from `cursor` towards key `k`, visiting at most `fuel` nodes: left below a greater
key, right below a smaller one. Gives the first node of the key, or `none` inside when the walk
falls off the tree. -/
def descend (s : SplayNodes α) (k : Key) : Nat → Option Nat → Option (Option Nat)
  | _, none => some none
  | 0, some _ => none
  | fuel + 1, some i => do
    let n ← s.node? i
    if k < n.key then s.descend k fuel n.left
    else if n.key < k then s.descend k fuel n.right
    else some (some i)

/-- The first node of key `k` on the way down, splayed to the root; a miss changes nothing. -/
def search (s : SplayNodes α) (k : Key) : Option (Option Nat × SplayNodes α) := do
  match ← s.descend k s.nodes.size s.root with
  | none => pure (none, s)
  | some i => pure (some i, ← s.splay i)

/-- The node below which a new node of key `k` goes, walking down from `cursor` below `parent`:
left below a greater key, right otherwise, so equal keys go right; `none` inside for an empty
tree. -/
def leafParent (s : SplayNodes α) (k : Key) : Nat → Option Nat → Option Nat → Option (Option Nat)
  | _, parent, none => some parent
  | 0, _, some _ => none
  | fuel + 1, _, some i => do
    let n ← s.node? i
    s.leafParent k fuel (some i) (if k < n.key then n.left else n.right)

/-- Appends a node of key `k` and value `v`, numbered by the vector's size, links it as a leaf
below the node that `leafParent` finds, and splays it to the root. -/
def attach (s : SplayNodes α) (k : Key) (v : α) : Option (Nat × SplayNodes α) := do
  let i := s.nodes.size
  let parent ← s.leafParent k s.nodes.size none s.root
  let s : SplayNodes α := { s with nodes := s.nodes.push ⟨k, none, none, parent, v⟩ }
  let s ← match parent with
    | none => pure { s with root := some i }
    | some p => s.modifyNode p fun n =>
        if k < n.key then { n with left := some i } else { n with right := some i }
  pure (i, ← s.splay i)

section Inserting

variable [Allocator]

/-- Inserts a node of key `k` and value `v`. Its number, the size of the vector, must fit a
32-bit field, and the allocator must grant room for one more node; either failure changes
nothing. -/
def insert (s : SplayNodes α) (k : Key) (v : α) : Option (Except StoreError (Nat × SplayNodes α)) :=
  match fitField "splay tree nodes" s.nodes.size with
  | .error e => some (.error e)
  | .ok _ =>
    if Allocator.grantsNodes (s.nodes.size + 1) then (s.attach k v).map .ok
    else some (.error (.nodeAllocation (s.nodes.size + 1)))

/-- The first node of key `k`, or a new one of value `make ()` when a search misses; says whether
it inserted. -/
def getOrInsert (s : SplayNodes α) (k : Key) (make : Unit → α) :
    Option (Except StoreError (Nat × Bool × SplayNodes α)) := do
  let (found, s) ← s.search k
  match found with
  | some i => pure (.ok (i, false, s))
  | none => (s.insert k (make ())).map (·.map fun r => (r.1, true, r.2))

end Inserting

/-- The numbers reached from node `i` by the child links, in order: left subtree, node, right
subtree; the walk goes at most `fuel` levels deep. -/
def collectInOrder (s : SplayNodes α) : Nat → Nat → Option (List Nat)
  | 0, _ => none
  | fuel + 1, i => do
    let n ← s.node? i
    let l ← match n.left with
      | some c => s.collectInOrder fuel c
      | none => pure []
    let r ← match n.right with
      | some c => s.collectInOrder fuel c
      | none => pure []
    pure (l ++ i :: r)

/-- The numbers reached from node `i` by the child links, in post-order: left subtree, right
subtree, node. -/
def collectPostOrder (s : SplayNodes α) : Nat → Nat → Option (List Nat)
  | 0, _ => none
  | fuel + 1, i => do
    let n ← s.node? i
    let l ← match n.left with
      | some c => s.collectPostOrder fuel c
      | none => pure []
    let r ← match n.right with
      | some c => s.collectPostOrder fuel c
      | none => pure []
    pure (l ++ r ++ [i])

/-- The node numbers in key order, reached from the root. -/
def inOrder (s : SplayNodes α) : Option (List Nat) :=
  match s.root with
  | none => some []
  | some r => s.collectInOrder s.nodes.size r

/-- The node numbers in post-order, reached from the root. -/
def postOrder (s : SplayNodes α) : Option (List Nat) :=
  match s.root with
  | none => some []
  | some r => s.collectPostOrder s.nodes.size r

/-- Takes the nodes numbered `order` out of `slots` one after another, giving the key and value
of each node still there; a number past the end gives `none`. -/
def takeAll : List Nat → Array (Option (Node α)) → Option (List (Key × α))
  | [], _ => some []
  | i :: rest, slots => do
    match ← slots[i]? with
    | some n => ((n.key, n.value) :: ·) <$> takeAll rest (slots.modify i fun _ => none)
    | none => takeAll rest slots

/-- Empties the tree: the key and value of every node reached from the root, in post-order, the
number of nodes reached, and the empty tree. -/
def drain (s : SplayNodes α) : Option (List (Key × α) × Nat × SplayNodes α) := do
  let order ← s.postOrder
  let freed ← takeAll order (s.nodes.map some)
  pure (freed, order.length, empty)

/-- Empties the tree and gives the number of nodes released. -/
def clear (s : SplayNodes α) : Option (Nat × SplayNodes α) :=
  s.drain.map fun r => (r.2.1, r.2.2)

end SplayNodes

end Lexicon
