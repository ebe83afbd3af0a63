import ClusterRegistry.Path
import ClusterRegistry.Node

/-!
# Snapshots as trees

A snapshot of the store is a list of items in the order of their creation; the place in the list is
the item's id. The first item is the root, every other one names its parent, which is older.

* `Tree`, `Tree.children`, `Tree.child?`, `Tree.follow?`, `Tree.preorder`: walking;
* `Tree.ofPairs`: from paths and values, in the order of the paths;
* `Tree.ofNode`: from a node and what it holds.
-/

namespace ClusterRegistry

/-- One place of a snapshot. The full key is relative to the root and has no slash in front. -/
structure Item where
  fullKey : String
  value : String
  dir : Bool
  parent : Option Nat
deriving DecidableEq, Repr

/-- The last segment of an item's full key. -/
def Item.key (i : Item) : String := Path.lastSegment i.fullKey

/-- A snapshot: the items in the order of their creation, the root first. -/
structure Tree where
  items : List Item
deriving DecidableEq, Repr

namespace Tree

/-- The id of the root. -/
def root : Nat := 0

/-- The tree of an empty store. -/
def empty : Tree := ⟨[⟨"", "", true, none⟩]⟩

/-- The number of items, the root included. -/
def size (t : Tree) : Nat := t.items.length

/-- Nothing but the root. -/
def isEmpty (t : Tree) : Bool := t.size == 1

/-- The item with the given id. -/
def item? (t : Tree) (id : Nat) : Option Item := t.items[id]?

/-! ## Walking -/

/-- The ids of an item's children, oldest first. -/
def children (t : Tree) (id : Nat) : List Nat :=
  (t.items.zipIdx.filter fun (i, _) => i.parent = some id).map (·.2)

/-- The oldest child whose key it is. -/
def child? (t : Tree) (id : Nat) (key : String) : Option Nat :=
  (t.items.zipIdx.find? fun (i, _) => i.parent = some id ∧ i.key = key).map (·.2)

/-- The item reached from `id` along a list of keys. -/
def follow? (t : Tree) (id : Nat) : List String → Option Nat
  | [] => some id
  | key :: rest => (t.child? id key).bind fun c => t.follow? c rest

/-- The item and those below it, down to a depth, each before its children. -/
def below (t : Tree) : Nat → Nat → List Nat
  | 0, id => [id]
  | depth + 1, id => id :: (t.children id).flatMap (t.below depth)

/-- All ids, each before its children. No item lies deeper than there are items. -/
def preorder (t : Tree) : List Nat := t.below t.size root

/-! ## Building -/

/-- Adds an item; its id is the size before. -/
def push (t : Tree) (parent : Nat) (fullKey value : String) (dir : Bool) : Tree :=
  ⟨t.items ++ [⟨fullKey, value, dir, some parent⟩]⟩

/-- Makes an item a directory, which has no value. -/
def promote (t : Tree) (id : Nat) : Tree :=
  ⟨t.items.modify id fun i => { i with dir := true, value := "" }⟩

/-- Gives an item a value, unless it is a directory. -/
def assign (t : Tree) (id : Nat) (value : String) : Tree :=
  ⟨t.items.modify id fun i => if i.dir then i else { i with value := value }⟩

/-- Puts a value at the end of the segments below `id`, whose full key is `above`. -/
def insertBelow (value : String) : Tree → Nat → String → List Segment → Tree
  | t, _, _, [] => t
  | t, id, above, s :: rest =>
    let full := if above = "" then s.text else above ++ "/" ++ s.text
    match t.child? id s.text with
    | some c =>
      if rest = [] then t.assign c value
      else insertBelow value (t.promote c) c full rest
    | none =>
      if rest = [] then t.push id full value false
      else insertBelow value (t.push id full "" true) t.size full rest

/-- The tree of paths and values, taken in the order of the paths; of equal paths the later pair
counts. A path that leads on below another one makes that one a directory. -/
def ofPairs (pairs : List (String × String)) : Tree :=
  (pairs.mergeSort fun a b => a.1 ≤ b.1).foldl
    (fun t (path, value) => t.insertBelow value root "" (Path.segments path)) empty

mutual

/-- Adds a node and what it holds. -/
def addNode (rootKey : String) (t : Tree) (parent : Nat) : Node → Tree
  | ⟨key, value, dir, nodes, _, _, _, _⟩ =>
    addNodes rootKey (t.push parent (Path.relativeTo rootKey key) (value.getD "") dir) t.size nodes

/-- Adds a list of nodes with what they hold. -/
def addNodes (rootKey : String) (t : Tree) (parent : Nat) : List Node → Tree
  | [] => t
  | n :: rest => addNodes rootKey (addNode rootKey t parent n) parent rest

end

/-- The tree of a node, with the node as root. -/
def ofNode (root : Node) : Tree := addNodes root.key empty Tree.root root.nodes

end Tree

end ClusterRegistry
