/-!
# Nodes and responses

The store answers with nodes: a key or directory as it stands at some moment, directories with their
contents as far as they were asked for. The root has an empty key.

* `Node`, `Node.valueText`;
* `Action`, `Response`: what was done, the node it was done to, and what was there before.
-/

namespace ClusterRegistry

/-- A key or directory as the store shows it. A lifetime is given in seconds. -/
structure Node where
  key : String := ""
  value : Option String := none
  dir : Bool := false
  nodes : List Node := []
  ttl : Option Int := none
  expiration : Option String := none
  createdIndex : Nat := 0
  modifiedIndex : Nat := 0
deriving Repr, Inhabited

/-- The value of a key; nothing for a directory. -/
def Node.valueText (n : Node) : String := n.value.getD ""

/-- What a response reports. -/
inductive Action
  | get | set | create | update | delete | expire | compareAndSwap | compareAndDelete
deriving DecidableEq, Repr

def Action.label : Action → String
  | .get => "get"
  | .set => "set"
  | .create => "create"
  | .update => "update"
  | .delete => "delete"
  | .expire => "expire"
  | .compareAndSwap => "compareAndSwap"
  | .compareAndDelete => "compareAndDelete"

def Action.all : List Action :=
  [.get, .set, .create, .update, .delete, .expire, .compareAndSwap, .compareAndDelete]

/-- An answer of the store. The index is that of the store when it answered. -/
structure Response where
  action : Action
  node : Node := {}
  prevNode : Option Node := none
  index : Nat := 0
deriving Repr

end ClusterRegistry
