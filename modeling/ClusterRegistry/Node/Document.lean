import ClusterRegistry.Json.Record
import ClusterRegistry.Node
import ClusterRegistry.Refusal

/-!
# Documents of nodes, responses and refusals

* `Node.doc`, `Response.doc`: the written form, without what is absent or empty;
* `Node.ofDoc?`, `Response.ofDoc?`, `Refusal.ofDoc?`: the record reading, for a number of levels
  that may still be opened.
-/

namespace ClusterRegistry

open Json

/-! ## Writing -/

/-- A field that is left out when there is no value. -/
def optionField (name : String) (f : α → Doc) : Option α → List (String × Doc)
  | none => []
  | some a => [(name, f a)]

/-- A field that is left out when the list is empty. -/
def listField (name : String) : List Doc → List (String × Doc)
  | [] => []
  | ds => [(name, .array ds)]

/-- The document of a node. -/
def Node.doc : Node → Doc
  | ⟨key, value, dir, nodes, ttl, expiration, createdIndex, modifiedIndex⟩ =>
    .record <|
      [("key", .str key)] ++ optionField "value" .str value ++ [("dir", .bool dir)] ++
      listField "nodes" (docs nodes) ++ optionField "ttl" .int ttl ++
      optionField "expiration" .str expiration ++
      [("createdIndex", .int createdIndex), ("modifiedIndex", .int modifiedIndex)]
where
  /-- The documents of a list of nodes. -/
  docs : List Node → List Doc
    | [] => []
    | n :: r => n.doc :: docs r

/-- The document of a response. Its index travels beside it, not in it. -/
def Response.doc (r : Response) : Doc :=
  .record <|
    [("action", .str r.action.label), ("node", r.node.doc)] ++
    optionField "prevNode" Node.doc r.prevNode

/-! ## Reading -/

/-- The fields of a node, in order. -/
def Node.fieldNames : List String :=
  ["key", "value", "dir", "nodes", "ttl", "expiration", "createdIndex", "modifiedIndex"]

/-- The node that a document describes, given a reading of the nodes in it. -/
def Node.ofFields? (inner : Doc → Option (List Node)) (d : Doc) : Option Node := do
  let f ← d.record? fieldNames
  some {
    key := ← fieldD? f "key" "" Doc.text?
    value := ← fieldD? f "value" none (Doc.optional? Doc.text?)
    dir := ← fieldD? f "dir" false Doc.flag?
    nodes := ← fieldD? f "nodes" [] inner
    ttl := ← fieldD? f "ttl" none (Doc.optional? Doc.int64?)
    expiration := ← fieldD? f "expiration" none (Doc.optional? Doc.text?)
    createdIndex := ← fieldD? f "createdIndex" 0 Doc.nat64?
    modifiedIndex := ← fieldD? f "modifiedIndex" 0 Doc.nat64? }

/-- The node that a document describes. The list of the nodes in it takes a level of its own. -/
def Node.ofDoc? : Nat → Doc → Option Node
  | 0, _ => none
  | 1, d => ofFields? (fun _ => none) d
  | levels + 2, d => ofFields? (fun nodes => nodes.items?.bind fun l => l.mapM (ofDoc? levels)) d

/-- The words for actions. -/
def Action.words : List (String × Action) := Action.all.map fun a => (a.label, a)

/-- The response that a document describes, with the index that came beside it. -/
def Response.ofDoc? (index : Nat) : Nat → Doc → Option Response
  | 0, _ => none
  | levels + 1, d => do
    let f ← d.record? ["action", "node", "prevNode"]
    some {
      action := ← field? f "action" (Doc.word? Action.words)
      node := ← fieldD? f "node" {} (Node.ofDoc? levels)
      prevNode := ← fieldD? f "prevNode" none (Doc.optional? (Node.ofDoc? levels))
      index := index }

/-- The refusal that a document describes. -/
def Refusal.ofDoc? (d : Doc) : Option Refusal := do
  let f ← d.record? ["errorCode", "message", "cause", "index"]
  some {
    code := ← field? f "errorCode" Doc.nat32?
    message := ← fieldD? f "message" "" Doc.text?
    cause := ← fieldD? f "cause" "" Doc.text?
    index := ← fieldD? f "index" 0 Doc.nat64? }

end ClusterRegistry
