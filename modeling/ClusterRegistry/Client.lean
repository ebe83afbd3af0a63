import Std.Data.ExtTreeMap
import ClusterRegistry.Path
import ClusterRegistry.Program
import ClusterRegistry.Settings

/-!
# The client

The client repeats requests that fail. An answer that the key is absent is final, like a success;
every other failure uses up one of the waits of the retry policy, and the request is sent again.

* `Client`, `Client.attempts`, `Client.request`: the loop that all operations share;
* `Client.get`, `Client.set`, … : the operations;
* `Values`, `Node.leaves`: the values below a key.
-/

namespace ClusterRegistry

/-- How a client behaves: its retry policy, the timeout of a single request and the room of a
subscription. -/
structure Client where
  retry : RetryPolicy
  timeout : Nat
  bufferSize : Nat
deriving DecidableEq, Repr

/-- The client that the settings describe. -/
def Client.ofSettings (s : Settings) : Client :=
  ⟨s.retry, s.store.requestTimeout, s.watch.bufferSize⟩

/-! ## Values below a key -/

/-- Values by their paths relative to some key. -/
abbrev Values := Std.ExtTreeMap String String

mutual

/-- The keys with a value at or below a node, by their paths relative to `root`. Directories only
count for what they hold. -/
def Node.leaves (root : String) : Node → List (String × String)
  | ⟨key, value, dir, nodes, _, _, _, _⟩ =>
    if dir then leavesOf root nodes else [(Path.relativeTo root key, value.getD "")]

/-- The keys with a value in a list of nodes. -/
def leavesOf (root : String) : List Node → List (String × String)
  | [] => []
  | n :: rest => n.leaves root ++ leavesOf root rest

end

namespace Client

variable (c : Client)

/-! ## Repetition -/

/-- The end of an operation that failed for good. -/
def giveUp (operation path : String) (attempts : Nat) (cause : RequestFailure) :
    Program (Except Failure Response) :=
  .count (.failure operation cause.kind) (.done (.error (.request operation path attempts cause)))

/-- Attempt number `n`, with the waits that are left. -/
def attempts (operation path : String) (r : Request) :
    List Nat → Nat → Program (Except Failure Response)
  | [], n =>
    .count (.attempt operation) <| .ask r c.timeout fun
      | .ok response => .done (.ok response)
      | .error cause => giveUp operation path n cause
  | wait :: waits, n =>
    .count (.attempt operation) <| .ask r c.timeout fun
      | .ok response => .done (.ok response)
      | .error cause =>
        if cause.kind = .notFound then giveUp operation path n cause
        else .count (.retry operation) (.sleep wait (attempts operation path r waits (n + 1)))

/-- Sends a request until it succeeds, the key is absent or the waits are used up. A policy in which
something is wrong is refused before anything is sent. -/
def request (operation path : String) (r : Request) : Operation Response :=
  ExceptT.mk <| match c.retry.delays with
    | .error reason => .done (.error (.retryPolicy reason))
    | .ok waits => c.attempts operation path r waits 1

/-! ## Operations -/

/-- The value at a path; nothing for a directory. -/
def get (path : String) : Operation String := do
  let response ← c.request "get" path (.get path {})
  return response.node.valueText

/-- The node at a path, with everything below it if that is asked for. -/
def getNode (path : String) (recursive : Bool) : Operation Node := do
  let response ← c.request "get_node" path (.get path { recursive := recursive, sorted := true })
  return response.node

/-- Writes a value and answers with what was stored. -/
def set (path value : String) : Operation String := do
  let response ← c.request "set" path (.set path value {})
  return response.node.valueText

/-- Writes a value that the store removes after a lifetime in milliseconds. -/
def setFor (path value : String) (lifetime : Nat) : Operation String := do
  let response ← c.request "set_with_ttl" path (.set path value { lifetime := some lifetime })
  return response.node.valueText

/-- Starts the lifetime of an existing key anew. -/
def refresh (path : String) (lifetime : Nat) : Operation Unit := do
  let _ ← c.request "refresh" path
    (.set path "" { lifetime := some lifetime, refresh := true, presence := .mustExist })

/-- Removes a single key, which is no directory. -/
def delete (path : String) : Operation Unit := do
  let _ ← c.request "delete" path (.delete path {})

/-- Removes a key with everything below it. -/
def deleteAll (path : String) : Operation Unit := do
  let _ ← c.request "delete_recursive" path (.delete path { recursive := true, dir := true })

/-- Whether something stands at a path. It fails only if that cannot be found out. -/
def exists? (path : String) : Operation Bool := do
  match ← (c.request "exists" path (.get path {})).outcome with
  | .ok _ => return true
  | .error f => if f.IsNotFound then return false else throw f

/-- Every value below a path. -/
def getAll (path : String) : Operation Values := do
  let response ← c.request "get_recursive" path (.get path { recursive := true, sorted := true })
  return .ofList (leavesOf (Path.canonical path) response.node.nodes)

/-- The paths of the children of a path; none if nothing stands there. -/
def children (path : String) : Operation (List String) := do
  match ← (c.request "get_children_paths" path (.get path { sorted := true })).outcome with
  | .ok response => return response.node.nodes.map (·.key)
  | .error f => if f.IsNotFound then return [] else throw f

end Client

end ClusterRegistry
