/-!
# Requests

The requests that a store answers. A path is passed on as the caller spells it; the store looks at
its segments only. Lifetimes are in milliseconds.

* `GetOptions`, `SetOptions`, `DeleteOptions`, `WaitOptions`, `Presence`;
* `Request`: what has an answer at once;
* `Call`: a request or a wait.
-/

namespace ClusterRegistry

/-- What a read shows: everything below a key or its children alone, in order or not. -/
structure GetOptions where
  recursive : Bool := false
  sorted : Bool := false
deriving DecidableEq, Repr

/-- What has to hold of a key before it is written. -/
inductive Presence
  | ignored | mustExist | mustNotExist
deriving DecidableEq, Repr

/-- How a key is written: with a lifetime, as a directory, or not at all but for its lifetime. -/
structure SetOptions where
  lifetime : Option Nat := none
  refresh : Bool := false
  presence : Presence := .ignored
  dir : Bool := false
deriving DecidableEq, Repr

/-- What a removal takes along: everything below a key, or an empty directory. -/
structure DeleteOptions where
  recursive : Bool := false
  dir : Bool := false
deriving DecidableEq, Repr

/-- Which change a wait asks for: one with an index above `after`, or the next one if that is 0. -/
structure WaitOptions where
  recursive : Bool := false
  after : Nat := 0
deriving DecidableEq, Repr

/-- A request for a path. -/
inductive Request
  | get (path : String) (options : GetOptions)
  | set (path value : String) (options : SetOptions)
  | delete (path : String) (options : DeleteOptions)
deriving DecidableEq, Repr

/-- Anything that a store can be asked. -/
inductive Call
  | request (r : Request)
  | wait (path : String) (options : WaitOptions)
deriving DecidableEq, Repr

/-- The path of a call, as the caller spells it. -/
def Call.path : Call → String
  | .request (.get path _) | .request (.set path _ _) | .request (.delete path _) => path
  | .wait path _ => path

end ClusterRegistry
