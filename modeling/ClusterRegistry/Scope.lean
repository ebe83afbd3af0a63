import ClusterRegistry.Client

/-!
# Scopes

A scope is a part of the store that belongs to one purpose, such as the settings of a dogu. Its
operations take keys relative to its parent path and say in their failures what was tried.

* `Scope`, `Scope.path`, and the operations;
* `lifetimeOf`: a lifetime in seconds, which has to be positive;
* `StateMarker`: the single key that records how far the setup of a dogu has come.
-/

namespace ClusterRegistry

/-- The values below a parent path. -/
structure Scope where
  client : Client
  parent : String
deriving DecidableEq, Repr

/-- A number of seconds as a lifetime in milliseconds. -/
def lifetimeOf (path : String) (seconds : Int) : Operation Nat :=
  if seconds ≤ 0 then throw (.lifetime path seconds) else return seconds.toNat * 1000

namespace Scope

variable (s : Scope)

/-- The path of a key. -/
def path (key : String) : String := Path.join s.parent key

def set (key value : String) : Operation Unit :=
  Operation.during s!"could not set {s.path key}" do
    let _ ← s.client.set (s.path key) value

def setFor (key value : String) (seconds : Int) : Operation Unit := do
  let lifetime ← lifetimeOf (s.path key) seconds
  Operation.during s!"could not set {s.path key} with lifetime {seconds}s" do
    let _ ← s.client.setFor (s.path key) value lifetime

def refresh (key : String) (seconds : Int) : Operation Unit := do
  let lifetime ← lifetimeOf (s.path key) seconds
  Operation.during s!"could not refresh {s.path key}" (s.client.refresh (s.path key) lifetime)

def get (key : String) : Operation String :=
  Operation.during s!"could not get value of {s.path key}" (s.client.get (s.path key))

/-- Every value of the scope. -/
def getAll : Operation Values :=
  Operation.during s!"could not read values below {s.parent}" (s.client.getAll s.parent)

def delete (key : String) : Operation Unit :=
  Operation.during s!"could not delete {s.path key}" (s.client.delete (s.path key))

def deleteAll (key : String) : Operation Unit :=
  Operation.during s!"could not delete {s.path key} recursively" (s.client.deleteAll (s.path key))

def exists? (key : String) : Operation Bool :=
  Operation.during s!"could not check existence of {s.path key}" (s.client.exists? (s.path key))

/-- Removes the scope with all its values. -/
def clear : Operation Unit :=
  Operation.during s!"could not remove {s.parent}" (s.client.deleteAll s.parent)

/-- The value of a key, if it exists. One that is removed between the question and the read does
not. -/
def get? (key : String) : Operation (Option String) := do
  if ← s.exists? key then
    match ← (s.get key).outcome with
    | .ok value => return some value
    | .error f => if f.IsNotFound then return none else throw f
  else return none

end Scope

/-- The key that records the state of a dogu. -/
structure StateMarker where
  client : Client
  path : String
deriving DecidableEq, Repr

namespace StateMarker

variable (m : StateMarker)

/-- The state; nothing if none is recorded. -/
def get : Operation String := do
  match ← (m.client.get m.path).outcome with
  | .ok value => return value
  | .error f =>
    if f.IsNotFound then return "" else throw (.context s!"could not read state {m.path}" f)

def set (value : String) : Operation Unit :=
  Operation.during s!"could not set state {m.path}" do
    let _ ← m.client.set m.path value

/-- Forgets the state. That there is none is no failure. -/
def remove : Operation Unit := do
  if ← m.client.exists? m.path then
    match ← (m.client.delete m.path).outcome with
    | .ok () => return ()
    | .error f =>
      if f.IsNotFound then return () else throw (.context s!"could not remove state {m.path}" f)

end StateMarker

end ClusterRegistry
