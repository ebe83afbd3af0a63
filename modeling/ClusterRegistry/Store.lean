import Std.Data.ExtTreeMap
import ClusterRegistry.Key
import ClusterRegistry.Node
import ClusterRegistry.Refusal
import ClusterRegistry.Request

/-!
# The store

A store keeps entries at keys, counts its changes and remembers the latest of them. A key may have a
lifetime. One that has ended is noticed by the next access, which removes the key with everything
below it and records that.

* `Entry`, `Contents`, `Snapshot`, `Change`, `Store`: what is kept, what an answer shows of it, and
  what is remembered;
* `Store.expire`: removes what is due;
* `Store.read`, `Store.write`, `Store.remove`: requests to a store in which nothing is due;
* `Store.serve`: a request at a time. Time is in milliseconds;
* `Store.handle`: a request by a clock that cannot tell every time.
-/

namespace ClusterRegistry

/-! ## Contents -/

/-- What is kept at a key. A directory has an empty value. -/
structure Entry where
  dir : Bool
  value : String
  deadline : Option Nat
  createdIndex : Nat
  modifiedIndex : Nat
deriving DecidableEq, Repr

namespace Entry

/-- The lifetime of the entry has ended. -/
def IsDue (now : Nat) (e : Entry) : Prop := ∃ t ∈ e.deadline, t ≤ now

instance (now : Nat) (e : Entry) : Decidable (e.IsDue now) := by
  unfold IsDue
  cases e.deadline with
  | none => exact isFalse (by simp)
  | some t => exact decidable_of_iff (t ≤ now) (by simp)

/-- A directory that nobody asked for. -/
def parent (index : Nat) : Entry := ⟨true, "", none, index, index⟩

end Entry

/-- What an answer shows of an entry. What is left of a lifetime is in seconds, rounded up. -/
structure Snapshot where
  value : Option String
  dir : Bool
  ttl : Option Nat
  createdIndex : Nat
  modifiedIndex : Nat
deriving DecidableEq, Repr

/-- The entry as it is shown at a time. -/
def Entry.snapshot (now : Nat) (e : Entry) : Snapshot where
  value := if e.dir then none else some e.value
  dir := e.dir
  ttl := e.deadline.map fun t => (t - now + 999) / 1000
  createdIndex := e.createdIndex
  modifiedIndex := e.modifiedIndex

/-- The node of a snapshot. -/
def Snapshot.node (s : Snapshot) (key : Key) (nodes : List Node) : Node where
  key := key.text
  value := s.value
  dir := s.dir
  nodes := nodes
  ttl := s.ttl.map Int.ofNat
  expiration := none
  createdIndex := s.createdIndex
  modifiedIndex := s.modifiedIndex

/-- A recorded change: what stands at the key from then on, and what stood there before. After a
removal the snapshot has no value. -/
structure Change where
  action : Action
  key : Key
  node : Snapshot
  prev : Option Snapshot
  index : Nat
deriving DecidableEq

/-- The answer that reports a change. -/
def Change.response (c : Change) : Response where
  action := c.action
  node := c.node.node c.key []
  prevNode := c.prev.map fun p => p.node c.key []
  index := c.index

/-- Entries by key, in the order of their texts. -/
abbrev Contents := Std.ExtTreeMap Key Entry

namespace Contents

/-- The entries without a key and everything below it. -/
def prune (c : Contents) (key : Key) : Contents := c.filter fun k _ => ¬ k.IsWithin key

/-- The entries with a directory at each of the keys where nothing is. -/
def addParents (c : Contents) (index : Nat) (keys : List Key) : Contents :=
  keys.foldl (fun c k => c.insertIfNew k (.parent index)) c

/-- The children of a key, in order. -/
def children (c : Contents) (key : Key) : List (Key × Entry) :=
  c.toList.filter fun (k, _) => k.IsChildOf key

/-- The nodes of the children of a key; directories among them are opened down to a depth. -/
def childNodes (c : Contents) (now : Nat) : Nat → Key → List Node
  | 0, key => (c.children key).map fun (k, e) => (e.snapshot now).node k []
  | depth + 1, key => (c.children key).map fun (k, e) =>
      (e.snapshot now).node k (if e.dir then c.childNodes now depth k else [])

/-- The first deadline of all. -/
def nextDeadline? (c : Contents) : Option Nat := (c.toList.filterMap (·.2.deadline)).min?

end Contents

/-! ## State -/

/-- The number of changes that are remembered. -/
def historyCapacity : Nat := 1000

/-- Everything a store knows. The history is in order, the oldest change first; all changes up to
`evictedUpTo` have been forgotten. `signals` counts how often those who wait have been woken. -/
structure Store where
  contents : Contents := ∅
  index : Nat := 0
  history : List Change := []
  evictedUpTo : Nat := 0
  signals : Nat := 0

namespace Store

/-- The store that has never been written to. -/
def empty : Store := {}

/-- Remembers a change and, if there is no more room, forgets the oldest one. -/
def record (s : Store) (c : Change) : Store :=
  match s.history with
  | [] => { s with history := [c] }
  | oldest :: rest =>
    if s.history.length < historyCapacity then { s with history := s.history ++ [c] }
    else { s with history := rest ++ [c], evictedUpTo := oldest.index }

/-- Wakes everyone who waits. -/
def signal (s : Store) : Store := { s with signals := s.signals + 1 }

/-- Removes a key with everything below it and remembers why. -/
def drop (s : Store) (now : Nat) (action : Action) (key : Key) (e : Entry) : Store × Change :=
  let index := s.index + 1
  let change : Change :=
    { action := action, key := key
      node := ⟨none, e.dir, none, e.createdIndex, index⟩
      prev := some (e.snapshot now), index := index }
  (({ s with contents := s.contents.prune key, index := index } : Store).record change, change)

/-! ## Lifetimes -/

/-- The keys whose lifetime has ended, in order. -/
def dueKeys (s : Store) (now : Nat) : List Key :=
  (s.contents.toList.filter fun (_, e) => e.IsDue now).map (·.1)

/-- Removes a key whose lifetime has ended, unless it went with a key above it. -/
def expireKey (now : Nat) (s : Store) (key : Key) : Store :=
  match s.contents[key]? with
  | none => s
  | some e => (s.drop now .expire key e).1

/-- Removes every key whose lifetime has ended, and wakes everyone if there was one. -/
def expire (s : Store) (now : Nat) : Store :=
  let after := (s.dueKeys now).foldl (expireKey now) s
  if after.index = s.index then after else after.signal

/-! ## Requests -/

/-- The refusal of a request, with the index of the store. -/
def refuse (s : Store) (code : Nat) (cause : String) : Except Refusal α :=
  .error (.ofCode code cause s.index)

/-- What stands at a key. A directory is shown with its children, and in a recursive read with
everything below it. -/
def read (s : Store) (now : Nat) (path : String) (options : GetOptions) : Except Refusal Response :=
  let key := Key.ofPath path
  let depth := if options.recursive then s.contents.size else 0
  if key = .root then
    .ok { action := .get, index := s.index
          node := { dir := true, nodes := s.contents.childNodes now depth key } }
  else match s.contents[key]? with
    | none => s.refuse Refusal.keyNotFound key.text
    | some e =>
      .ok { action := .get, index := s.index
            node := (e.snapshot now).node key
              (if e.dir then s.contents.childNodes now depth key else []) }

/-- Gives an existing key a new lifetime, or none. Nothing else changes and nobody is woken. -/
def refresh (s : Store) (now : Nat) (key : Key) (e : Entry) (lifetime : Option Nat) :
    Store × Response :=
  let e' := { e with deadline := lifetime.map (now + ·) }
  ({ s with contents := s.contents.insert key e' },
    { action := .update, index := s.index
      node := (e'.snapshot now).node key [], prevNode := some ((e.snapshot now).node key []) })

/-- The action that a write reports. -/
def Presence.action : Presence → Action
  | .mustExist => .update
  | .mustNotExist => .create
  | .ignored => .set

/-- The store once a write has begun: the next index is taken, and there are directories where the
keys above were missing. -/
def begun (s : Store) (key : Key) : Store :=
  { s with contents := s.contents.addParents (s.index + 1) key.ancestors, index := s.index + 1 }

/-- Puts a value or a directory at a key, and directories where the keys above it are missing. -/
def put (s : Store) (now : Nat) (key : Key) (prev : Option Entry) (value : String)
    (options : SetOptions) : Store × Change :=
  let index := s.index + 1
  let e : Entry :=
    { dir := options.dir, value := if options.dir then "" else value
      deadline := options.lifetime.map (now + ·)
      createdIndex := (prev.map (·.createdIndex)).getD index, modifiedIndex := index }
  let change : Change :=
    { action := Presence.action options.presence, key := key, node := e.snapshot now
      prev := prev.map (·.snapshot now), index := index }
  let begun := s.begun key
  ((({ begun with contents := begun.contents.insert key e } : Store).record change).signal, change)

/-- Writes a key or refreshes its lifetime. The root cannot be written, nor a directory, nor
anything below a key that is no directory. -/
def write (s : Store) (now : Nat) (path value : String) (options : SetOptions) :
    Except Refusal (Store × Response) :=
  let key := Key.ofPath path
  let prev := s.contents[key]?
  if key = .root then s.refuse Refusal.rootReadOnly key.text
  else if options.presence = .mustExist ∧ prev = none then
    s.refuse Refusal.keyNotFound key.text
  else if options.presence = .mustNotExist ∧ prev ≠ none then
    s.refuse Refusal.nodeExists key.text
  else if options.refresh then
    match prev with
    | none => s.refuse Refusal.keyNotFound key.text
    | some e => .ok (s.refresh now key e options.lifetime)
  else if prev.any (·.dir) then s.refuse Refusal.notFile key.text
  else match key.ancestors.find? fun k => s.contents[k]?.any (!·.dir) with
    | some file => s.refuse Refusal.notDir file.text
    | none =>
      let (s, change) := s.put now key prev value options
      .ok (s, change.response)

/-- Removes a key. A directory has to be asked for, and one that is not empty goes with everything
below it only if that is asked for too. -/
def remove (s : Store) (now : Nat) (path : String) (options : DeleteOptions) :
    Except Refusal (Store × Response) :=
  let key := Key.ofPath path
  if key = .root then s.refuse Refusal.rootReadOnly key.text
  else match s.contents[key]? with
    | none => s.refuse Refusal.keyNotFound key.text
    | some e =>
      if e.dir ∧ ¬ options.dir ∧ ¬ options.recursive then s.refuse Refusal.notFile key.text
      else if e.dir ∧ ¬ options.recursive ∧ s.contents.children key ≠ [] then
        s.refuse Refusal.dirNotEmpty key.text
      else
        let (s, change) := s.drop now .delete key e
        .ok (s.signal, change.response)

/-- The state and the answer after a request to a store in which nothing is due. -/
def perform (s : Store) (now : Nat) : Request → Except Refusal (Store × Response)
  | .get path options => (s.read now path options).map (s, ·)
  | .set path value options => s.write now path value options
  | .delete path options => s.remove now path options

/-- Answers a request at a time. A refused request changes nothing but what was due. -/
def serve (s : Store) (now : Nat) (r : Request) : Store × Except Refusal Response :=
  let s := s.expire now
  match s.perform now r with
  | .ok (s', response) => (s', .ok response)
  | .error refusal => (s, .error refusal)

/-! ## The clock -/

/-- What a write leaves behind that breaks off: one that is not refused, but has a lifetime that
ends after the last moment that the clock can tell. The deadline is told before a refresh changes
anything, and otherwise once the write has begun. -/
def brokenOff? (s : Store) (last now : Nat) : Request → Option Store
  | .set path value options =>
    if options.lifetime.all (now + · ≤ last) then none
    else match s.write now path value options with
      | .error _ => none
      | .ok _ => some (if options.refresh then s else s.begun (.ofPath path))
  | .get .. | .delete .. => none

/-- Answers a request at a time, by a clock with a last moment. There is no answer if the request
breaks off. -/
def handle (s : Store) (last now : Nat) (r : Request) : Store × Option (Except Refusal Response) :=
  match (s.expire now).brokenOff? last now r with
  | some s => (s, none)
  | none =>
    let (s, answer) := s.serve now r
    (s, some answer)

end Store

end ClusterRegistry
