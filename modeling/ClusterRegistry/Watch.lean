import ClusterRegistry.Client

/-!
# Subscriptions

A subscription follows the changes of a key, or of everything below it. It waits for one change
after the other and puts each into a buffer for its reader. While the buffer is full it holds the
next event and waits for nothing.

* `Event`, `Event.ofResponse`: a change as the reader sees it;
* `Subscription`, `Subscription.options`, `Subscription.answered`: the loop, one answer at a time;
* `Subscription.receive`, `Subscription.cancel`, `Subscription.wake`: the reader's side and time;
* `Client.subscription`: a subscription as a client starts it.
-/

namespace ClusterRegistry

/-- One change of a watched key. Removals and directories have no value. -/
structure Event where
  action : Action
  key : String
  value : Option String
  prevValue : Option String
  index : Nat
  dir : Bool
deriving DecidableEq, Repr

/-- The event that a response reports. -/
def Event.ofResponse (r : Response) : Event where
  action := r.action
  key := r.node.key
  value := r.node.value
  prevValue := r.prevNode.bind (·.value)
  index := r.node.modifiedIndex
  dir := r.node.dir

/-- What a subscription does at the moment. -/
inductive Phase
  /-- It asks for the next change. -/
  | asking
  /-- It holds an event for which the buffer has no room. -/
  | holding (e : Event)
  /-- It pauses after a failure, until the given time. -/
  | pausing (until_ : Nat)
  | ended
deriving DecidableEq, Repr

/-- A subscription to a path. The cursor is the index of the last change it has seen. -/
structure Subscription where
  path : String
  recursive : Bool
  capacity : Nat
  retryDelay : Nat
  cursor : Nat := 0
  buffer : List Event := []
  phase : Phase := .asking
deriving DecidableEq, Repr

namespace Subscription

/-- What the subscription asks for. -/
def options (s : Subscription) : WaitOptions := ⟨s.recursive, s.cursor⟩

/-- Puts an event into the buffer, or holds it if there is no room. -/
def offer (s : Subscription) (e : Event) : Subscription :=
  if s.buffer.length < s.capacity then { s with buffer := s.buffer ++ [e], phase := .asking }
  else { s with phase := .holding e }

/-- Takes the answer to what was asked. If changes have been forgotten, the subscription goes on
from the index in the refusal. A failure that may pass makes it pause, any other one ends it. -/
def answered (s : Subscription) (now : Nat) :
    Except RequestFailure Response → Subscription
  | .ok r => { s with cursor := max r.node.modifiedIndex s.cursor }.offer (.ofResponse r)
  | .error (.refused r) =>
    if r.code = Refusal.eventIndexCleared then { s with cursor := r.index, phase := .asking }
    else if r.kind = .permanent then { s with phase := .ended }
    else { s with phase := .pausing (now + s.retryDelay) }
  | .error f =>
    if f.kind = .permanent then { s with phase := .ended }
    else { s with phase := .pausing (now + s.retryDelay) }

/-- Ends a pause that is over. -/
def wake (s : Subscription) (now : Nat) : Subscription :=
  match s.phase with
  | .pausing t => if t ≤ now then { s with phase := .asking } else s
  | _ => s

/-- Ends the subscription. What is in the buffer stays, an event that is held is lost. -/
def cancel (s : Subscription) : Subscription := { s with phase := .ended }

/-- The reader takes the first event. An event that is held moves up. -/
def receive (s : Subscription) : Option Event × Subscription :=
  match s.buffer with
  | [] => (none, s)
  | e :: rest =>
    match s.phase with
    | .holding h => (some e, { s with buffer := rest ++ [h], phase := .asking })
    | _ => (some e, { s with buffer := rest })

end Subscription

/-- A new subscription. It has room for one event at least and pauses for a millisecond at least. -/
def Client.subscription (c : Client) (path : String) (recursive : Bool) : Subscription where
  path := Path.canonical path
  recursive := recursive
  capacity := max c.bufferSize 1
  retryDelay := Duration.slept (max c.retry.interval 1).toNat

end ClusterRegistry
