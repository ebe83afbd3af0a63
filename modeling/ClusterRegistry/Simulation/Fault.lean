import ClusterRegistry.Refusal
import ClusterRegistry.Request
import ClusterRegistry.Node

/-!
# Faults

Between a registry and its store stands a layer that writes down every call and lets chosen calls go
wrong. A rule says which calls it takes, how often, and what becomes of them.

* `FaultRule`, `FaultRule.Matches`, `FaultRule.take`: the first rule that takes a call;
* `Treatment`, `FaultRule.treatment`: what becomes of it.
-/

namespace ClusterRegistry

/-- The four kinds of calls. -/
inductive CallKind
  | get | set | delete | wait
deriving DecidableEq, Repr

def Call.kind : Call → CallKind
  | .request (.get ..) => .get
  | .request (.set ..) => .set
  | .request (.delete ..) => .delete
  | .wait .. => .wait

/-- A rule for calls. One without a kind takes every call but waits. -/
structure FaultRule where
  kind : Option CallKind := none
  start : String := ""
  times : Nat := 1
  /-- The store answers first; what the rule does comes after. -/
  afterwards : Bool := false
  delay : Nat := 0
  failure : Option RequestFailure := none
  reply : Option Response := none
deriving Repr

/-- What becomes of a call. -/
inductive Treatment
  /-- After a delay the store answers. -/
  | forward (delay : Nat)
  /-- After a delay that is the answer; the store does not hear of the call. -/
  | answer (delay : Nat) (result : Except RequestFailure Response)
  /-- The store answers at once, but that only counts after a delay, or not at all. -/
  | late (delay : Nat) (failure : Option RequestFailure)

namespace FaultRule

/-- The rule takes the call. -/
def Matches (f : FaultRule) (c : Call) : Prop :=
  (match f.kind with | some k => c.kind = k | none => c.kind ≠ .wait) ∧
    f.start.toList.isPrefixOf c.path.toList

instance (f : FaultRule) (c : Call) : Decidable (f.Matches c) := by
  unfold Matches
  cases f.kind <;> infer_instance

/-- The first rule that takes the call, and the rules that are left. A rule that has been used up
is gone. -/
def take (c : Call) : List FaultRule → Option FaultRule × List FaultRule
  | [] => (none, [])
  | f :: rest =>
    if f.Matches c then
      (some f, if f.times ≤ 1 then rest else { f with times := f.times - 1 } :: rest)
    else
      let (taken, rest) := take c rest
      (taken, f :: rest)

/-- What a rule does to a call. The delay is a sleep. -/
def treatment (f : FaultRule) : Treatment :=
  let delay := Duration.slept f.delay
  if f.afterwards then .late delay f.failure
  else match f.failure, f.reply with
    | some failure, _ => .answer delay (.error failure)
    | none, some reply => .answer delay (.ok reply)
    | none, none => .forward delay

/-- What becomes of a call that passes the layer, and the rules that are left. -/
def treat (c : Call) (rules : List FaultRule) : Treatment × List FaultRule :=
  match take c rules with
  | (some f, rest) => (f.treatment, rest)
  | (none, rest) => (.forward 0, rest)

end FaultRule

end ClusterRegistry
