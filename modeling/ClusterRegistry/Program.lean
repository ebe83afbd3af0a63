import ClusterRegistry.Failure
import ClusterRegistry.Node
import ClusterRegistry.Request

/-!
# Programs

What a client does is a program: it asks the store, sleeps and counts, and what it does next hangs
on the answers. A program says nothing about the store; any interpreter may run it.

* `Count`, `Tally`: what is counted, and how it is reported;
* `Program`, `Program.bind`, `Program.run`: programs, one after the other, and a run against a
  server that answers at once;
* `Operation`: a program that may fail, with `Operation.during` and `Operation.outcome`.
-/

namespace ClusterRegistry

/-! ## Counting -/

/-- What is counted, for an operation: each attempt, each repetition, each failure that reaches the
caller. -/
inductive Count
  | attempt (operation : String)
  | retry (operation : String)
  | failure (operation : String) (kind : FailureKind)
deriving DecidableEq, Repr

namespace Count

/-- The name of the counter. -/
def metric : Count → String
  | .attempt _ => "registry_store_attempts_total"
  | .retry _ => "registry_store_retries_total"
  | .failure .. => "registry_store_failures_total"

/-- What the counter counts. -/
def help : Count → String
  | .attempt _ => "Store requests sent, including retries"
  | .retry _ => "Store requests repeated after a transient failure"
  | .failure .. => "Store operations that returned an error to the caller"

/-- The labels of a count, in the order of their names. -/
def labels : Count → List (String × String)
  | .attempt operation | .retry operation => [("operation", operation)]
  | .failure operation kind => [("kind", kind.label), ("operation", operation)]

/-- The order of reports: by counter, then by the values of the labels. -/
def reportKey (c : Count) : List String := c.metric :: c.labels.map (·.2)

end Count

/-- How often each thing was counted, in the order of the first time. -/
abbrev Tally := List (Count × Nat)

namespace Tally

/-- One more. -/
def add (c : Count) : Tally → Tally
  | [] => [(c, 1)]
  | (d, n) :: r => if d = c then (d, n + 1) :: r else (d, n) :: add c r

/-- What has been counted, in the order of reports. -/
def report (t : Tally) : Tally :=
  t.mergeSort fun a b => (List.compareLex compare a.1.reportKey b.1.reportKey).isLE

end Tally

/-! ## Programs -/

/-- A program with a result. An answer that takes longer than the timeout of its request is a
failure; time is in milliseconds. -/
inductive Program (α : Type)
  | done (result : α)
  | ask (request : Request) (timeout : Nat)
      (next : Except RequestFailure Response → Program α)
  | sleep (millis : Nat) (next : Program α)
  | count (c : Count) (next : Program α)

namespace Program

/-- One program, then another one that knows its result. -/
def bind : Program α → (α → Program β) → Program β
  | .done a, f => f a
  | .ask r timeout next, f => .ask r timeout fun answer => (next answer).bind f
  | .sleep millis next, f => .sleep millis (next.bind f)
  | .count c next, f => .count c (next.bind f)

instance : Monad Program where
  pure := .done
  bind := .bind

/-- Runs a program against a server with a state, which answers without taking time. Sleeps are
skipped and counts are added up. -/
def run (serve : σ → Request → σ × Except RequestFailure Response) :
    Program α → σ → Tally → α × σ × Tally
  | .done a, s, t => (a, s, t)
  | .ask r _ next, s, t => (next (serve s r).2).run serve (serve s r).1 t
  | .sleep _ next, s, t => next.run serve s t
  | .count c next, s, t => next.run serve s (t.add c)

end Program

/-! ## Operations -/

/-- A program that may fail. -/
abbrev Operation := ExceptT Failure Program

namespace Operation

/-- Adds to a failure what was being done. -/
def during (doing : String) (x : Operation α) : Operation α :=
  ExceptT.mk (x.run.bind fun
    | .ok a => .done (.ok a)
    | .error f => .done (.error (.context doing f)))

/-- The outcome of an operation, failure or not, as a result. -/
def outcome (x : Operation α) : Operation (Except Failure α) :=
  ExceptT.mk (x.run.bind fun r => .done (.ok r))

end Operation

end ClusterRegistry
