import ClusterRegistry.Client
import ClusterRegistry.Store

/-!
# Requests without an answer

A request may fail in two ways: it gets lost before the store performs it, or its answer gets lost
afterwards. A program cannot tell one from the other, but whatever the answers are, it asks nothing
but what is written in it.

* `Handling`, `Wire`, `Wire.serve`, `Wire.exec`: what becomes of requests, and of a program;
* `Program.Asks`, `Program.Asks.bind`, …: all that a program may ask;
* `Client.request_asks`: a client asks for one thing, however often;
* **`Wire.exec_keep`**: what all requests of a program keep, the program keeps;
* `Operation.run_of_bind`, `Operation.run_of_during`, **`Client.request_served`**: the success of an
  operation is that of its last request.
-/

namespace ClusterRegistry

/-- What becomes of a request. -/
inductive Handling
  /-- The store answers. -/
  | answered
  /-- The request gets lost. -/
  | lost (failure : RequestFailure)
  /-- The store performs the request, and the answer gets lost. -/
  | unanswered (failure : RequestFailure)

/-- A store at a time, with the pauses and the handlings of the next requests. Those after them are
answered at once. -/
structure Wire where
  store : Store := .empty
  now : Nat := 0
  handlings : List (Nat × Handling) := []

namespace Wire

/-- Sends a request. -/
def serve (w : Wire) (r : Request) : Wire × Except RequestFailure Response :=
  let (pause, handling) := w.handlings.headD (0, .answered)
  let now := w.now + pause
  let handlings := w.handlings.tail
  match handling with
  | .answered =>
    let (store, answer) := w.store.serve now r
    (⟨store, now, handlings⟩, answer.mapError .refused)
  | .lost failure => (⟨w.store, now, handlings⟩, .error failure)
  | .unanswered failure => (⟨(w.store.serve now r).1, now, handlings⟩, .error failure)

/-- Runs a program. What it counts does not matter here. -/
def exec (w : Wire) (x : Program α) : α × Wire :=
  let (a, w', _) := x.run serve w []
  (a, w')

theorem store_serve (w : Wire) (r : Request) : (w.serve r).1.store = w.store ∨
    ∃ now, (w.serve r).1.store = (w.store.serve now r).1 := by
  unfold serve
  dsimp only
  split
  · exact .inr ⟨_, rfl⟩
  · exact .inl rfl
  · exact .inr ⟨_, rfl⟩

end Wire

/-! ## What a program asks -/

namespace Program

variable {α β : Type} {R : Request → Prop}

/-- Whatever the answers are, the program asks only requests of a kind. -/
def Asks (R : Request → Prop) : Program α → Prop
  | .done _ => True
  | .ask r _ next => R r ∧ ∀ answer, (next answer).Asks R
  | .sleep _ next => next.Asks R
  | .count _ next => next.Asks R

theorem Asks.bind {x : Program α} {f : α → Program β} (hx : x.Asks R) (hf : ∀ a, (f a).Asks R) :
    (x.bind f).Asks R := by
  induction x with
  | done a => exact hf a
  | ask r timeout next ih => exact ⟨hx.1, fun answer => ih answer (hx.2 answer)⟩
  | sleep millis next ih => exact ih hx
  | count c next ih => exact ih hx

theorem Asks.keep {σ : Type} {serve : σ → Request → σ × Except RequestFailure Response}
    {P : σ → Prop} (step : ∀ s r, R r → P s → P (serve s r).1) {x : Program α} (hx : x.Asks R)
    {s : σ} (hs : P s) (t : Tally) : P (x.run serve s t).2.1 := by
  induction x generalizing s t with
  | done a => exact hs
  | ask r timeout next ih => exact ih _ (hx.2 _) (step s r hx.1 hs) t
  | sleep millis next ih => exact ih hx hs t
  | count c next ih => exact ih hx hs (t.add c)

end Program

namespace Operation

variable {α β : Type} {R : Request → Prop} {x : Operation α}

/-- Whatever the answers are, the operation asks only requests of a kind. -/
def Asks (R : Request → Prop) (x : Operation α) : Prop := x.run.Asks R

theorem Asks.pure (a : α) : (pure a : Operation α).Asks R := trivial

theorem Asks.bind {f : α → Operation β} (hx : x.Asks R) (hf : ∀ a, (f a).Asks R) :
    (x >>= f).Asks R := by
  refine Program.Asks.bind hx fun answer => ?_
  cases answer with
  | ok a => exact hf a
  | error f => exact trivial

theorem Asks.during (hx : x.Asks R) (doing : String) : (Operation.during doing x).Asks R := by
  refine Program.Asks.bind hx fun answer => ?_
  cases answer <;> exact trivial

theorem Asks.outcome (hx : x.Asks R) : x.outcome.Asks R :=
  Program.Asks.bind hx fun _ => trivial

end Operation

namespace Client

variable (c : Client) (operation path : String) {r : Request} {R : Request → Prop}

theorem attempts_asks (hr : R r) (waits : List Nat) (n : Nat) :
    (c.attempts operation path r waits n).Asks R := by
  induction waits generalizing n with
  | nil =>
    refine ⟨hr, fun answer => ?_⟩
    cases answer <;> exact trivial
  | cons wait waits ih =>
    refine ⟨hr, fun answer => ?_⟩
    cases answer with
    | ok response => exact trivial
    | error cause =>
      dsimp only
      split
      · exact trivial
      · exact ih (n + 1)

theorem request_asks (hr : R r) : (c.request operation path r).Asks R := by
  rw [Operation.Asks, request, ExceptT.run_mk]
  cases c.retry.delays with
  | error reason => exact trivial
  | ok waits => exact c.attempts_asks operation path hr waits 1

end Client

/-- **What all requests of an operation keep of a store, the operation keeps, whether they are
answered or not.** -/
theorem Wire.exec_keep {α : Type} {R : Request → Prop} {P : Store → Prop}
    (step : ∀ (s : Store) (now : Nat) (r : Request), R r → P s → P (s.serve now r).1)
    {x : Operation α} (hx : x.Asks R) {w : Wire} (hw : P w.store) : P (w.exec x.run).2.store := by
  refine Program.Asks.keep (P := fun w : Wire => P w.store) (fun w r hr hw => ?_) hx hw []
  rcases w.store_serve r with hkept | ⟨now, hserved⟩
  · rwa [hkept]
  · rw [hserved]
    exact step w.store now r hr hw

/-! ## Success -/

section Success

variable {σ α β : Type} {serve : σ → Request → σ × Except RequestFailure Response}
variable {s s' : σ} {t : Tally}

theorem Program.run_bind (x : Program α) (f : α → Program β) (s : σ) (t : Tally) :
    (x.bind f).run serve s t =
      (f (x.run serve s t).1).run serve (x.run serve s t).2.1 (x.run serve s t).2.2 := by
  induction x generalizing s t with
  | done a => rfl
  | ask r timeout next ih => exact ih _ _ _
  | sleep millis next ih => exact ih s t
  | count c next ih => exact ih s (t.add c)

theorem Operation.run_of_bind {x : Operation α} {f : α → Operation β} {b : β}
    (h : ((x >>= f).run.run serve s t).1 = .ok b) : ∃ a, (x.run.run serve s t).1 = .ok a ∧
      (x >>= f).run.run serve s t =
        (f a).run.run serve (x.run.run serve s t).2.1 (x.run.run serve s t).2.2 := by
  have hbind : (x >>= f).run.run serve s t = (ExceptT.bindCont f (x.run.run serve s t).1).run serve
      (x.run.run serve s t).2.1 (x.run.run serve s t).2.2 := Program.run_bind _ _ _ _
  rw [hbind] at h ⊢
  cases hx : (x.run.run serve s t).1 with
  | error f =>
    rw [hx] at h
    cases h
  | ok a => exact ⟨a, rfl, rfl⟩

theorem Operation.run_of_during {doing : String} {x : Operation α} {a : α}
    (h : ((Operation.during doing x).run.run serve s t).1 = .ok a) :
    (x.run.run serve s t).1 = .ok a ∧
      ((Operation.during doing x).run.run serve s t).2.1 = (x.run.run serve s t).2.1 := by
  have hbind : (Operation.during doing x).run.run serve s t = _ := Program.run_bind x.run _ s t
  rw [hbind] at h ⊢
  cases hx : (x.run.run serve s t).1 with
  | error f =>
    rw [hx] at h
    cases h
  | ok a' =>
    rw [hx] at h
    cases h
    exact ⟨rfl, rfl⟩

namespace Client

variable (c : Client) (operation path : String) {r : Request} {response : Response} {P : σ → Prop}

/-- The request that succeeds is served where the failures of those before it have led to. -/
theorem attempts_served (failed : ∀ s f, P s → (serve s r).2 = .error f → P (serve s r).1)
    (waits : List Nat) (n : Nat) (hs : P s)
    (h : ((c.attempts operation path r waits n).run serve s t).1 = .ok response) :
    ∃ s', P s' ∧
      serve s' r = (((c.attempts operation path r waits n).run serve s t).2.1, .ok response) := by
  induction waits generalizing n s t with
  | nil =>
    simp only [attempts, Program.run] at h ⊢
    cases hanswer : (serve s r).2 with
    | error cause =>
      rw [hanswer] at h
      cases h
    | ok answer =>
      rw [hanswer] at h
      cases h
      exact ⟨s, hs, Prod.ext rfl hanswer⟩
  | cons wait waits ih =>
    simp only [attempts, Program.run] at h ⊢
    cases hanswer : (serve s r).2 with
    | error cause =>
      rw [hanswer] at h
      dsimp only at h ⊢
      by_cases habsent : cause.kind = .notFound
      · rw [if_pos habsent] at h
        cases h
      · rw [if_neg habsent] at h ⊢
        exact ih (n + 1) (failed s cause hs hanswer) h
    | ok answer =>
      rw [hanswer] at h
      cases h
      exact ⟨s, hs, Prod.ext rfl hanswer⟩

/-- **A request that succeeds is served in the end, after failures that keep what they keep.** -/
theorem request_served (failed : ∀ s f, P s → (serve s r).2 = .error f → P (serve s r).1) (hs : P s)
    (h : ((c.request operation path r).run.run serve s t).1 = .ok response) :
    ∃ s', P s' ∧
      serve s' r = (((c.request operation path r).run.run serve s t).2.1, .ok response) := by
  unfold request at h ⊢
  rw [ExceptT.run_mk] at h ⊢
  cases hdelays : c.retry.delays with
  | error reason =>
    rw [hdelays] at h
    cases h
  | ok waits =>
    rw [hdelays] at h
    exact c.attempts_served operation path failed waits 1 hs h

end Client

end Success

end ClusterRegistry
