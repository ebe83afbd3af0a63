import ClusterRegistry.Proofs.Client.Request
import ClusterRegistry.Proofs.Client.Wire

/-!
# Many clients of one store

Each client runs its own program. In a turn one of them goes on until the store has answered its
next request, so that the requests of different clients come in any order, with any time between.

* `Program.next?`, `Operation.Sends`: the next request of a program, and how the program goes on;
* `Client.request_sends`, `Client.get_sends`: what a client sends first;
* `Program.Follows`: a program that asks by a rule, which may look at what it has achieved so far;
* `Crowd`, `Crowd.Turn`, `Crowd.step`, `Crowd.run`: one client that reads and others that write;
* `Crowd.Conduct`, `Crowd.Keeps`, **`Crowd.Keeps.run`**: what holds in every order of turns.
-/

namespace ClusterRegistry

/-! ## The next request -/

namespace Program

variable {α β : Type}

/-- The next request of a program, and the program that goes on from the answer. -/
def next? : Program α → Option (Request × (Except RequestFailure Response → Program α))
  | .done _ => none
  | .ask r _ next => some (r, next)
  | .sleep _ next => next.next?
  | .count _ next => next.next?

theorem next?_bind {x : Program α} {r : Request} {next : Except RequestFailure Response → Program α}
    (h : x.next? = some (r, next)) (f : α → Program β) :
    (x.bind f).next? = some (r, fun answer => (next answer).bind f) := by
  induction x with
  | done a => cases h
  | ask r' timeout next' ih =>
    cases h
    rfl
  | sleep millis rest ih => exact ih h
  | count c rest ih => exact ih h

end Program

namespace Operation

variable {α β : Type} {x : Operation α} {r : Request} {onward : Response → Operation α}

/-- The operation sends a request, and goes on like this once it is answered. -/
def Sends (x : Operation α) (r : Request) (onward : Response → Operation α) : Prop :=
  ∃ next, x.run.next? = some (r, next) ∧ ∀ response, next (.ok response) = (onward response).run

theorem Sends.bind (h : x.Sends r onward) (f : α → Operation β) :
    (x >>= f).Sends r fun response => onward response >>= f := by
  obtain ⟨next, hnext, honward⟩ := h
  refine ⟨_, Program.next?_bind hnext _, fun response => ?_⟩
  exact congrArg (Program.bind · (ExceptT.bindCont f)) (honward response)

theorem Sends.during (h : x.Sends r onward) (doing : String) :
    (Operation.during doing x).Sends r fun response =>
      Operation.during doing (onward response) := by
  obtain ⟨next, hnext, honward⟩ := h
  refine ⟨_, Program.next?_bind hnext _, fun response => ?_⟩
  exact congrArg (Program.bind · _) (honward response)

theorem Sends.outcome (h : x.Sends r onward) :
    x.outcome.Sends r fun response => (onward response).outcome := by
  obtain ⟨next, hnext, honward⟩ := h
  refine ⟨_, Program.next?_bind hnext _, fun response => ?_⟩
  exact congrArg (Program.bind · _) (honward response)

end Operation

namespace Client

variable (c : Client)

theorem next?_attempts (operation path : String) (r : Request) (waits : List Nat) (n : Nat) :
    ∃ next, (c.attempts operation path r waits n).next? = some (r, next) ∧
      ∀ response, next (.ok response) = .done (.ok response) := by
  cases waits with
  | nil => exact ⟨_, rfl, fun _ => rfl⟩
  | cons wait waits => exact ⟨_, rfl, fun _ => rfl⟩

theorem request_sends (usable : c.retry.fault? = none) (operation path : String) (r : Request) :
    (c.request operation path r).Sends r pure := by
  have hdelays := c.delays_eq
  rw [usable] at hdelays
  obtain ⟨next, hnext, hdone⟩ :=
    c.next?_attempts operation path r _ 1
  refine ⟨next, ?_, hdone⟩
  rw [request, ExceptT.run_mk, hdelays]
  exact hnext

theorem get_sends (usable : c.retry.fault? = none) (path : String) :
    (c.get path).Sends (.get path {}) fun response => pure response.node.valueText :=
  (c.request_sends usable "get" path (.get path {})).bind _

end Client

/-! ## Rules -/

namespace Program

variable {α β : Type} {rule : List Request → Request → Prop}

/-- Whatever the answers are, each request of the program is allowed by a rule that knows which
requests of the program have been answered, the last one first. In the end something holds of these
and of the result. -/
def Follows (rule : List Request → Request → Prop) (post : List Request → α → Prop) :
    Program α → List Request → Prop
  | .done a, known => post known a
  | .ask r _ next, known => rule known r ∧
      (∀ response, (next (.ok response)).Follows rule post (r :: known)) ∧
      ∀ failure, (next (.error failure)).Follows rule post known
  | .sleep _ next, known => next.Follows rule post known
  | .count _ next, known => next.Follows rule post known

theorem Follows.bind {post : List Request → α → Prop} {post' : List Request → β → Prop}
    {x : Program α} {f : α → Program β} {known : List Request} (hx : x.Follows rule post known)
    (hf : ∀ known a, post known a → (f a).Follows rule post' known) :
    (x.bind f).Follows rule post' known := by
  induction x generalizing known with
  | done a => exact hf known a hx
  | ask r timeout next ih =>
    exact ⟨hx.1, fun response => ih _ (hx.2.1 response), fun failure => ih _ (hx.2.2 failure)⟩
  | sleep millis next ih => exact ih hx
  | count c next ih => exact ih hx

theorem Follows.next {post : List Request → α → Prop} {x : Program α} {known : List Request}
    {r : Request} {next : Except RequestFailure Response → Program α}
    (hx : x.Follows rule post known) (h : x.next? = some (r, next)) :
    rule known r ∧ (∀ response, (next (.ok response)).Follows rule post (r :: known)) ∧
      ∀ failure, (next (.error failure)).Follows rule post known := by
  induction x with
  | done a => cases h
  | ask r' timeout next' ih =>
    cases h
    exact hx
  | sleep millis rest ih => exact ih hx h
  | count c rest ih => exact ih hx h

theorem Asks.next {R : Request → Prop} {x : Program α} {r : Request}
    {next : Except RequestFailure Response → Program α} (hx : x.Asks R)
    (h : x.next? = some (r, next)) : R r ∧ ∀ answer, (next answer).Asks R := by
  induction x with
  | done a => cases h
  | ask r' timeout next' ih =>
    cases h
    exact hx
  | sleep millis rest ih => exact ih hx h
  | count c rest ih => exact ih hx h

end Program

section Follows

variable {α β : Type} {rule : List Request → Request → Prop}

/-- A request has been accepted if its outcome is no failure. -/
def Taken (r : Request) (known known' : List Request) : Except Failure α → Prop
  | .ok _ => known' = r :: known
  | .error _ => known' = known

theorem Operation.follows_bind {post : List Request → Except Failure α → Prop}
    {post' : List Request → Except Failure β → Prop} {x : Operation α} {f : α → Operation β}
    {known : List Request} (hx : x.run.Follows rule post known)
    (hf : ∀ known a, post known (.ok a) → (f a).run.Follows rule post' known)
    (herror : ∀ known e, post known (.error e) → post' known (.error e)) :
    (x >>= f).run.Follows rule post' known := by
  refine Program.Follows.bind hx fun known answer h => ?_
  cases answer with
  | ok a => exact hf known a h
  | error e => exact herror known e h

theorem Operation.follows_during {post : List Request → Except Failure α → Prop} {x : Operation α}
    {known : List Request} (hx : x.run.Follows rule post known)
    (herror : ∀ known e e', post known (.error e) → post known (.error e')) (doing : String) :
    (Operation.during doing x).run.Follows rule post known := by
  refine Program.Follows.bind hx fun known answer h => ?_
  cases answer with
  | ok a => exact h
  | error e => exact herror known e _ h

theorem Operation.follows_outcome {post : List Request → Except Failure α → Prop} {x : Operation α}
    {known : List Request} (hx : x.run.Follows rule post known) :
    x.outcome.run.Follows rule (fun known' answer => match answer with
      | .ok result => post known' result
      | .error _ => False) known :=
  Program.Follows.bind hx fun _ _ h => h

namespace Client

variable (c : Client) (operation path : String) {r : Request} {known : List Request}

theorem attempts_follows (hr : rule known r) (waits : List Nat) (n : Nat) :
    (c.attempts operation path r waits n).Follows rule (Taken r known) known := by
  induction waits generalizing n with
  | nil => exact ⟨hr, fun _ => rfl, fun _ => rfl⟩
  | cons wait waits ih =>
    refine ⟨hr, fun _ => rfl, fun failure => ?_⟩
    dsimp only
    split
    · exact rfl
    · exact ih (n + 1)

theorem request_follows (hr : rule known r) :
    (c.request operation path r).run.Follows rule (Taken r known) known := by
  rw [request, ExceptT.run_mk]
  cases c.retry.delays with
  | error reason => exact rfl
  | ok waits => exact c.attempts_follows operation path hr waits 1

end Client

end Follows

/-! ## What was written -/

/-- The value that a request writes at a key. -/
def Request.written? (key : Key) : Request → Option String
  | .set path value _ => if Key.ofPath path = key then some value else none
  | _ => none

/-- The value that was last written at a key. -/
def lastWritten (log : List Request) (key : Key) : Option String :=
  log.reverse.findSome? (·.written? key)

theorem lastWritten_append (log : List Request) (r : Request) (key : Key) :
    lastWritten (log ++ [r]) key = (r.written? key).or (lastWritten log key) := by
  rw [lastWritten, List.reverse_append, List.reverse_singleton, List.singleton_append,
    List.findSome?_cons]
  cases r.written? key <;> rfl

/-! ## Turns -/

/-- A store at a time, with a client that reads and others that write. What the reader has asked and
what the store has accepted from the others is remembered. -/
structure Crowd (α β : Type) where
  store : Store
  now : Nat
  reader : Program α
  writers : List (Program β)
  asked : List Request := []
  accepted : List Request := []

/-- What may happen next. A client whose program is over lets its turn go by. -/
inductive Crowd.Turn
  | read
  | write (i : Nat)
  | pass (millis : Nat)
deriving DecidableEq

namespace Crowd

variable {α β : Type}

/-- The next thing happens. -/
def step (c : Crowd α β) : Turn → Crowd α β
  | .read =>
    match c.reader.next? with
    | none => c
    | some (r, next) =>
      let (store, answer) := c.store.serve c.now r
      { c with store := store, reader := next (answer.mapError .refused), asked := c.asked ++ [r] }
  | .write i =>
    match c.writers[i]?.bind Program.next? with
    | none => c
    | some (r, next) =>
      let (store, answer) := c.store.serve c.now r
      { c with
        store := store
        writers := c.writers.set i (next (answer.mapError .refused))
        accepted := if answer.isOk then c.accepted ++ [r] else c.accepted }
  | .pass millis => { c with now := c.now + millis }

/-- Many things happen. -/
def run (c : Crowd α β) (turns : List Turn) : Crowd α β := turns.foldl step c

theorem run_append (c : Crowd α β) (turns turns' : List Turn) :
    c.run (turns ++ turns') = (c.run turns).run turns' := List.foldl_append

theorem run_reader (c : Crowd α β) {turns : List Turn} (h : Turn.read ∉ turns) :
    (c.run turns).reader = c.reader ∧ (c.run turns).asked = c.asked := by
  induction turns generalizing c with
  | nil => exact ⟨rfl, rfl⟩
  | cons t rest ih =>
    have hstep : (c.step t).reader = c.reader ∧ (c.step t).asked = c.asked := by
      cases t with
      | read => exact absurd List.mem_cons_self h
      | pass millis => exact ⟨rfl, rfl⟩
      | write i =>
        unfold step
        dsimp only
        split <;> exact ⟨rfl, rfl⟩
    obtain ⟨hreader, hasked⟩ := ih (c.step t) fun hmem => h (List.mem_cons_of_mem _ hmem)
    exact ⟨hreader.trans hstep.1, hasked.trans hstep.2⟩

theorem run_done (c : Crowd α β) {a : α} (h : c.reader = .done a) (turns : List Turn) :
    (c.run turns).reader = .done a ∧ (c.run turns).asked = c.asked := by
  induction turns generalizing c with
  | nil => exact ⟨h, rfl⟩
  | cons t rest ih =>
    have hstep : (c.step t).reader = c.reader ∧ (c.step t).asked = c.asked := by
      cases t with
      | read =>
        have hnone : c.reader.next? = none := by
          rw [h]
          rfl
        unfold step
        dsimp only
        rw [hnone]
        exact ⟨rfl, rfl⟩
      | pass millis => exact ⟨rfl, rfl⟩
      | write i =>
        unfold step
        dsimp only
        split <;> exact ⟨rfl, rfl⟩
    obtain ⟨hreader, hasked⟩ := ih (c.step t) (hstep.1.trans h)
    exact ⟨hreader, hasked.trans hstep.2⟩

theorem step_read {γ : Type} (c : Crowd (Except Failure γ) β) {x : Operation γ} {r : Request}
    {onward : Response → Operation γ} {s : Store} {response : Response} (hreader : c.reader = x.run)
    (hsends : x.Sends r onward) (hserve : c.store.serve c.now r = (s, .ok response)) :
    c.step .read =
      { c with store := s, reader := (onward response).run, asked := c.asked ++ [r] } := by
  obtain ⟨next, hnext, honward⟩ := hsends
  rw [← hreader] at hnext
  unfold step
  dsimp only
  rw [hnext]
  dsimp only
  rw [hserve, ← honward]
  rfl

/-! ## What holds in every order of turns -/

/-- What reads and allowed writes keep. Of an accepted write, `Stands` says that it is still in
place; `P` holds of the store and of all writes so far. -/
structure Conduct (R : Request → Prop) (rule : List Request → Request → Prop)
    (Stands : Request → Store → Prop) (P : Store → List Request → Prop) : Prop where
  read : ∀ {s r log} now, R r → P s log →
    P (s.serve now r).1 log ∧ ∀ a, Stands a s → Stands a (s.serve now r).1
  accept : ∀ {s now r known log s' response}, rule known r → (∀ a ∈ known, Stands a s) → P s log →
    s.serve now r = (s', .ok response) →
    P s' (log ++ [r]) ∧ Stands r s' ∧ ∀ a, Stands a s → Stands a s'
  refuse : ∀ {s now r known log s' refusal}, rule known r → P s log →
    s.serve now r = (s', .error refusal) → P s' log ∧ ∀ a, Stands a s → Stands a s'

/-- The reader asks what it may, the writers follow the rule, and what has been accepted from them
is in place. -/
structure Keeps (R : Request → Prop) (rule : List Request → Request → Prop)
    (Stands : Request → Store → Prop) (P : Store → List Request → Prop) (c : Crowd α β) :
    Prop where
  store : P c.store c.accepted
  reader : c.reader.Asks R
  writers : ∀ x ∈ c.writers, ∃ known, x.Follows rule (fun _ _ => True) known ∧
    ∀ a ∈ known, Stands a c.store

section Keeps

variable {R : Request → Prop} {rule : List Request → Request → Prop}
  {Stands : Request → Store → Prop} {P : Store → List Request → Prop} {c : Crowd α β}

theorem Keeps.mono {P' : Store → List Request → Prop} (h : c.Keeps R rule Stands P)
    (hP : P' c.store c.accepted) : c.Keeps R rule Stands P' := ⟨hP, h.reader, h.writers⟩

theorem Keeps.writers_set (h : c.Keeps R rule Stands P) {i : Nat} {x : Program β}
    {known : List Request} {s : Store} (hfollows : x.Follows rule (fun _ _ => True) known)
    (hknown : ∀ a ∈ known, Stands a s) (hstands : ∀ a, Stands a c.store → Stands a s) :
    ∀ y ∈ c.writers.set i x, ∃ known, y.Follows rule (fun _ _ => True) known ∧
      ∀ a ∈ known, Stands a s := by
  intro y hy
  rcases List.mem_or_eq_of_mem_set hy with hy | rfl
  · obtain ⟨known, hfollows, hknown⟩ := h.writers y hy
    exact ⟨known, hfollows, fun a ha => hstands a (hknown a ha)⟩
  · exact ⟨known, hfollows, hknown⟩

/-- **What reads and allowed writes keep, one turn keeps.** -/
theorem Keeps.step (conduct : Conduct R rule Stands P) (h : c.Keeps R rule Stands P) (t : Turn) :
    (c.step t).Keeps R rule Stands P := by
  cases t with
  | pass millis => exact ⟨h.store, h.reader, h.writers⟩
  | read =>
    unfold Crowd.step
    dsimp only
    cases hnext : c.reader.next? with
    | none => exact h
    | some sent =>
      obtain ⟨r, next⟩ := sent
      obtain ⟨hr, hrest⟩ := h.reader.next hnext
      obtain ⟨hstore, hstands⟩ := conduct.read c.now hr h.store
      refine ⟨hstore, hrest _, fun x hx => ?_⟩
      obtain ⟨known, hfollows, hknown⟩ := h.writers x hx
      exact ⟨known, hfollows, fun a ha => hstands a (hknown a ha)⟩
  | write i =>
    unfold Crowd.step
    dsimp only
    cases hnext : c.writers[i]?.bind Program.next? with
    | none => exact h
    | some sent =>
      obtain ⟨r, next⟩ := sent
      obtain ⟨x, hx, hsent⟩ := Option.bind_eq_some_iff.mp hnext
      obtain ⟨known, hfollows, hknown⟩ := h.writers x (List.mem_of_getElem? hx)
      obtain ⟨hr, hok, herror⟩ := hfollows.next hsent
      dsimp only
      rcases hserve : c.store.serve c.now r with ⟨s', answer⟩
      cases answer with
      | ok response =>
        obtain ⟨hstore, hnew, hstands⟩ := conduct.accept hr hknown h.store hserve
        refine ⟨hstore, h.reader, h.writers_set (hok response) (fun a ha => ?_) hstands⟩
        rcases List.mem_cons.mp ha with rfl | ha
        · exact hnew
        · exact hstands a (hknown a ha)
      | error refusal =>
        obtain ⟨hstore, hstands⟩ := conduct.refuse hr h.store hserve
        exact ⟨hstore, h.reader,
          h.writers_set (herror _) (fun a ha => hstands a (hknown a ha)) hstands⟩

/-- **What reads and allowed writes keep holds in every order of turns.** -/
theorem Keeps.run (conduct : Conduct R rule Stands P) (h : c.Keeps R rule Stands P)
    (turns : List Turn) : (c.run turns).Keeps R rule Stands P := by
  induction turns generalizing c with
  | nil => exact h
  | cons t rest ih => exact ih (h.step conduct t)

end Keeps

end Crowd

end ClusterRegistry
