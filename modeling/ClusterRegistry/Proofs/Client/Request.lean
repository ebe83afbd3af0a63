import ClusterRegistry.Client
import ClusterRegistry.Proofs.Client.Link
import ClusterRegistry.Proofs.Store.Lasting

/-!
# Repeated requests

However often a request is lost and sent again, the store performs it once or not at all, and the
client knows which.

* `Link.serve_of_loss`, `Link.Served`, `Link.served`: what becomes of a single request;
* `Client.Sent`, **`Client.request_sent`**: what becomes of a request with its repetitions;
* **`Client.request_calm`**: the outcome when nothing gets lost.
-/

namespace ClusterRegistry

namespace Link

/-! ## A single request -/

/-- What becomes of a request to a store without lifetimes. -/
inductive Served (l : Link) (r : Request) : Link × Except RequestFailure Response → Prop
  | lost {l' : Link} {failure : RequestFailure} (kept : l'.store = l.store) (lost : l.Loses l') :
      Served l r (l', .error failure)
  | refused {l' : Link} {refusal : Refusal} (kept : l'.store = l.store)
      (refused : l.store.perform 0 r = .error refusal) : Served l r (l', .error (.refused refusal))
  | answered {l' : Link} {response : Response}
      (performed : l.store.perform 0 r = .ok (l'.store, response)) : Served l r (l', .ok response)

variable {l : Link} {r : Request}

theorem loses_serve {passage : Passage} {rest : List Passage} (h : l.passages = passage :: rest)
    (hlost : passage.failure ≠ none) : l.Loses (l.serve r).1 := by
  refine ⟨[passage], ?_, passage, List.mem_singleton_self passage, hlost⟩
  rw [serve_passages, h]
  rfl

theorem serve_of_arrival (h : l.store.Lasting) (lasting : r.IsLasting)
    (arrives : (l.passages.headD {}).failure = none) :
    ∃ now, l.serve r = match l.store.perform 0 r with
      | .ok (s, response) => (⟨s, now, l.passages.tail⟩, .ok response)
      | .error refusal => (⟨l.store, now, l.passages.tail⟩, .error (.refused refusal)) := by
  refine ⟨l.now + (l.passages.headD {}).pause, ?_⟩
  unfold serve
  dsimp only
  rw [arrives]
  dsimp only
  unfold Store.serve
  dsimp only
  rw [h.expire, h.perform_at lasting _ 0]
  cases l.store.perform 0 r <;> rfl

theorem serve_of_loss {failure : RequestFailure} (h : (l.passages.headD {}).failure = some failure) :
    l.serve r = (⟨l.store, l.now + (l.passages.headD {}).pause, l.passages.tail⟩, .error failure) ∧
      l.Loses (l.serve r).1 := by
  constructor
  · unfold serve
    dsimp only
    rw [h]
  · cases hp : l.passages with
    | nil =>
      rw [hp] at h
      cases h
    | cons passage rest =>
      rw [hp, List.headD_cons] at h
      exact loses_serve hp (h ▸ Option.some_ne_none failure)

theorem served (h : l.store.Lasting) (lasting : r.IsLasting) : l.Served r (l.serve r) := by
  cases hfail : (l.passages.headD {}).failure with
  | some failure =>
    obtain ⟨hserve, hloses⟩ := serve_of_loss hfail
    rw [hserve] at hloses ⊢
    exact .lost rfl hloses
  | none =>
    obtain ⟨now, hserve⟩ := serve_of_arrival h lasting hfail
    rw [hserve]
    cases hperform : l.store.perform 0 r with
    | error refusal => exact .refused rfl hperform
    | ok answer => exact .answered hperform

theorem serve_calm (h : l.store.Lasting) (lasting : r.IsLasting) (calm : l.IsCalm) :
    ∃ now, l.serve r = match l.store.perform 0 r with
      | .ok (s, response) => (⟨s, now, l.passages.tail⟩, .ok response)
      | .error refusal => (⟨l.store, now, l.passages.tail⟩, .error (.refused refusal)) := by
  refine serve_of_arrival h lasting ?_
  cases hp : l.passages with
  | nil => rfl
  | cons passage rest => exact calm passage (hp ▸ List.mem_cons_self)

end Link

namespace Client

variable (c : Client) (operation path : String) {r : Request} {l : Link}

/-! ## With repetitions -/

/-- What becomes of a request that is repeated as the policy of a client says. -/
inductive Sent (c : Client) (r : Request) (l : Link) : Except Failure Response × Link → Prop
  | done {l' : Link} {response : Response} (usable : c.retry.fault? = none)
      (performed : l.store.perform 0 r = .ok (l'.store, response)) : Sent c r l (.ok response, l')
  | failed {l' : Link} {f : Failure} (kept : l'.store = l.store)
      (why : c.retry.fault? ≠ none ∨ l.Loses l' ∨ ∃ refusal, l.store.perform 0 r = .error refusal) :
      Sent c r l (.error f, l')

/-- A first attempt without effect does not count. -/
theorem Sent.after {c : Client} {l' : Link} {res : Except Failure Response × Link}
    (h : Sent c r l' res) (kept : l'.store = l.store) (leads : l.LeadsTo l') : Sent c r l res := by
  cases h with
  | done usable performed =>
    rw [kept] at performed
    exact .done usable performed
  | failed kept' why =>
    rw [kept] at kept' why
    refine .failed kept' ?_
    rcases why with hfault | hloses | hrefused
    · exact .inl hfault
    · exact .inr (.inl (leads.trans_loses hloses))
    · exact .inr (.inr hrefused)

theorem attempts_sent (usable : c.retry.fault? = none) (waits : List Nat) (n : Nat)
    (h : l.store.Lasting) (lasting : r.IsLasting) :
    Sent c r l (l.exec (c.attempts operation path r waits n)) := by
  induction waits generalizing n l with
  | nil =>
    rw [attempts, Link.exec_count, Link.exec_ask]
    have hserved := l.served h lasting
    generalize l.serve r = answer at hserved ⊢
    cases hserved with
    | lost kept lost => exact .failed kept (.inr (.inl lost))
    | refused kept refused => exact .failed kept (.inr (.inr ⟨_, refused⟩))
    | answered performed => exact .done usable performed
  | cons wait waits ih =>
    rw [attempts, Link.exec_count, Link.exec_ask]
    have hserved := l.served h lasting
    have hleads := l.serve_leadsTo r
    generalize l.serve r = answer at hserved hleads ⊢
    have hagain : ∀ l' : Link, l'.store = l.store → l.LeadsTo l' →
        Sent c r l (l'.exec (.count (.retry operation)
          (.sleep wait (c.attempts operation path r waits (n + 1))))) := by
      intro l' kept leads
      rw [Link.exec_count, Link.exec_sleep]
      have hlasting : l'.store.Lasting := kept ▸ h
      exact (ih (n + 1) hlasting).after kept leads
    cases hserved with
    | lost kept lost =>
      dsimp only
      split
      · exact .failed kept (.inr (.inl lost))
      · exact hagain _ kept hleads
    | refused kept refused =>
      dsimp only
      split
      · exact .failed kept (.inr (.inr ⟨_, refused⟩))
      · exact hagain _ kept hleads
    | answered performed => exact .done usable performed

theorem perform_request (l : Link) : l.perform (c.request operation path r) =
    match c.retry.delays with
    | .error reason => (.error (.retryPolicy reason), l)
    | .ok waits => l.exec (c.attempts operation path r waits 1) := by
  unfold request Link.perform
  cases c.retry.delays <;> rfl

theorem delays_eq : c.retry.delays = match c.retry.fault? with
    | some reason => .error reason
    | none => .ok ((List.range c.retry.maxRetryCount.toNat).map c.retry.delay) := rfl

/-- **A request is performed once, and the client has the answer, or not at all, and the client has
a failure.** -/
theorem request_sent (h : l.store.Lasting) (lasting : r.IsLasting) :
    Sent c r l (l.perform (c.request operation path r)) := by
  rw [perform_request, delays_eq]
  cases hfault : c.retry.fault? with
  | some reason => exact .failed rfl (.inl (by simp [hfault]))
  | none => exact c.attempts_sent operation path hfault _ _ h lasting

/-! ## Without losses -/

/-- The outcome of a request, and the store after it, when the store answers at once. A refusal of
another kind than an absent key is tried again for nothing. -/
def settleWith (r : Request) (waits : List Nat) (n : Nat) (s : Store) :
    Except Failure Response × Store :=
  match s.perform 0 r with
  | .ok (s', response) => (.ok response, s')
  | .error refusal =>
    let attempts := if refusal.kind = .notFound then n else n + waits.length
    (.error (.request operation path attempts (.refused refusal)), s)

/-- The outcome of a request, and the store after it, when nothing gets lost. -/
def settle (r : Request) (s : Store) : Except Failure Response × Store :=
  match c.retry.delays with
  | .error reason => (.error (.retryPolicy reason), s)
  | .ok waits => settleWith operation path r waits 1 s

theorem attempts_calm (waits : List Nat) (n : Nat) (h : l.store.Lasting) (lasting : r.IsLasting)
    (calm : l.IsCalm) :
    (l.exec (c.attempts operation path r waits n)).1 =
        (settleWith operation path r waits n l.store).1 ∧
      (l.exec (c.attempts operation path r waits n)).2.store =
        (settleWith operation path r waits n l.store).2 := by
  induction waits generalizing n l with
  | nil =>
    obtain ⟨now, hserve⟩ := l.serve_calm h lasting calm
    rw [attempts, Link.exec_count, Link.exec_ask, hserve, settleWith]
    cases l.store.perform 0 r with
    | ok answer => exact ⟨rfl, rfl⟩
    | error refusal => simp [giveUp]
  | cons wait waits ih =>
    obtain ⟨now, hserve⟩ := l.serve_calm h lasting calm
    have hcalm : (l.serve r).1.IsCalm := calm.of_leadsTo (l.serve_leadsTo r)
    rw [attempts, Link.exec_count, Link.exec_ask, settleWith]
    cases hperform : l.store.perform 0 r with
    | ok answer =>
      rw [hserve, hperform]
      exact ⟨rfl, rfl⟩
    | error refusal =>
      rw [hperform] at hserve
      rw [hserve] at hcalm ⊢
      have hkind : (RequestFailure.refused refusal).kind = refusal.kind := rfl
      dsimp only
      rw [hkind]
      split
      · simp [giveUp]
      · rename_i hother
        rw [Link.exec_count, Link.exec_sleep]
        have hnext := ih (l := ⟨l.store, now, l.passages.tail⟩) (n + 1) h hcalm
        rw [settleWith] at hnext
        simp only [hperform, if_neg hother] at hnext
        rw [List.length_cons, Nat.add_comm waits.length, ← Nat.add_assoc]
        exact hnext

/-- **Without losses, the store alone decides on the outcome.** -/
theorem request_calm (h : l.store.Lasting) (lasting : r.IsLasting) (calm : l.IsCalm) :
    (l.perform (c.request operation path r)).1 = (c.settle operation path r l.store).1 ∧
      (l.perform (c.request operation path r)).2.store =
        (c.settle operation path r l.store).2 := by
  rw [perform_request, settle]
  cases c.retry.delays with
  | error reason => exact ⟨rfl, rfl⟩
  | ok waits => exact c.attempts_calm operation path waits 1 h lasting calm

section Usable

variable {c} {s s' : Store} {response : Response} {refusal : Refusal}

theorem settle_of_ok (usable : c.retry.fault? = none) (h : s.perform 0 r = .ok (s', response)) :
    c.settle operation path r s = (.ok response, s') := by
  simp only [settle, delays_eq, usable, settleWith, h]

theorem settle_of_error (usable : c.retry.fault? = none) (h : s.perform 0 r = .error refusal) :
    ∃ n, c.settle operation path r s =
      (.error (.request operation path n (.refused refusal)), s) := by
  simp only [settle, delays_eq, usable, settleWith, h]
  exact ⟨_, rfl⟩

theorem settle_of_fault {reason : String} (fault : c.retry.fault? = some reason) :
    c.settle operation path r s = (.error (.retryPolicy reason), s) := by
  simp only [settle, delays_eq, fault]

end Usable

end Client

end ClusterRegistry
