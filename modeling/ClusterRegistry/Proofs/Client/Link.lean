import ClusterRegistry.Program
import ClusterRegistry.Store

/-!
# The way to the store

Requests may be slow and may get lost on their way to the store. A lost request has no effect, and
the program sees a failure in place of the answer.

* `Passage`, `Link`, `Link.serve`: what becomes of requests;
* `Link.exec`, `Link.perform`: a program or an operation from beginning to end;
* `Link.exec_bind`, `Link.perform_bind`, …: one after the other;
* `Link.Loses`, `Link.IsCalm`: a request was lost, or none will be.
-/

namespace ClusterRegistry

/-- What becomes of a request: how long it takes, and the failure if it gets lost. -/
structure Passage where
  pause : Nat := 0
  failure : Option RequestFailure := none

/-- A store at a time, with the passages of the next requests. Those after them arrive at once. -/
structure Link where
  store : Store := .empty
  now : Nat := 0
  passages : List Passage := []

namespace Link

/-- Sends a request. -/
def serve (l : Link) (r : Request) : Link × Except RequestFailure Response :=
  let passage := l.passages.headD {}
  let now := l.now + passage.pause
  match passage.failure with
  | some failure => ({ l with now := now, passages := l.passages.tail }, .error failure)
  | none =>
    let (store, answer) := l.store.serve now r
    ({ store := store, now := now, passages := l.passages.tail }, answer.mapError .refused)

/-- Runs a program. What it counts does not matter here. -/
def exec (l : Link) (x : Program α) : α × Link :=
  let (a, l', _) := x.run serve l []
  (a, l')

/-- Runs an operation. -/
def perform (l : Link) (x : Operation α) : Except Failure α × Link := l.exec x.run

/-- The same store, but no request gets lost any more. -/
def undisturbed (l : Link) (pauses : List Nat) : Link :=
  { l with passages := pauses.map fun millis => { pause := millis } }

/-! ## Programs -/

section Programs

variable {α β : Type} (l : Link)

theorem run_tally (x : Program α) (l : Link) (t t' : Tally) :
    (x.run serve l t).1 = (x.run serve l t').1 ∧
      (x.run serve l t).2.1 = (x.run serve l t').2.1 := by
  induction x generalizing l t t' with
  | done a => exact ⟨rfl, rfl⟩
  | ask r timeout next ih => exact ih _ _ _ _
  | sleep millis next ih => exact ih _ _ _
  | count c next ih => exact ih _ _ _

@[simp] theorem exec_done (a : α) : l.exec (.done a) = (a, l) := rfl

@[simp] theorem exec_ask (r : Request) (timeout : Nat)
    (next : Except RequestFailure Response → Program α) :
    l.exec (.ask r timeout next) = (l.serve r).1.exec (next (l.serve r).2) := rfl

@[simp] theorem exec_sleep (millis : Nat) (x : Program α) :
    l.exec (.sleep millis x) = l.exec x := rfl

@[simp] theorem exec_count (c : Count) (x : Program α) : l.exec (.count c x) = l.exec x :=
  Prod.ext (run_tally x l _ _).1 (run_tally x l _ _).2

theorem exec_bind (x : Program α) (f : α → Program β) :
    l.exec (x.bind f) = (l.exec x).2.exec (f (l.exec x).1) := by
  induction x generalizing l with
  | done a => rfl
  | ask r timeout next ih => exact ih _ _
  | sleep millis next ih => exact ih l
  | count c next ih =>
    rw [Program.bind, exec_count, exec_count]
    exact ih l

end Programs

/-! ## Operations -/

section Operations

variable {α β : Type} (l : Link)

theorem perform_bind (x : Operation α) (f : α → Operation β) :
    l.perform (x >>= f) = match (l.perform x).1 with
      | .ok a => (l.perform x).2.perform (f a)
      | .error e => (.error e, (l.perform x).2) := by
  change l.exec (x.run.bind (ExceptT.bindCont f)) = _
  rw [exec_bind]
  change (l.perform x).2.exec (ExceptT.bindCont f (l.perform x).1) = _
  cases (l.perform x).1 <;> rfl

theorem perform_during (doing : String) (x : Operation α) :
    l.perform (Operation.during doing x) =
      ((l.perform x).1.mapError (.context doing), (l.perform x).2) := by
  change l.exec (x.run.bind _) = _
  rw [exec_bind, perform]
  cases (l.exec x.run).1 <;> rfl

@[simp] theorem perform_outcome (x : Operation α) :
    l.perform x.outcome = (.ok (l.perform x).1, (l.perform x).2) := by
  change l.exec (x.run.bind _) = _
  rw [exec_bind]
  rfl

end Operations

/-! ## Lost requests -/

/-- On the way from one link to the next, a request was lost. -/
def Loses (l l' : Link) : Prop :=
  ∃ gone, l.passages = gone ++ l'.passages ∧ ∃ passage ∈ gone, passage.failure ≠ none

/-- No request gets lost any more. -/
def IsCalm (l : Link) : Prop := ∀ passage ∈ l.passages, passage.failure = none

/-- Some passages are over. -/
def LeadsTo (l l' : Link) : Prop := ∃ gone, l.passages = gone ++ l'.passages

variable {l l' l'' : Link}

theorem LeadsTo.trans_loses (h : l.LeadsTo l') (h' : l'.Loses l'') : l.Loses l'' := by
  obtain ⟨gone, hgone⟩ := h
  obtain ⟨gone', hgone', passage, hmem, hlost⟩ := h'
  refine ⟨gone ++ gone', by rw [hgone, hgone', List.append_assoc], passage, ?_, hlost⟩
  exact List.mem_append_right _ hmem

theorem LeadsTo.trans (h : l.LeadsTo l') (h' : l'.LeadsTo l'') : l.LeadsTo l'' := by
  obtain ⟨gone, hgone⟩ := h
  obtain ⟨gone', hgone'⟩ := h'
  exact ⟨gone ++ gone', by rw [hgone, hgone', List.append_assoc]⟩

theorem undisturbed_isCalm (l : Link) (pauses : List Nat) : (l.undisturbed pauses).IsCalm := by
  intro passage hmem
  obtain ⟨millis, -, rfl⟩ := List.mem_map.mp hmem
  rfl

theorem IsCalm.of_leadsTo (h : l.IsCalm) (h' : l.LeadsTo l') : l'.IsCalm := by
  obtain ⟨gone, hgone⟩ := h'
  intro passage hmem
  exact h passage (hgone ▸ List.mem_append_right gone hmem)

theorem serve_passages (l : Link) (r : Request) : (l.serve r).1.passages = l.passages.tail := by
  unfold serve
  dsimp only
  split <;> rfl

theorem serve_leadsTo (l : Link) (r : Request) : l.LeadsTo (l.serve r).1 := by
  refine ⟨l.passages.take 1, ?_⟩
  rw [serve_passages, ← List.drop_one, List.take_append_drop]

theorem exec_leadsTo {α : Type} (l : Link) (x : Program α) : l.LeadsTo (l.exec x).2 := by
  induction x generalizing l with
  | done a => exact ⟨[], rfl⟩
  | ask r timeout next ih => exact (l.serve_leadsTo r).trans (ih _ _)
  | sleep millis next ih => exact ih l
  | count c next ih =>
    rw [exec_count]
    exact ih l

theorem IsCalm.perform {α : Type} (h : l.IsCalm) (x : Operation α) : (l.perform x).2.IsCalm :=
  h.of_leadsTo (l.exec_leadsTo x.run)

end Link

end ClusterRegistry
