import ClusterRegistry.Store

/-!
# Waiting for changes

A wait asks for the first change of a key with an index above some other one. If there is none yet
it is parked, until the store signals a change or the first deadline of all entries comes.

* `Key.Covers`: the changes that a wait asks for;
* `Store.firstChange?`, `Store.answer?`: what the history has to say;
* `Wait`, `Store.await`, `Wait.IsWoken`: parking and waking up.
-/

namespace ClusterRegistry

/-- Whether a wait for a key asks for the change of another one. -/
def Key.Covers (watched : Key) (recursive : Bool) (changed : Key) : Prop :=
  changed = watched ∨ (recursive = true ∧ changed.IsWithin watched)

instance (watched : Key) (recursive : Bool) (changed : Key) :
    Decidable (watched.Covers recursive changed) := by unfold Key.Covers; infer_instance

namespace Store

/-- The first remembered change of a key with an index above `after`. -/
def firstChange? (s : Store) (key : Key) (recursive : Bool) (after : Nat) : Option Change :=
  s.history.find? fun c => after < c.index ∧ key.Covers recursive c.key

/-- The refusal of a wait whose changes may have been forgotten. -/
def cleared (s : Store) (after : Nat) : Refusal :=
  .ofCode Refusal.eventIndexCleared
    s!"the requested history has been cleared [{s.evictedUpTo + 1}/{after + 1}]" s.index

/-- The answer to a wait, if there is one already. -/
def answer? (s : Store) (key : Key) (recursive : Bool) (after : Nat) :
    Option (Except Refusal Response) :=
  if after < s.evictedUpTo then some (.error (s.cleared after))
  else (s.firstChange? key recursive after).map fun c => .ok c.response

end Store

/-- A parked wait: what it asks for, the deadline that will wake it, and the signals it has seen. -/
structure Wait where
  key : Key
  recursive : Bool
  after : Nat
  timer : Option Nat
  seen : Nat
deriving DecidableEq

/-- A wait wakes up at its deadline or when the store has signalled. -/
def Wait.IsWoken (w : Wait) (s : Store) (now : Nat) : Prop :=
  w.seen ≠ s.signals ∨ ∃ t ∈ w.timer, t ≤ now

instance (w : Wait) (s : Store) (now : Nat) : Decidable (w.IsWoken s now) := by
  unfold Wait.IsWoken
  cases w.timer with
  | none => exact decidable_of_iff (w.seen ≠ s.signals) (by simp)
  | some t => exact decidable_of_iff (w.seen ≠ s.signals ∨ t ≤ now) (by simp)

namespace Store

/-- Answers a wait or parks it. -/
def await (s : Store) (now : Nat) (key : Key) (recursive : Bool) (after : Nat) :
    Store × (Except Refusal Response ⊕ Wait) :=
  let s := s.expire now
  match s.answer? key recursive after with
  | some answer => (s, .inl answer)
  | none => (s, .inr ⟨key, recursive, after, s.contents.nextDeadline?, s.signals⟩)

/-- A new wait. One for the next change starts from the index of the store. -/
def beginWait (s : Store) (now : Nat) (path : String) (options : WaitOptions) :
    Store × (Except Refusal Response ⊕ Wait) :=
  let s := s.expire now
  s.await now (.ofPath path) options.recursive
    (if options.after = 0 then s.index else options.after)

/-- A parked wait that wakes up. -/
def resumeWait (s : Store) (now : Nat) (w : Wait) : Store × (Except Refusal Response ⊕ Wait) :=
  s.await now w.key w.recursive w.after

end Store

end ClusterRegistry
