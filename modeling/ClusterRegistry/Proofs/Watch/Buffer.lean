import Mathlib.Tactic.SplitIfs
import ClusterRegistry.Watch

/-!
# The buffer of a subscription

Events leave a subscription in the order in which they came, and none is lost on the way from the
loop to the reader, whether there is room for it at once or not.

* `Subscription.pending`: what the reader has not received yet;
* `Subscription.pending_offer`, **`Subscription.pending_receive`**: first in, first out;
* `Subscription.Continues`: what no operation changes, and the room that none exceeds;
* `Subscription.answered_failure`: a failure changes nothing but the phase.
-/

namespace ClusterRegistry

/-- The failure says that changes have been forgotten. -/
def RequestFailure.IsCleared : RequestFailure → Prop
  | .refused r => r.code = Refusal.eventIndexCleared
  | _ => False

instance (f : RequestFailure) : Decidable f.IsCleared := by
  cases f <;> unfold RequestFailure.IsCleared <;> infer_instance

namespace Subscription

variable {s s' s'' : Subscription} {e : Event} {now : Nat}

/-- The event that waits for room in the buffer. -/
def held (s : Subscription) : List Event :=
  match s.phase with
  | .holding e => [e]
  | _ => []

/-- What the reader has not received yet. -/
def pending (s : Subscription) : List Event := s.buffer ++ s.held

/-- What stays as it is, whatever the subscription does. -/
structure Continues (s s' : Subscription) : Prop where
  path : s'.path = s.path
  recursive : s'.recursive = s.recursive
  capacity : s'.capacity = s.capacity
  room : s.buffer.length ≤ s.capacity → s'.buffer.length ≤ s.capacity

theorem Continues.refl (s : Subscription) : s.Continues s := ⟨rfl, rfl, rfl, id⟩

theorem Continues.trans (h : s.Continues s') (h' : s'.Continues s'') : s.Continues s'' :=
  ⟨h'.path.trans h.path, h'.recursive.trans h.recursive, h'.capacity.trans h.capacity,
    fun hroom => h.capacity ▸ h'.room (h.capacity.symm ▸ h.room hroom)⟩

/-! ## The loop -/

theorem held_of_asking (h : s.phase = .asking) : s.held = [] := by
  rw [held, h]

theorem held_of_failed (s : Subscription) (kind : FailureKind) (until_ : Nat) :
    ({ s with phase := if kind = .permanent then .ended else .pausing until_ } :
      Subscription).held = [] := by
  unfold held
  dsimp only
  split_ifs <;> rfl

theorem offer_continues (s : Subscription) (e : Event) : s.Continues (s.offer e) := by
  unfold offer
  split_ifs with hroom
  · refine ⟨rfl, rfl, rfl, fun _ => ?_⟩
    show (s.buffer ++ [e]).length ≤ s.capacity
    rw [List.length_append, List.length_singleton]
    exact hroom
  · exact ⟨rfl, rfl, rfl, id⟩

theorem offer_cursor (s : Subscription) (e : Event) : (s.offer e).cursor = s.cursor := by
  unfold offer
  split_ifs <;> rfl

theorem pending_offer (h : s.phase = .asking) : (s.offer e).pending = s.pending ++ [e] := by
  have hheld := held_of_asking h
  unfold offer
  split_ifs
  · show (s.buffer ++ [e]) ++ [] = (s.buffer ++ s.held) ++ [e]
    rw [hheld, List.append_nil, List.append_nil]
  · show s.buffer ++ [e] = (s.buffer ++ s.held) ++ [e]
    rw [hheld, List.append_nil]

theorem answered_failure {f : RequestFailure} (h : ¬ f.IsCleared) :
    s.answered now (.error f) = { s with
      phase := if f.kind = .permanent then .ended else .pausing (now + s.retryDelay) } := by
  have heq : s.answered now (.error f) =
      if f.kind = .permanent then { s with phase := .ended }
      else { s with phase := .pausing (now + s.retryDelay) } := by
    cases f with
    | refused r => exact if_neg h
    | _ => rfl
  rw [heq]
  split_ifs <;> rfl

theorem answered_cleared {r : Refusal} (h : r.code = Refusal.eventIndexCleared) :
    s.answered now (.error (.refused r)) = { s with cursor := r.index, phase := .asking } := if_pos h

theorem answered_continues (s : Subscription) (now : Nat)
    (answer : Except RequestFailure Response) : s.Continues (s.answered now answer) := by
  cases answer with
  | ok r =>
    have hcursor : s.Continues { s with cursor := max r.node.modifiedIndex s.cursor } :=
      ⟨rfl, rfl, rfl, id⟩
    exact hcursor.trans (offer_continues _ (.ofResponse r))
  | error f =>
    by_cases hf : f.IsCleared
    · cases f with
      | refused r =>
        rw [answered_cleared hf]
        exact ⟨rfl, rfl, rfl, id⟩
      | _ => exact hf.elim
    · rw [answered_failure hf]
      exact ⟨rfl, rfl, rfl, id⟩

/-! ## The reader and time -/

theorem receive_continues (s : Subscription) : s.Continues s.receive.2 := by
  unfold receive
  split
  · exact .refl s
  · rename_i e rest hbuffer
    have hshorter : s.buffer.length ≤ s.capacity → rest.length + 1 ≤ s.capacity := by
      intro h
      rwa [hbuffer, List.length_cons] at h
    split
    · refine ⟨rfl, rfl, rfl, fun h => ?_⟩
      show (rest ++ [_]).length ≤ _
      rw [List.length_append]
      exact hshorter h
    · exact ⟨rfl, rfl, rfl, fun h => Nat.le_of_succ_le (hshorter h)⟩

/-- **The reader receives the events in order and leaves the others where they are.** -/
theorem pending_receive (s : Subscription) :
    s.receive.1.toList ++ s.receive.2.pending = s.pending := by
  unfold receive
  split
  · rfl
  · rename_i e rest hbuffer
    split
    · rename_i h hphase
      show [e] ++ ((rest ++ [h]) ++ []) = s.buffer ++ s.held
      rw [held, hphase, hbuffer, List.append_nil]
      rfl
    · show [e] ++ (rest ++ held { s with buffer := rest }) = s.buffer ++ s.held
      rw [hbuffer]
      rfl

theorem receive_eq (s : Subscription) :
    s.receive.2 = { s with buffer := s.receive.2.buffer, phase := s.receive.2.phase } := by
  unfold receive
  split
  · rfl
  · split <;> rfl

theorem receive_phase (s : Subscription) :
    s.receive.2.phase = s.phase ∨ (∃ e, s.phase = .holding e) ∧ s.receive.2.phase = .asking := by
  unfold receive
  split
  · exact Or.inl rfl
  · split
    · rename_i h hphase
      exact Or.inr ⟨⟨h, hphase⟩, rfl⟩
    · exact Or.inl rfl

theorem wake_eq (s : Subscription) (now : Nat) :
    s.wake now = s ∨ (∃ t, s.phase = .pausing t) ∧ s.wake now = { s with phase := .asking } := by
  unfold wake
  split
  · rename_i t hphase
    split_ifs
    · exact Or.inr ⟨⟨t, hphase⟩, rfl⟩
    · exact Or.inl rfl
  · exact Or.inl rfl

end Subscription

end ClusterRegistry
