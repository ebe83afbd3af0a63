import ClusterRegistry.Proofs.Client.Attempts
import ClusterRegistry.Simulation.World

/-!
# Programs in the world

In the world time passes while a program waits, and subscriptions go about their business. They
count nothing: what is counted and what comes out is up to the program and its arrivals.

* `World.sleep_tally`, `World.request_tally`: nothing is counted on the side;
* **`World.run_trace`**: a run in the world is a trace.
-/

namespace ClusterRegistry

namespace World

variable (w : World) (t : Task)

/-! ## Tasks -/

theorem call_tally (path : String) (options : WaitOptions) :
    (w.call t path options).1.tally = w.tally := by
  unfold call
  dsimp only
  split
  · split <;> rfl
  · split <;> rfl
  · rfl

theorem advance_tally : (w.advance t).1.tally = w.tally := by
  unfold advance
  split
  · rfl
  · rfl
  · split <;> rfl
  · split
    · split
      · exact call_tally ..
      · rfl
    · rfl

theorem runTask_tally (fuel : Nat) : (w.runTask t fuel).1.tally = w.tally := by
  induction fuel generalizing w t with
  | zero => rfl
  | succ fuel ih =>
    rw [runTask]
    split
    · rw [ih, advance_tally]
    · rfl

theorem settleWithin_tally (turns : Nat) : (w.settleWithin turns).tally = w.tally := by
  induction turns generalizing w with
  | zero => rfl
  | succ turns ih =>
    rw [settleWithin]
    dsimp only
    split
    · rfl
    · rw [ih]
      exact runTask_tally ..

/-! ## The main program -/

theorem sleepUntil_tally (due stops : Nat) : (w.sleepUntil due stops).tally = w.tally := by
  induction stops generalizing w with
  | zero => rfl
  | succ stops ih =>
    have hsettle : w.settle.tally = w.tally := settleWithin_tally ..
    rw [sleepUntil]
    split
    · exact hsettle
    · split
      · rw [ih]
        exact hsettle
      · exact hsettle

theorem sleep_tally (millis : Nat) : (w.sleep millis).tally = w.tally := by
  unfold sleep
  split
  · rfl
  · exact sleepUntil_tally ..

theorem perform_tally (r : Request) : (w.perform r).1.tally = w.tally := by
  unfold perform
  split <;> rfl

theorem request_tally (r : Request) (timeout : Nat) :
    (w.request r timeout).1.tally = w.tally := by
  unfold request
  dsimp only
  split
  · split
    · exact sleep_tally ..
    · exact (perform_tally ..).trans (sleep_tally ..)
  · split <;> exact sleep_tally ..
  · split <;> exact (sleep_tally ..).trans (perform_tally ..)

/-- **A run in the world is the trace for some arrivals.** -/
theorem run_trace {α : Type} (x : Program α) : ∃ arrivals,
    (run x w).2 = (x.trace arrivals).1 ∧
      (run x w).1.tally = Deed.tally (x.trace arrivals).2 w.tally := by
  induction x generalizing w with
  | done a => exact ⟨fun _ => none, rfl, rfl⟩
  | ask r timeout next ih =>
    obtain ⟨arrivals, hresult, htally⟩ := ih (w.request r timeout).2 (w.request r timeout).1
    rw [request_tally] at htally
    exact ⟨Program.after (some (w.request r timeout).2) arrivals, hresult, htally⟩
  | sleep millis next ih =>
    obtain ⟨arrivals, hresult, htally⟩ := ih (w.sleep (Duration.slept millis))
    rw [sleep_tally] at htally
    exact ⟨arrivals, hresult, htally⟩
  | count c next ih => exact ih { w with tally := w.tally.add c }

end World

end ClusterRegistry
