import ClusterRegistry.Proofs.Store.Expiry

/-!
# The course of a store

A course is what happens to a store from the beginning: requests, waits and the passing of time,
in any order, by a clock that can tell every time. It keeps a log of all changes that were ever
recorded, also of those that the store has forgotten.

* `Step`, `Course`, `Course.step`, `Course.run`;
* `Store.Quiet`, **`Store.serve_quiet`**: a request that wakes nobody at most refreshes a lifetime;
* **`Course.step_edits`**: everything is a sequence of edits, and changes wake everyone;
* **`Course.run_keep`**: what all edits keep holds in every course.
-/

namespace ClusterRegistry

/-- Something that happens to a store. -/
inductive Step
  /-- A read, a write or a removal. -/
  | request (r : Request)
  /-- A new wait. -/
  | wait (path : String) (options : WaitOptions)
  /-- A parked wait that wakes up. -/
  | resume (w : Wait)
  /-- A look at the index. -/
  | look
  /-- Time goes by. -/
  | pass (millis : Nat)

/-- A store at a time, with all that it ever recorded, the oldest change first. -/
structure Course where
  now : Nat := 0
  store : Store := .empty
  log : List Change := []

namespace Course

/-- The next thing happens. -/
def step (c : Course) : Step → Course
  | .request r =>
    { c with store := (c.store.serve c.now r).1, log := c.log ++ c.store.changes c.now r }
  | .wait path options =>
    { c with
      store := (c.store.beginWait c.now path options).1, log := c.log ++ c.store.expiries c.now }
  | .resume w =>
    { c with store := (c.store.resumeWait c.now w).1, log := c.log ++ c.store.expiries c.now }
  | .look => { c with store := c.store.expire c.now, log := c.log ++ c.store.expiries c.now }
  | .pass millis => { c with now := c.now + millis }

/-- The course of a new store. -/
def run (steps : List Step) : Course := steps.foldl step {}

theorem run_append (steps : List Step) (st : Step) : run (steps ++ [st]) = (run steps).step st := by
  rw [run, List.foldl_append]
  rfl

end Course

/-! ## Accesses that only look -/

namespace Store

variable {s s' : Store} {now : Nat} {new : List Change}

@[simp] theorem await_store (s : Store) (now : Nat) (key : Key) (recursive : Bool) (after : Nat) :
    (s.await now key recursive after).1 = s.expire now := by
  unfold await
  dsimp only
  split <;> rfl

@[simp] theorem resumeWait_store (s : Store) (now : Nat) (w : Wait) :
    (s.resumeWait now w).1 = s.expire now := await_store _ _ _ _ _

@[simp] theorem beginWait_store (s : Store) (now : Nat) (path : String) (options : WaitOptions) :
    (s.beginWait now path options).1 = s.expire now := by
  unfold beginWait
  dsimp only
  rw [await_store, expire_expire]

/-! ## Indices and signals -/

theorem Edit.index {c : Option Change} (h : Edit now s c s') :
    s'.index = s.index + c.toList.length := by
  cases h with
  | signal => rfl
  | refresh => rfl
  | drop => exact drop_index _ _ _
  | put => exact put_index _ _ _ _

theorem Edits.index (h : Edits now s new s') : s'.index = s.index + new.length := by
  induction h with
  | refl => rfl
  | tail _ edit ih => rw [edit.index, ih, List.length_append, Nat.add_assoc]

theorem Edit.stamps {c : Change} (h : Edit now s (some c) s') :
    c.index = s.index + 1 ∧ c.node.modifiedIndex = c.index := by
  cases h with
  | drop => exact ⟨rfl, rfl⟩
  | put => exact ⟨rfl, rfl⟩

theorem Edits.numbered (h : Edits now s new s') :
    new.map (·.index) = List.range' (s.index + 1) new.length := by
  induction h with
  | refl => rfl
  | @tail _ _ new c before edit ih =>
    have hindex := before.index
    cases c with
    | none => rwa [Option.toList_none, List.append_nil]
    | some c =>
      rw [Option.toList_some, List.map_append, ih, List.map_singleton, edit.stamps.1, hindex,
        List.length_append, List.length_singleton, List.range'_concat, Nat.one_mul]
      congr 2
      omega

theorem Edits.index_lt {c : Change} (h : Edits now s new s') (hc : c ∈ new) :
    s.index < c.index := by
  have hmem := List.mem_map_of_mem (f := (·.index)) hc
  rw [h.numbered, List.mem_range'_1] at hmem
  omega

theorem expiries_eq_nil (h : s.expire now = s) : s.expiries now = [] := by
  have hindex := (expire_edits s now).index
  rw [h] at hindex
  exact List.eq_nil_of_length_eq_zero (by omega)

/-- The key whose lifetime a request refreshes, with its deadline from then on. -/
def refreshed? (s : Store) (now : Nat) : Request → Option (Key × Option Nat)
  | .set path value options =>
    match (s.serve now (.set path value options)).2 with
    | .ok _ => if options.refresh then some (.ofPath path, options.lifetime.map (now + ·)) else none
    | .error _ => none
  | _ => none

/-- What a request does that wakes nobody, by the lifetime that it refreshes. -/
inductive Quiet (s : Store) : Option (Key × Option Nat) → Store → Prop
  | unchanged : Quiet s none s
  | refreshed {key : Key} {e : Entry} (present : s.contents[key]? = some e)
      (deadline : Option Nat) : Quiet s (some (key, deadline))
        { s with contents := s.contents.insert key { e with deadline := deadline } }

theorem put_signals (key : Key) (prev : Option Entry) (value : String) (options : SetOptions) :
    (s.put now key prev value options).1.signals = s.signals + 1 :=
  congrArg (· + 1) (record_signals _ _)

theorem drop_signal_signals (action : Action) (key : Key) (e : Entry) :
    (s.drop now action key e).1.signal.signals = s.signals + 1 :=
  congrArg (· + 1) (drop_signals action key e)

theorem signals_le_serve (s : Store) (now : Nat) (r : Request) :
    s.signals ≤ (s.serve now r).1.signals := by
  have hexp := signals_le_expire s now
  have hr := perform_outcome (s.expire now) now r
  cases h : (s.expire now).perform now r with
  | error refusal => rwa [serve_of_error h]
  | ok answer =>
    rw [serve_of_ok h]
    rw [h] at hr
    refine Nat.le_trans hexp ?_
    cases hr with
    | shown => exact Nat.le_refl _
    | refreshed => exact Nat.le_refl _
    | put =>
      rw [put_signals]
      exact Nat.le_succ _
    | dropped =>
      rw [drop_signal_signals]
      exact Nat.le_succ _

/-- **A request that wakes nobody has done nothing but refresh a lifetime.** -/
theorem serve_quiet {r : Request} (hq : (s.serve now r).1.signals = s.signals) :
    s.expire now = s ∧ s.changes now r = [] ∧ s.Quiet (s.refreshed? now r) (s.serve now r).1 := by
  have hle := signals_le_expire s now
  have hr := perform_outcome (s.expire now) now r
  cases h : (s.expire now).perform now r with
  | error refusal =>
    have hserve := serve_of_error h
    have hnone : s.refreshed? now r = none := by
      cases r with
      | set path value options => rw [refreshed?, hserve]
      | _ => rfl
    rw [hserve] at hq ⊢
    have hself := expire_quiet hq
    refine ⟨hself, by rw [changes_of_error h, expiries_eq_nil hself], ?_⟩
    rw [hnone, hself]
    exact .unchanged
  | ok answer =>
    rw [h] at hr
    have hnew := changes_of_ok h
    have hserve := serve_of_ok h
    rw [hserve] at hq ⊢
    cases hr with
    | shown path options response =>
      have hself := expire_quiet hq
      rw [expiries_eq_nil hself, recorded?_self] at hnew
      refine ⟨hself, hnew, ?_⟩
      dsimp only
      rw [hself]
      exact .unchanged
    | @refreshed path value options e present asked =>
      have hself := expire_quiet hq
      have hsome : s.refreshed? now (.set path value options) =
          some (.ofPath path, options.lifetime.map (now + ·)) := by
        rw [refreshed?, hserve]
        exact if_pos asked
      rw [expiries_eq_nil hself, recorded?_refresh] at hnew
      refine ⟨hself, hnew, ?_⟩
      rw [hself] at present
      rw [hsome, hself]
      exact .refreshed present _
    | put =>
      rw [put_signals] at hq
      omega
    | dropped =>
      rw [drop_signal_signals] at hq
      omega

end Store

/-! ## Courses -/

namespace Course

variable (c : Course) (st : Step)

theorem step_wait (path : String) (options : WaitOptions) :
    c.step (.wait path options) = c.step .look := by
  unfold step
  dsimp only
  rw [Store.beginWait_store]

theorem step_resume (w : Wait) : c.step (.resume w) = c.step .look := by
  unfold step
  dsimp only
  rw [Store.resumeWait_store]

/-- **Everything that happens is a sequence of edits. The log takes note of what they record, and
whoever records a change wakes everyone.** -/
theorem step_edits : ∃ new, Store.Edits c.now c.store new (c.step st).store ∧
    (c.step st).log = c.log ++ new ∧ c.store.signals ≤ (c.step st).store.signals ∧
    ((c.step st).store.signals = c.store.signals → new = []) := by
  have hlook : ∃ new, Store.Edits c.now c.store new (c.step .look).store ∧
      (c.step .look).log = c.log ++ new ∧ c.store.signals ≤ (c.step .look).store.signals ∧
      ((c.step .look).store.signals = c.store.signals → new = []) :=
    ⟨_, Store.expire_edits _ _, rfl, Store.signals_le_expire _ _,
      fun h => Store.expiries_eq_nil (Store.expire_quiet h)⟩
  cases st with
  | request r =>
    exact ⟨_, Store.serve_edits _ _ _, rfl, Store.signals_le_serve _ _ _,
      fun h => (Store.serve_quiet h).2.1⟩
  | wait path options =>
    rw [step_wait]
    exact hlook
  | resume w =>
    rw [step_resume]
    exact hlook
  | look => exact hlook
  | pass millis => exact ⟨[], .refl _, (List.append_nil _).symm, Nat.le_refl _, fun _ => rfl⟩

theorem step_keep {P : Store → List Change → Prop}
    (edit : ∀ now s c s' log, Store.Edit now s c s' → P s log → P s' (log ++ c.toList))
    (h : P c.store c.log) : P (c.step st).store (c.step st).log := by
  obtain ⟨new, hedits, hlog, -⟩ := c.step_edits st
  rw [hlog]
  exact hedits.keep (edit c.now) c.log h

/-- **What each edit keeps holds in the course of every store.** -/
theorem run_keep {P : Store → List Change → Prop} (start : P .empty [])
    (edit : ∀ now s c s' log, Store.Edit now s c s' → P s log → P s' (log ++ c.toList))
    (steps : List Step) : P (run steps).store (run steps).log := by
  induction steps using List.reverseRecOn with
  | nil => exact start
  | append_singleton steps st ih =>
    rw [run_append]
    exact (run steps).step_keep st edit ih

end Course

end ClusterRegistry
