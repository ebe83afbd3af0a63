import ClusterRegistry.Proofs.Store.Order

/-!
# Who sets a deadline

Writes and refreshes give their key a deadline, and nothing else touches one.

* `Store.given?`: the deadline that a request gives its key;
* `Ledger`, `Ledger.run`: a course with the deadline that each key was last given;
* **`Ledger.run_agrees`**: these are the deadlines of the entries that are left.
-/

namespace ClusterRegistry

/-- The key that a request gives a deadline, by a write or a refresh that is not refused. -/
def Store.given? (s : Store) (now : Nat) : Request → Option (Key × Option Nat)
  | .set path value options =>
    match (s.serve now (.set path value options)).2 with
    | .ok _ => some (.ofPath path, options.lifetime.map (now + ·))
    | .error _ => none
  | _ => none

/-- A course with the deadline that each key was last given since it has been there. -/
structure Ledger where
  course : Course := {}
  given : Key → Option Nat := fun _ => none

namespace Ledger

/-- The next thing happens. What is not there any more is struck off. -/
def step (l : Ledger) (st : Step) : Ledger where
  course := l.course.step st
  given k :=
    if ((l.course.step st).store.expire (l.course.step st).now).contents[k]? = none then none
    else match st with
      | .request r =>
        match l.course.store.given? l.course.now r with
        | some (key, deadline) => if k = key then deadline else l.given k
        | none => l.given k
      | _ => l.given k

def run (steps : List Step) : Ledger := steps.foldl step {}

theorem run_append (steps : List Step) (st : Step) :
    run (steps ++ [st]) = (run steps).step st := by
  rw [run, List.foldl_append]
  rfl

theorem run_course (steps : List Step) : (run steps).course = Course.run steps := by
  induction steps using List.reverseRecOn with
  | nil => rfl
  | append_singleton steps st ih =>
    rw [run_append, Course.run_append, ← ih]
    rfl

/-- The ledger has the deadlines of all that is left, and of nothing else. -/
def Agrees (l : Ledger) : Prop :=
  ∀ k : Key, ((l.course.store.expire l.course.now).contents[k]?.bind (·.deadline)) = l.given k

variable {l : Ledger} {now : Nat} {s : Store}

theorem serve_deadline (r : Request) {k : Key} {e : Entry}
    (h : ((s.serve now r).1).contents[k]? = some e) :
    e.deadline = match s.given? now r with
      | some (key, deadline) => if k = key then deadline
          else (s.expire now).contents[k]?.bind (·.deadline)
      | none => (s.expire now).contents[k]?.bind (·.deadline) := by
  have hout := Store.perform_outcome (s.expire now) now r
  cases hr : (s.expire now).perform now r with
  | error refusal =>
    have hserve := Store.serve_of_error hr
    have hnone : s.given? now r = none := by
      cases r with
      | set path value options => rw [Store.given?, hserve]
      | _ => rfl
    rw [hserve] at h
    rw [hnone, h]
    rfl
  | ok answer =>
    rw [hr] at hout
    have hserve := Store.serve_of_ok hr
    rw [hserve] at h
    cases hout with
    | shown path options response =>
      rw [show s.given? now (.get path options) = none from rfl, h]
      rfl
    | @refreshed path value options x present asked =>
      have hgiven : s.given? now (.set path value options) =
          some (.ofPath path, options.lifetime.map (now + ·)) := by rw [Store.given?, hserve]
      rw [hgiven]
      replace h : ((s.expire now).contents.insert (.ofPath path) _)[k]? = some e := h
      rw [Key.lookup_insert] at h
      dsimp only
      split_ifs at h ⊢
      · obtain rfl := Option.some.inj h
        rfl
      · rw [h]
        rfl
    | @put path value options _ _ _ asked =>
      have hgiven : s.given? now (.set path value options) =
          some (.ofPath path, options.lifetime.map (now + ·)) := by rw [Store.given?, hserve]
      rw [hgiven]
      rw [Store.lookup_put] at h
      dsimp only
      split_ifs at h ⊢
      · obtain rfl := Option.some.inj h
        rfl
      · obtain rfl := Option.some.inj h
        cases (s.expire now).contents[k]? <;> rfl
      · rw [h]
        rfl
    | @dropped path options x present =>
      rw [show s.given? now (.delete path options) = none from rfl]
      replace h : ((s.expire now).drop now .delete (.ofPath path) x).1.contents[k]? = some e := h
      rw [Store.drop_contents, Contents.lookup_prune] at h
      split_ifs at h
      rw [h]
      rfl

theorem Agrees.step (h : l.Agrees) (st : Step) : (l.step st).Agrees := by
  intro k
  show ((l.course.step st).store.expire (l.course.step st).now).contents[k]?.bind (·.deadline) = _
  unfold Ledger.step
  dsimp only
  cases hk : ((l.course.step st).store.expire (l.course.step st).now).contents[k]? with
  | none => rw [if_pos rfl]; rfl
  | some e =>
    rw [if_neg nofun, Option.bind_some]
    have hmem := (Store.lookup_of_expire hk).1
    have hlook : (l.course.store.expire l.course.now).contents[k]? = some e →
        e.deadline = l.given k := by
      intro hmem
      rw [← h k, hmem]
      rfl
    cases st with
    | request r =>
      dsimp only
      rw [serve_deadline r hmem]
      cases l.course.store.given? l.course.now r with
      | none => exact h k
      | some p =>
        dsimp only
        split_ifs
        · rfl
        · exact h k
    | wait path options =>
      rw [Course.step_wait] at hmem
      exact hlook hmem
    | resume w =>
      rw [Course.step_resume] at hmem
      exact hlook hmem
    | look => exact hlook hmem
    | pass millis =>
      dsimp only
      rw [← h k]
      have hlater := Store.expire_contents_expire l.course.store
        (Nat.le_add_right l.course.now millis)
      replace hk : (l.course.store.expire (l.course.now + millis)).contents[k]? = some e := hk
      rw [← hlater] at hk
      rw [(Store.lookup_of_expire hk).1]
      rfl

/-- **Every deadline is the one that its key was last given.** -/
theorem run_agrees (steps : List Step) : (run steps).Agrees := by
  induction steps using List.reverseRecOn with
  | nil =>
    intro k
    have hnone : (Store.empty.expire 0).contents[k]? = none := by
      rw [Store.lookup_expire, show Store.empty.contents[k]? = none from
        Std.ExtTreeMap.getElem?_empty, ite_self]
    show ((Store.empty.expire 0).contents[k]?.bind (·.deadline)) = none
    rw [hnone]
    rfl
  | append_singleton steps st ih =>
    rw [run_append]
    exact ih.step st

end Ledger

end ClusterRegistry
