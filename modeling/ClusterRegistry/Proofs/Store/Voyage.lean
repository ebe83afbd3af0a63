import ClusterRegistry.Proofs.Store.History

/-!
# Writes that break off

The clock has a last moment. A write with a lifetime that ends after it breaks off once it has
begun: it takes an index under which nothing is recorded, and leaves the directories that were
missing above its key. A voyage is a course in which that can happen.

* `Store.brokenOff?_eq_some_iff`: which requests break off, and what they leave;
* `Voyage`, `Voyage.step`, `Voyage.run`: a course with the indices that are no change's;
* **`Voyage.step_edits`**, **`Voyage.run_keep`**: everything is a sequence of edits, after which a
  write may have begun;
* `Step.IsTimely`, **`Voyage.run_of_timely`**: without such lifetimes a voyage is a course;
* **`Voyage.run_wellOrdered`**, `Voyage.overlong_unrecorded`: what is left of the good order.
-/

namespace ClusterRegistry

/-- A course by a clock with a last moment, with the indices under which nothing was recorded. -/
structure Voyage extends Course where
  gaps : List Nat := []

namespace Voyage

/-- The next thing happens. If a request breaks off, an index that it has taken is a gap. -/
def step (last : Nat) (v : Voyage) : Step → Voyage
  | .request r =>
    match v.store.handle last v.now r with
    | (s, some _) => { v with store := s, log := v.log ++ v.store.changes v.now r }
    | (s, none) =>
      { v with
        store := s, log := v.log ++ v.store.expiries v.now
        gaps := if s.index = (v.store.expire v.now).index then v.gaps else v.gaps ++ [s.index] }
  | st => { v with toCourse := v.toCourse.step st }

/-- The voyage of a new store. -/
def run (last : Nat) (steps : List Step) : Voyage := steps.foldl (step last) {}

theorem run_append (last : Nat) (steps more : List Step) :
    run last (steps ++ more) = more.foldl (step last) (run last steps) := List.foldl_append

end Voyage

/-! ## Requests that break off -/

namespace Store

variable {s s' : Store} {last now : Nat} {r : Request}

theorem brokenOff?_eq_some_iff : s.brokenOff? last now r = some s' ↔
    ∃ path value options, r = .set path value options ∧
      (∃ l ∈ options.lifetime, last < now + l) ∧
      (∃ answer, s.write now path value options = .ok answer) ∧
      s' = if options.refresh then s else s.begun (.ofPath path) := by
  cases r with
  | get path options => exact iff_of_false nofun (by rintro ⟨_, _, _, h, -⟩; cases h)
  | delete path options => exact iff_of_false nofun (by rintro ⟨_, _, _, h, -⟩; cases h)
  | set path value options =>
    have hlate : (∃ l ∈ options.lifetime, last < now + l) ↔
        ¬ options.lifetime.all (now + · ≤ last) = true := by
      cases options.lifetime <;> simp
    unfold brokenOff?
    dsimp only
    constructor
    · intro h
      by_cases hall : options.lifetime.all (now + · ≤ last) = true
      · rw [if_pos hall] at h
        cases h
      rw [if_neg hall] at h
      cases hwrite : s.write now path value options with
      | error refusal =>
        rw [hwrite] at h
        cases h
      | ok answer =>
        rw [hwrite] at h
        exact ⟨path, value, options, rfl, hlate.mpr hall, ⟨answer, hwrite⟩,
          (Option.some.inj h).symm⟩
    · rintro ⟨path, value, options, h, hover, ⟨answer, hwrite⟩, rfl⟩
      cases h
      rw [if_neg (hlate.mp hover), hwrite]

theorem handle_of_some (h : (s.expire now).brokenOff? last now r = some s') :
    s.handle last now r = (s', none) := by
  unfold handle
  rw [h]

theorem handle_of_none (h : (s.expire now).brokenOff? last now r = none) :
    s.handle last now r = ((s.serve now r).1, some (s.serve now r).2) := by
  unfold handle
  rw [h]

end Store

/-- The clock can tell the end of every lifetime that the step gives. -/
def Step.IsTimely (last now : Nat) : Step → Prop
  | .request (.set _ _ options) => ∀ l ∈ options.lifetime, now + l ≤ last
  | _ => True

/-! ## Steps -/

namespace Voyage

variable {last : Nat}

theorem step_of_some {v : Voyage} {r : Request} {s : Store}
    (h : (v.store.expire v.now).brokenOff? last v.now r = some s) :
    v.step last (.request r) =
      { v with
        store := s, log := v.log ++ v.store.expiries v.now
        gaps := if s.index = (v.store.expire v.now).index then v.gaps else v.gaps ++ [s.index] } := by
  unfold step
  dsimp only
  rw [Store.handle_of_some h]

theorem step_of_none {v : Voyage} {r : Request}
    (h : (v.store.expire v.now).brokenOff? last v.now r = none) :
    v.step last (.request r) = { v with toCourse := v.toCourse.step (.request r) } := by
  unfold step
  dsimp only
  rw [Store.handle_of_none h]
  rfl

/-- **Everything that happens is a sequence of edits, after which at most a write has begun. The log
takes note of what the edits record, and the gaps of the index that the write has taken.** -/
theorem step_edits (last : Nat) (v : Voyage) (st : Step) : ∃ new s, Store.Edits v.now v.store new s ∧
    (v.step last st).log = v.log ++ new ∧
    ((v.step last st).store = s ∧ (v.step last st).gaps = v.gaps ∨
      ∃ key : Key, (∀ a ∈ key.ancestors, ∀ e, s.contents[a]? = some e → e.dir = true) ∧
        (v.step last st).store = s.begun key ∧
        (v.step last st).gaps = v.gaps ++ [s.index + 1]) := by
  obtain ⟨new, hedits, hlog, -⟩ := v.toCourse.step_edits st
  cases st with
  | wait | resume | look | pass => exact ⟨new, _, hedits, hlog, Or.inl ⟨rfl, rfl⟩⟩
  | request r =>
    cases hbroken : (v.store.expire v.now).brokenOff? last v.now r with
    | none =>
      rw [step_of_none hbroken]
      exact ⟨new, _, hedits, hlog, Or.inl ⟨rfl, rfl⟩⟩
    | some s =>
      rw [step_of_some hbroken]
      obtain ⟨path, value, options, -, -, haccepted, rfl⟩ :=
        Store.brokenOff?_eq_some_iff.mp hbroken
      refine ⟨_, _, Store.expire_edits v.store v.now, rfl, ?_⟩
      by_cases hrefresh : options.refresh = true
      · -- a refresh breaks off before it changes anything
        rw [if_pos hrefresh]
        exact Or.inl ⟨rfl, if_pos rfl⟩
      · have hkey := (Store.write_ok_iff.mp haccepted).2.2.2
        rw [if_neg hrefresh] at hkey ⊢
        exact Or.inr ⟨_, hkey.2, rfl, if_neg (Nat.succ_ne_self _)⟩

section Keep

variable {P : Store → List Change → List Nat → Prop}
  (edit : ∀ now s c s' log gaps, Store.Edit now s c s' → P s log gaps → P s' (log ++ c.toList) gaps)
  (begun : ∀ (s : Store) log gaps (key : Key),
    (∀ a ∈ key.ancestors, ∀ e, s.contents[a]? = some e → e.dir = true) → P s log gaps →
    P (s.begun key) log (gaps ++ [s.index + 1]))
include edit begun

theorem step_keep (v : Voyage) (st : Step) (h : P v.store v.log v.gaps) :
    P (v.step last st).store (v.step last st).log (v.step last st).gaps := by
  obtain ⟨new, s, hedits, hlog, hstep⟩ := step_edits last v st
  have hkept := hedits.keep (P := fun s log => P s log v.gaps)
    (fun s c s' log => edit v.now s c s' log v.gaps) v.log h
  rw [hlog]
  rcases hstep with ⟨hstore, hgaps⟩ | ⟨key, noFile, hstore, hgaps⟩
  · rw [hstore, hgaps]
    exact hkept
  · rw [hstore, hgaps]
    exact begun s _ _ key noFile hkept

theorem steps_keep (v : Voyage) (steps : List Step) (h : P v.store v.log v.gaps) :
    P (steps.foldl (step last) v).store (steps.foldl (step last) v).log
      (steps.foldl (step last) v).gaps := by
  induction steps generalizing v with
  | nil => exact h
  | cons st rest ih => exact ih (v.step last st) (step_keep edit begun v st h)

/-- **What each edit keeps, and each write that has begun, holds in the voyage of every store.** -/
theorem run_keep (start : P .empty [] []) (steps : List Step) :
    P (run last steps).store (run last steps).log (run last steps).gaps :=
  steps_keep edit begun {} steps start

end Keep

/-! ## In time -/

theorem step_of_timely {v : Voyage} {st : Step} (h : st.IsTimely last v.now) :
    v.step last st = { v with toCourse := v.toCourse.step st } := by
  cases st with
  | wait | resume | look | pass => rfl
  | request r =>
    refine step_of_none (Option.eq_none_iff_forall_ne_some.mpr fun s hs => ?_)
    obtain ⟨path, value, options, rfl, ⟨l, hl, hlate⟩, -⟩ := Store.brokenOff?_eq_some_iff.mp hs
    exact absurd (h l hl) (Nat.not_le_of_lt hlate)

/-- **As long as the clock can tell the end of every lifetime, a voyage is a course.** -/
theorem run_of_timely (steps : List Step) (timely : ∀ front st, front ++ [st] <+: steps →
    st.IsTimely last (Course.run front).now) :
    run last steps = { toCourse := Course.run steps } := by
  induction steps using List.reverseRecOn with
  | nil => rfl
  | append_singleton steps st ih =>
    have hbefore := ih fun front st' h => timely front st' (h.trans (List.prefix_append _ _))
    rw [run_append, hbefore, Course.run_append]
    exact step_of_timely (timely steps st (List.prefix_refl _))

/-! ## In good order -/

theorem run_inOrder (last : Nat) (steps : List Step) : (run last steps).store.InOrder :=
  run_keep (P := fun s _ _ => s.InOrder) (fun _ _ _ _ _ _ edit h => edit.inOrder h)
    (fun _ _ _ _ noFile h => h.begun noFile) .empty steps

theorem run_recounts (last : Nat) (steps : List Step) :
    (run last steps).store.Recounts (run last steps).log (run last steps).gaps :=
  run_keep (fun _ _ _ _ _ _ edit h => edit.recounts h) (fun _ _ _ key _ h => h.begun key)
    .empty steps

/-- **Whatever happens to a store, its keys form a tree with directories above the leaves, and its
indices stay below that of the store. All that was recorded has one index after the other but for
those that writes took which broke off, and the history is the end of it. No index is missing there
exactly as long as such a write has taken none that the history would have.** -/
theorem run_wellOrdered (last : Nat) (steps : List Step) :
    let s := (run last steps).store
    let log := (run last steps).log
    let gaps := (run last steps).gaps
    (∀ (k : Key) (e : Entry), s.contents[k]? = some e →
      Path.canonical k.text = k.text ∧ k ≠ .root ∧
      (∀ a : Key, k.IsBelow a → a ≠ .root → ∃ d, s.contents[a]? = some d ∧ d.dir = true) ∧
      (e.dir = false → ∀ l : Key, l.IsBelow k → s.contents[l]? = none) ∧
      (e.dir = true → e.value = "") ∧
      1 ≤ e.createdIndex ∧ e.createdIndex ≤ e.modifiedIndex ∧ e.modifiedIndex ≤ s.index) ∧
    log.map (·.index) = (List.range' 1 s.index).filter (· ∉ gaps) ∧
    gaps.Pairwise (· < ·) ∧ (∀ i ∈ gaps, 1 ≤ i ∧ i ≤ s.index) ∧
    s.history = log.filter (s.evictedUpTo < ·.index) ∧
    s.history.map (·.index) =
      (List.range' (s.evictedUpTo + 1) (s.index - s.evictedUpTo)).filter (· ∉ gaps) ∧
    (∀ c ∈ s.history, c.node.modifiedIndex = c.index) ∧
    s.evictedUpTo ≤ s.index ∧
    s.history.length = min (s.index - gaps.length) historyCapacity ∧
    (s.history.map (·.index) = List.range' (s.evictedUpTo + 1) (s.index - s.evictedUpTo) ∧
        s.history.length = min s.index historyCapacity ↔
      ∀ i ∈ gaps, i ≤ s.evictedUpTo) := by
  intro s log gaps
  have horder : s.InOrder := run_inOrder last steps
  have hlog : s.Recounts log gaps := run_recounts last steps
  refine ⟨fun k e h => ⟨?_, horder.notRoot k e h, ?_, ?_, horder.emptyDirs k e h,
    horder.indices k e h⟩, hlog.numbered, hlog.gapped.1, hlog.gapped.2, hlog.history_eq_filter,
    hlog.map_history, fun c hc => ?_, hlog.evictedUpTo_le, hlog.length_history, hlog.unbroken_iff⟩
  · rw [Path.canonical, Key.text, Path.segments_render]
  · exact fun a hbelow hroot => horder.parents k e h a (Key.mem_ancestors.mpr ⟨hbelow, hroot⟩)
  · intro hfile l hbelow
    refine horder.lookup_of_isBelow (horder.notRoot k e h) (fun d hd => ?_) hbelow
    rw [h] at hd
    rw [← Option.some.inj hd, hfile]
  · exact hlog.stamped c (List.mem_of_mem_drop (hlog.kept ▸ hc))

/-- A write with a lifetime that ends too late leaves an index that the history has not. -/
theorem overlong_unrecorded :
    let s := (run Duration.lastMoment
      [.request (.set "/a/b" "v" { lifetime := some 9223372036854775807000 })]).store
    s.index = 1 ∧ s.evictedUpTo = 0 ∧ s.history.length = 0 ∧
      s.history.map (·.index) ≠ List.range' (s.evictedUpTo + 1) (s.index - s.evictedUpTo) := by
  decide +kernel

end Voyage

end ClusterRegistry
