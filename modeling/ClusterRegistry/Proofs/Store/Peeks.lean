import ClusterRegistry.Proofs.Store.Visits

/-!
# What looks in between change

A look removes what is due, so it may let a key go before another one that would have gone first.
That is all that a look changes. What is kept never hangs on it, only indices and the order of the
log do.

* `Course.Mirrored`, **`Course.replies_unindexed`**: what is kept is the same in both runs;
* `Course.Level`, **`Course.replies_atOnce`**: so are the indices, if no key goes before one above;
* `Course.InStep`, **`Course.replies_eq`**: so is the log, if no key goes too early;
* **`Course.spares_of_log`**: otherwise the log is not the same;
* `Course.Tells.isFirst`: what a wait is told of, by the log;
* **`Course.visits_alike`**: what looks in between change.
-/

namespace ClusterRegistry.Course

variable {run : Bool} {c c' : Course} {v : Visit} {vs rest : List Visit} {st : Step}

/-! ## What is kept -/

/-- An eager store keeps up with both runs. -/
def Mirrored (c c' : Course) : Prop :=
  ∃ r : Eager, (r.Mirrors c.store c.now ∧ c.store.InOrder) ∧
    r.Mirrors c'.store c'.now ∧ c'.store.InOrder

theorem Mirrored.reply (h : c.Mirrored c') (st : Step) :
    (c.reply st).unindexed = (c'.reply st).unindexed := by
  obtain ⟨r, ⟨hmirrors, -⟩, hmirrors', -⟩ := h
  by_cases hst : ∃ q, st = .request q
  · obtain ⟨q, rfl⟩ := hst
    have hslots := hmirrors.slots.symm.trans hmirrors'.slots
    have hnow : c.now = c'.now := hmirrors.clock.symm.trans hmirrors'.clock
    rw [hnow] at hslots
    rw [unindexed_request, unindexed_request, Store.serve_snd, Store.serve_snd, hnow,
      Store.perform_unindexed hslots]
  · push Not at hst
    rw [unindexed_eq_none c hst, unindexed_eq_none c' hst]

/-- At the next access of both runs their stores are twins. -/
structure Level (vs : List Visit) (c c' : Course) : Prop where
  now : c.now = c'.now
  twin : (c.store.expire (Visit.next c.now vs)).Twin (c'.store.expire (Visit.next c.now vs))

theorem visit_twin (hv : v.isAccess = false)
    (spares : v.isPeek run = true → ¬ c.store.Parts c.now (Visit.next c.now rest)) :
    ((c.visit run v).store.expire (Visit.next c.now (v :: rest))).Twin
      (c.store.expire (Visit.next c.now (v :: rest))) := by
  rcases visit_of_not_access hv run c with ⟨hstore, -⟩ | ⟨hpeek, hlook, hnext⟩
  · rw [hstore]
    exact .refl _
  · rw [hlook, hnext]
    exact Store.expire_twin_expire (le_next _ _) (spares hpeek)

theorem step_twin (hv : (Visit.both st).isAccess = true) (hnow : c.now = c'.now)
    (twin : (c.store.expire c.now).Twin (c'.store.expire c.now)) :
    (c.step st).store.Twin (c'.step st).store ∧
      ∃ new, (c.step st).log = c.log ++ c.store.expiries c.now ++ new ∧
        (c'.step st).log = c'.log ++ c'.store.expiries c.now ++ new := by
  have hlook : (c.step .look).store.Twin (c'.step .look).store ∧
      ∃ new, (c.step .look).log = c.log ++ c.store.expiries c.now ++ new ∧
        (c'.step .look).log = c'.log ++ c'.store.expiries c.now ++ new := by
    unfold step
    dsimp only
    rw [← hnow]
    exact ⟨twin, [], (List.append_nil _).symm, (List.append_nil _).symm⟩
  cases st with
  | request q =>
    obtain ⟨-, hstore, new, hchanges, hchanges'⟩ := twin.serve q
    unfold step
    dsimp only
    rw [← hnow]
    refine ⟨hstore, new, ?_, ?_⟩
    · rw [hchanges, List.append_assoc]
    · rw [hchanges', List.append_assoc]
  | wait path options =>
    rw [step_wait, step_wait]
    exact hlook
  | resume w =>
    rw [step_resume, step_resume]
    exact hlook
  | look => exact hlook
  | pass millis => cases hv

/-- **Runs that part no key from one above it stay level.** -/
theorem Level.visit (h : Level (v :: rest) c c')
    (spares : v.isPeek false = true → ¬ c.store.Parts c.now (Visit.next c.now rest))
    (spares' : v.isPeek true = true → ¬ c'.store.Parts c'.now (Visit.next c'.now rest)) :
    Level rest (c.visit false v) (c'.visit true v) := by
  refine ⟨by rw [visit_now, visit_now, h.now], ?_⟩
  cases hv : v.isAccess with
  | false =>
    have htwin := visit_twin hv spares
    have htwin' := visit_twin hv spares'
    rw [← h.now] at htwin'
    rw [next_visit hv]
    exact htwin.trans (h.twin.trans htwin'.symm)
  | true =>
    have htwin := h.twin
    rw [next_of_access hv] at htwin
    cases v with
    | both st => exact (step_twin hv h.now htwin).1.expire _
    | only r p => cases hv

theorem Level.reply (h : Level (.both st :: rest) c c') :
    (c.reply st).atOnce = (c'.reply st).atOnce := by
  have htwin := h.twin
  cases st with
  | request q =>
    rw [next_of_access rfl] at htwin
    rw [reply_request, reply_request, (htwin.serve q).1, h.now]
  | wait path options => exact (atOnce_ofWait _).trans (atOnce_ofWait _).symm
  | resume w => exact (atOnce_ofWait _).trans (atOnce_ofWait _).symm
  | look =>
    rw [next_of_access rfl] at htwin
    rw [reply_look, reply_look, htwin.index, h.now]
  | pass millis => rfl

/-- Level runs that have recorded the same by the next access of both. -/
structure InStep (vs : List Visit) (c c' : Course) : Prop extends Level vs c c' where
  log : c.log ++ c.store.expiries (Visit.next c.now vs) =
    c'.log ++ c'.store.expiries (Visit.next c.now vs)
  remembers : c.store.Remembers c.log
  remembers' : c'.store.Remembers c'.log

theorem visit_remembers (h : c.store.Remembers c.log) (run : Bool) (v : Visit) :
    (c.visit run v).store.Remembers (c.visit run v).log := by
  rcases visit_eq_or_step run c v with hsame | ⟨st, hstep⟩
  · rwa [hsame]
  · rw [hstep]
    exact c.step_keep st (fun _ _ _ _ _ edit h => edit.remembers h) h

theorem visit_log (hv : v.isAccess = false)
    (spares : v.isPeek run = true → ¬ c.store.Reorders c.now (Visit.next c.now rest)) :
    (c.visit run v).log ++ (c.visit run v).store.expiries (Visit.next c.now (v :: rest)) =
      c.log ++ c.store.expiries (Visit.next c.now (v :: rest)) := by
  rcases visit_of_not_access hv run c with ⟨hstore, hlog⟩ | ⟨hpeek, hlook, hnext⟩
  · rw [hstore, hlog]
  · rw [hlook, hnext, ← Store.expiries_append (le_next _ _) (spares hpeek), ← List.append_assoc]
    rfl

/-- **Runs that let no key go too early stay in step.** -/
theorem InStep.visit (h : InStep (v :: rest) c c')
    (spares : v.isPeek false = true → ¬ c.store.Reorders c.now (Visit.next c.now rest))
    (spares' : v.isPeek true = true → ¬ c'.store.Reorders c'.now (Visit.next c'.now rest)) :
    InStep rest (c.visit false v) (c'.visit true v) := by
  have hlevel := h.toLevel.visit (fun hpeek hparts => spares hpeek hparts.reorders)
    (fun hpeek hparts => spares' hpeek hparts.reorders)
  refine ⟨hlevel, ?_, visit_remembers h.remembers false v, visit_remembers h.remembers' true v⟩
  cases hv : v.isAccess with
  | false =>
    have hlog' := visit_log hv spares'
    rw [← h.now] at hlog'
    rw [next_visit hv, visit_log hv spares, hlog', h.log]
  | true =>
    have htwin := h.twin
    have hlog := h.log
    rw [next_of_access hv] at htwin hlog
    cases v with
    | both st =>
      obtain ⟨hstore, new, hnew, hnew'⟩ := step_twin hv h.now htwin
      change (c.step st).log ++ (c.step st).store.expiries _ =
        (c'.step st).log ++ (c'.step st).store.expiries _
      rw [hnew, hnew', hlog, hstore.expiries]
    | only r p => cases hv

theorem InStep.reply_wait (h : InStep (.both st :: rest) c c')
    (hv : (Visit.both st).isAccess = true) (hsought : c.sought? st = c'.sought? st)
    {sought : Key × Bool × Nat} (hc : c.sought? st = some sought) : c.reply st = c'.reply st := by
  obtain ⟨key, recursive, after⟩ := sought
  have htwin := h.twin
  have hlog := h.log
  have hremembers := h.remembers.expire c.now
  have hremembers' := h.remembers'.expire c.now
  rw [next_of_access hv] at htwin hlog
  rw [← hlog] at hremembers'
  rw [(reply_of_sought hc).2, (reply_of_sought (hsought ▸ hc)).2, ← h.now, htwin.contents,
    htwin.answer? hremembers hremembers']

theorem InStep.reply (h : InStep (.both st :: rest) c c') : c.reply st = c'.reply st := by
  have htwin := h.twin
  cases st with
  | request q =>
    rw [next_of_access rfl] at htwin
    rw [reply_request, reply_request, (htwin.serve q).1, h.now]
  | wait path options =>
    refine h.reply_wait rfl ?_ rfl
    rw [next_of_access rfl] at htwin
    unfold sought?
    dsimp only
    rw [htwin.index, h.now]
  | resume w => exact h.reply_wait rfl rfl rfl
  | look =>
    rw [next_of_access rfl] at htwin
    rw [reply_look, reply_look, htwin.index, h.now]
  | pass millis => rfl

theorem log_prefix_visits (run : Bool) (c : Course) (vs : List Visit) :
    c.log <+: ((c.visits run vs).step .look).log := by
  induction vs generalizing c with
  | nil => exact List.prefix_append _ _
  | cons v rest ih =>
    refine List.IsPrefix.trans ?_ (ih (c.visit run v))
    rcases visit_eq_or_step run c v with hsame | ⟨st, hstep⟩
    · rw [hsame]
    · obtain ⟨new, -, hlog, -⟩ := c.step_edits st
      rw [hstep, hlog]
      exact List.prefix_append _ _

theorem visits_remembers (run : Bool) (vs : List Visit) :
    (visits run {} vs).store.Remembers (visits run {} vs).log := by
  induction vs using List.reverseRecOn with
  | nil => exact .empty
  | append_singleton vs v ih =>
    rw [visits, List.foldl_append]
    exact visit_remembers ih run v

theorem Tells.isFirst {key : Key} {recursive : Bool} {after : Nat} {response : Response}
    (h : Tells run vs (key, recursive, after) response) :
    ∃ x, Store.IsFirst ((visits run {} vs).step .look).log key recursive after x ∧
      response = x.response := by
  obtain ⟨before, v, st, ⟨rest, rfl⟩, hst, hsought, hevent⟩ := h
  obtain ⟨hlook, hreply⟩ := reply_of_sought hsought
  rw [hreply] at hevent
  obtain ⟨x, hx, rfl⟩ := ((visits_remembers run before).expire _).isFirst
    (Reply.answer_of_event? hevent)
  refine ⟨x, ?_, rfl⟩
  -- the look of the wait stands at the beginning of the log
  have hprefix : ((visits run {} before).step .look).log <+:
      ((visits run {} (before ++ [v] ++ rest)).step .look).log := by
    have hvisit : (visits run {} before).visit run v = (visits run {} before).step .look := by
      rw [visit, hst, Option.elim_some, hlook]
    have hvisits : visits run {} (before ++ [v] ++ rest) =
        visits run ((visits run {} before).visit run v) rest := by
      rw [visits, List.foldl_append, List.foldl_append]
      rfl
    rw [hvisits, hvisit]
    exact log_prefix_visits run _ rest
  obtain ⟨new, hnew⟩ := hprefix
  have hsorted := ((visits_remembers run (before ++ [v] ++ rest)).expire
    (visits run {} (before ++ [v] ++ rest)).now).sorted
  change ((visits run {} (before ++ [v] ++ rest)).step .look).log.Pairwise _ at hsorted
  rw [← hnew] at hsorted ⊢
  exact hx.append fun y hy => ((List.pairwise_append.mp hsorted).2.2 x hx.mem y hy).le

end ClusterRegistry.Course
