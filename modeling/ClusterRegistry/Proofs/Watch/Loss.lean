import ClusterRegistry.Proofs.Watch.Progress

/-!
# Changes that a subscription lets go by

A subscription that has not come to any change asks for the next one. If that wait fails, the one
after it starts from the index that the store has by then, and what was recorded in between is let go
by. After the first change no failure does that any more.

* `Turn.IsCall`: the subscription calls the store, with or without success;
* **`Follow.Forgoes.lost`**: what has been let go by never comes;
* `Follow.FailsEarly`, **`Follow.run_settled`**: only a failure before the first change does that;
* **`Follow.run_forgoes`**: which changes reach the reader.
-/

namespace ClusterRegistry

/-- The subscription calls the store. An answer about a gap is no failure of a call. -/
def Turn.IsCall : Turn → Prop
  | .start => True
  | .fail failure => ¬ failure.IsCleared
  | _ => False

theorem Course.index_le_step (c : Course) (st : Step) :
    c.store.index ≤ (c.step st).store.index := by
  obtain ⟨new, hedits, -⟩ := c.step_edits st
  have := hedits.index
  omega

namespace Follow

variable {f g : Follow} {x : Change} {t : Turn}

/-- A subscription after some more turns. -/
def after (f : Follow) (turns : List Turn) : Follow := turns.foldl step f

/-! ## What has been let go by -/

theorem Does.index_le (h : f.Does t g) : f.course.store.index ≤ g.course.store.index := by
  cases h with
  | other st => exact f.course.index_le_step st
  | look => exact f.course.index_le_step .look
  | check => exact f.course.index_le_step .look
  | _ => exact Nat.le_refl _

theorem Does.forgoes (h : f.Does t g) (old : x.index ≤ f.course.store.index)
    (gone : f.Forgoes x) : g.Forgoes x := by
  have hsince : ∀ s, f.stage = s → s ≠ .idle → x.index ≤ f.since := by
    rintro s rfl hne
    exact gone.elim id fun hfirst => absurd hfirst.2 hne
  cases h with
  | look => exact .inl (Nat.le_trans old (f.course.index_le_step .look))
  | start _ _ further => exact .inl (gone.elim id fun hfirst => absurd hfirst.1 further)
  | arm begun => exact .inl (hsince _ begun nofun)
  | check armed => exact .inl (hsince _ armed nofun)
  | wake parked _ => exact .inl (hsince _ parked nofun)
  | take told => exact .inl (hsince _ told nofun)
  | fail => exact gone.imp_right fun hfirst => ⟨hfirst.1, rfl⟩
  | cancel => exact gone.imp_right fun hfirst => ⟨hfirst.1, rfl⟩
  | _ => exact gone

/-- **What has been let go by is never received, and never in a gap that is told of.** -/
theorem Forgoes.lost (gone : f.Forgoes x) (hf : f.Sound) (hs : f.Steady)
    (old : x.index ≤ f.course.store.index) (more : List Turn) :
    (∀ e ∈ (f.after more).received, e.index ≠ x.index) ∧ ¬ (f.after more).Skips x := by
  induction more generalizing f with
  | nil =>
    refine ⟨fun e he => ?_, fun ⟨g, hg, hin⟩ => ?_⟩
    · have := hs.events e (List.mem_append_left _ he)
      rcases gone with hle | ⟨hfirst, -⟩ <;> omega
    · have := hs.gaps g hg
      rcases gone with hle | ⟨hfirst, -⟩ <;> omega
  | cons t more ih =>
    have hdoes := f.step_does t
    exact ih (hdoes.forgoes old gone) (step_sound hf t) (hdoes.steady hf hs)
      (Nat.le_trans old hdoes.index_le)

/-! ## Failures before the first change -/

section Run

variable {c : Client} {path : String} {recursive : Bool} {turns : List Turn}

/-- A wait failed before the subscription had come to any change. -/
def FailsEarly (c : Client) (path : String) (recursive : Bool) (turns : List Turn) : Prop :=
  ∃ before failure rest, turns = before ++ .fail failure :: rest ∧ ¬ failure.IsCleared ∧
    (run c path recursive before).sub.phase = .asking ∧
    (run c path recursive before).sub.cursor = 0

theorem FailsEarly.append (h : FailsEarly c path recursive turns) (t : Turn) :
    FailsEarly c path recursive (turns ++ [t]) := by
  obtain ⟨before, failure, rest, rfl, hfails⟩ := h
  exact ⟨before, failure, rest ++ [t], by rw [List.append_assoc, List.cons_append], hfails⟩

theorem run_steady (c : Client) (path : String) (recursive : Bool) (turns : List Turn) :
    (run c path recursive turns).Steady := by
  induction turns using List.reverseRecOn with
  | nil => exact ⟨Nat.le_max_right _ _, fun _ => rfl, trivial, nofun, nofun⟩
  | append_singleton turns t ih =>
    rw [run_append]
    exact (step_does _ t).steady (run_sound c path recursive turns) ih

theorem Does.ended (h : f.Does t g) (hf : f.Sound) (ended : f.sub.phase = .ended) :
    g.sub.phase = .ended := by
  have hnot : f.sub.phase ≠ .asking := by
    rw [ended]
    exact nofun
  cases h with
  | take told => exact absurd (hf.asking_of told nofun) hnot
  | fail asking _ => exact absurd asking hnot
  | unpause pausing => rw [ended] at pausing; cases pausing
  | receive =>
    rcases f.sub.receive_phase with heq | ⟨⟨e, holding⟩, -⟩
    · exact heq.trans ended
    · rw [ended] at holding
      cases holding
  | cancel => rfl
  | _ => exact ended

theorem run_quiet (quiet : ∀ t ∈ turns, ¬ t.IsCall)
    (going : (run c path recursive turns).sub.phase ≠ .ended) :
    let f := run c path recursive turns
    f.sub.phase = .asking ∧ f.stage = .idle ∧ f.sub.cursor = 0 ∧ f.sub.buffer = [] := by
  induction turns using List.reverseRecOn with
  | nil => exact ⟨rfl, rfl, rfl, rfl⟩
  | append_singleton turns t ih =>
    have hcall : ¬ t.IsCall := quiet t (List.mem_append_right _ List.mem_cons_self)
    have hdoes := (run c path recursive turns).step_does t
    rw [← run_append] at hdoes
    have hbefore := ih (fun t ht => quiet t (List.mem_append_left _ ht)) fun hended =>
      going (hdoes.ended (run_sound c path recursive turns) hended)
    generalize run c path recursive turns = f at hdoes hbefore
    generalize run c path recursive (turns ++ [t]) = g at hdoes going ⊢
    obtain ⟨asking, idle, hfirst, hbuffer⟩ := hbefore
    cases hdoes with
    | nothing => exact ⟨asking, idle, hfirst, hbuffer⟩
    | other st => exact ⟨asking, idle, hfirst, hbuffer⟩
    | look => exact absurd trivial hcall
    | start => exact absurd trivial hcall
    | fail _ uncleared => exact absurd uncleared hcall
    | arm begun => rw [idle] at begun; cases begun
    | check armed => rw [idle] at armed; cases armed
    | wake parked => rw [idle] at parked; cases parked
    | take told => rw [idle] at told; cases told
    | unpause pausing => rw [asking] at pausing; cases pausing
    | receive =>
      have hnothing : f.sub.receive = (none, f.sub) := by rw [Subscription.receive, hbuffer]
      dsimp only
      rw [hnothing]
      exact ⟨asking, idle, hfirst, hbuffer⟩
    | cancel => exact absurd rfl going

/-- A wait for the next change has started after an index, and no other one will. -/
structure Settled (f : Follow) (index : Nat) : Prop where
  since : f.since = index
  started : f.sub.cursor = 0 → f.stage ≠ .idle

theorem Does.settled (h : f.Does t g) (hf : f.Sound) (hs : f.Steady) {index : Nat}
    (settled : f.Settled index) (going : g.sub.phase ≠ .ended)
    (kept : ∀ failure, t = .fail failure → ¬ failure.IsCleared → f.sub.phase = .asking →
      f.sub.cursor ≠ 0) : g.Settled index := by
  cases h with
  | look _ idle hfirst => exact absurd idle (settled.started hfirst)
  | start _ _ further => exact ⟨settled.since, fun hfirst => absurd hfirst further⟩
  | check => exact ⟨settled.since, fun _ => check_stage f _ _⟩
  | take told =>
    have := (reached_lt_take hf hs told).1
    exact ⟨settled.since, fun hfirst => by omega⟩
  | fail asking uncleared =>
    exact ⟨settled.since, fun hfirst => absurd hfirst (kept _ rfl uncleared asking)⟩
  | cancel => exact absurd rfl going
  | nothing => exact settled
  | other st => exact ⟨settled.since, settled.started⟩
  | unpause => exact ⟨settled.since, settled.started⟩
  | receive => exact ⟨settled.since, settled.started⟩
  | _ => exact ⟨settled.since, fun _ => nofun⟩

/-- **Unless a wait failed before there was a change, the wait for the next change started with the
first call and with no other.** -/
theorem run_settled {before rest : List Turn} {call : Turn} (quiet : ∀ t ∈ before, ¬ t.IsCall)
    (first : call.IsCall)
    (going : (run c path recursive (before ++ call :: rest)).sub.phase ≠ .ended) :
    FailsEarly c path recursive (before ++ call :: rest) ∨
      (run c path recursive (before ++ call :: rest)).Settled
        ((run c path recursive before).course.step .look).store.index := by
  induction rest using List.reverseRecOn with
  | nil =>
    have hsound := run_sound c path recursive before
    have hrun := run_append c path recursive before call
    have hdoes := (run c path recursive before).step_does call
    obtain ⟨asking, idle, hfirst, -⟩ := run_quiet quiet fun hended =>
      going (hrun ▸ hdoes.ended hsound hended)
    cases call with
    | start =>
      refine .inr (hrun ▸ ?_)
      simp only [step, start, asking, idle, if_pos hfirst]
      exact ⟨rfl, fun _ hidle => by cases hidle⟩
    | fail failure => exact .inl ⟨before, failure, [], rfl, first, asking, hfirst⟩
    | _ => exact first.elim
  | append_singleton rest t ih =>
    rw [← List.cons_append, ← List.append_assoc] at going ⊢
    have hsound := run_sound c path recursive (before ++ call :: rest)
    have hsteady := run_steady c path recursive (before ++ call :: rest)
    have hdoes := (run c path recursive (before ++ call :: rest)).step_does t
    rw [← run_append] at hdoes
    rcases ih fun hended => going (hdoes.ended hsound hended) with hfails | hsettled
    · exact .inl (hfails.append t)
    · by_cases hfails : FailsEarly c path recursive (before ++ call :: rest ++ [t])
      · exact .inl hfails
      · refine .inr (hdoes.settled hsound hsteady hsettled going ?_)
        rintro failure rfl uncleared asking hfirst
        exact hfails ⟨_, failure, [], rfl, uncleared, asking, hfirst⟩

end Run

/-- **A change that is recorded after the first call reaches the reader in the end, or is in a gap
that the subscription is told of, unless the subscription has let it go by. What it has let go by
never comes, and that only happens if a wait failed before the subscription had come to any
change.** -/
theorem run_forgoes (c : Client) (path : String) (recursive : Bool) (before : List Turn)
    (call : Turn) (rest : List Turn) (x : Change) (quiet : ∀ t ∈ before, ¬ t.IsCall)
    (first : call.IsCall)
    (going : (run c path recursive (before ++ call :: rest)).sub.phase ≠ .ended)
    (recorded : x ∈ (run c path recursive (before ++ call :: rest)).course.log)
    (covered : (Key.ofPath path).Covers recursive x.key)
    (later : ((run c path recursive before).course.step .look).store.index < x.index) :
    let f := run c path recursive (before ++ call :: rest)
    (¬ f.Forgoes x → ∀ turns, Fair turns → ∃ n, (f.along turns n).AccountsFor x) ∧
    (f.Forgoes x → FailsEarly c path recursive (before ++ call :: rest) ∧
      ∀ more, (∀ e ∈ (f.after more).received, e.index ≠ x.index) ∧ ¬ (f.after more).Skips x) := by
  intro f
  have hsound : f.Sound := run_sound c path recursive _
  have hsteady : f.Steady := run_steady c path recursive _
  refine ⟨fun kept turns fair => ?_, fun gone => ⟨?_, ?_⟩⟩
  · have hcontinues := run_continues c path recursive (before ++ call :: rest)
    have hkey : f.key = Key.ofPath path := by
      rw [key, show f.sub.path = Path.canonical path from hcontinues.path]
      exact congrArg Key.mk (Path.segments_render _)
    have hcovered : f.key.Covers f.sub.recursive x.key := by
      rw [hkey, show f.sub.recursive = recursive from hcontinues.recursive]
      exact covered
    exact Owes.arrives ⟨hsound, hsteady, going, recorded, hcovered, kept⟩ fair
  · rcases run_settled quiet first going with hfails | hsettled
    · exact hfails
    · rcases gone with hle | ⟨hfirst, idle⟩
      · exact absurd (hsettled.since ▸ hle) (Nat.not_le_of_lt later)
      · exact absurd idle (hsettled.started hfirst)
  · exact gone.lost hsound hsteady (hsound.remembers.index_le recorded)

/-- A change that is recorded during the pause after a failure reaches the reader, as there was a
change before it. -/
theorem run_forgoes_paused :
    let c : Client := { retry := .constant 10 2, timeout := 5000, bufferSize := 1 }
    let set (value : String) : Turn := .other (.request (.set "/a" value {}))
    let rest : List Turn := [.arm, .check, set "v", .wake, .arm, .check, .take,
      .fail (.timedOut 1000000000), set "w", .other (.pass 10), .unpause]
    let f := run c "/a" false ([.receive] ++ .start :: rest)
    ∃ x ∈ f.course.log, (Event.ofResponse x.response).value = some "w" ∧
      ∃ n, (f.along round n).AccountsFor x := by
  intro c set rest f
  obtain ⟨x, hx, hvalue, hindex, hkey⟩ : ∃ x ∈ f.course.log,
      (Event.ofResponse x.response).value = some "w" ∧ x.index = 2 ∧ x.key = Key.ofPath "/a" := by
    decide +kernel
  have hbegin : ((run c "/a" false [.receive]).course.step .look).store.index = 0 := by
    decide +kernel
  have hkept : ¬ f.Forgoes x := by
    have hsince : f.since = 0 := by decide +kernel
    have hcursor : f.sub.cursor = 1 := by decide +kernel
    rw [Forgoes, hsince, hcursor, hindex]
    omega
  refine ⟨x, hx, hvalue, ?_⟩
  exact (run_forgoes c "/a" false [.receive] .start rest x (List.forall_mem_singleton.mpr id)
    trivial (by decide +kernel) hx (.inl hkey) (by omega)).1 hkept round fair_round

/-- The first wait fails, and a change is recorded before the next one starts. -/
def lapsed : List Turn :=
  [.other (.request (.set "/a" "v" {})), .other (.pass 10), .unpause, .start, .arm, .check]

/-- Not every change that is recorded after the first call can still reach the reader. -/
theorem lapsed_lost : ¬ ∀ (c : Client) (path : String) (recursive : Bool) (before : List Turn)
    (call : Turn) (rest : List Turn) (x : Change), (∀ t ∈ before, ¬ t.IsCall) → call.IsCall →
    (run c path recursive (before ++ call :: rest)).sub.phase ≠ .ended →
    x ∈ (run c path recursive (before ++ call :: rest)).course.log →
    (Key.ofPath path).Covers recursive x.key →
    ((run c path recursive before).course.step .look).store.index < x.index →
    ∃ more, let g := (run c path recursive (before ++ call :: rest)).after more
      (∃ e ∈ g.received, e.index = x.index) ∨ g.Skips x := by
  intro h
  let c : Client := { retry := .constant 10 2, timeout := 5000, bufferSize := 1 }
  let call : Turn := .fail (.timedOut 1000000000)
  let f := run c "/a" false ([] ++ call :: lapsed)
  obtain ⟨x, hx, hindex, hkey⟩ : ∃ x ∈ f.course.log, x.index = 1 ∧ x.key = Key.ofPath "/a" := by
    decide +kernel
  have hbegin : ((run c "/a" false []).course.step .look).store.index = 0 := by decide +kernel
  have hsince : f.since = 1 := by decide +kernel
  have hsound : f.Sound := run_sound c "/a" false _
  have hlost := Forgoes.lost (f := f) (x := x) (.inl (by omega)) hsound
    (run_steady c "/a" false _) (hsound.remembers.index_le hx)
  obtain ⟨more, ⟨e, he, hsame⟩ | hskips⟩ := h c "/a" false [] call lapsed x nofun id
    (by decide +kernel) hx (.inl hkey) (by omega)
  · exact (hlost more).1 e he hsame
  · exact (hlost more).2 hskips

end Follow

end ClusterRegistry
