import ClusterRegistry.Proofs.Watch.Follow

/-!
# Changes that arrive

A subscription that is left alone by failures brings every change to its reader that it has not let
go by, as long as everything has its turn again and again. The proof measures how far it has come:
first by the index, and then by how much is left to do until it can ask for the next change.

* `Follow.Forgoes`, `Follow.AccountsFor`: a change has been let go by, or has been received;
* `Follow.Steady`, `Follow.Does.steady`: what always holds of the buffer, of events and of gaps;
* `Follow.Owes`, **`Follow.Owes.step`**: a change is still to come;
* `Follow.rank`, **`Follow.Owes.progress`**, **`Follow.Owes.passes_needed`**: no turn takes the
  subscription back, and there is always one that takes it further;
* `Follow.Fair`, **`Follow.Owes.arrives`**: what is still to come arrives.
-/

namespace ClusterRegistry

/-- The turn is no failure and does not end the subscription. -/
def Turn.IsMild : Turn → Prop
  | .fail _ | .cancel => False
  | _ => True

/-- A wait that was told of a gap was told that it ends further on. -/
def Stage.IsAhead : Stage → Prop
  | .told after (.error refusal) => after < refusal.index
  | _ => True

/-- The turn is one of the subscription itself or of its reader. -/
def Turn.IsOwn : Turn → Prop
  | .start | .arm | .check | .wake | .take | .unpause | .receive => True
  | _ => False

theorem Turn.IsOwn.isMild {t : Turn} (h : t.IsOwn) : t.IsMild := by
  cases t with
  | fail => exact h.elim
  | cancel => exact h.elim
  | _ => trivial

theorem Course.now_le_step (c : Course) (st : Step) : c.now ≤ (c.step st).now := by
  cases st with
  | pass millis => exact Nat.le_add_right _ _
  | _ => exact Nat.le_refl _

namespace Follow

variable {f g : Follow} {x : Change} {t : Turn}

/-- A change has been let go by: the wait for the next change started after it, or will. -/
def Forgoes (f : Follow) (x : Change) : Prop :=
  x.index ≤ f.since ∨ f.sub.cursor = 0 ∧ f.stage = .idle

/-- A change is in a gap that the subscription was told of. -/
def Skips (f : Follow) (x : Change) : Prop := ∃ g ∈ f.skipped, g.1 < x.index ∧ x.index ≤ g.2

/-- The reader has received a change, or the subscription was told of a gap in which it is. -/
def AccountsFor (f : Follow) (x : Change) : Prop :=
  Event.ofResponse x.response ∈ f.received ∨ f.Skips x

/-! ## The log and the time -/

theorem Does.log (h : f.Does t g) : ∃ new, g.course.log = f.course.log ++ new := by
  cases h with
  | other st =>
    obtain ⟨new, -, hlog, -⟩ := f.course.step_edits st
    exact ⟨new, hlog⟩
  | look => exact ⟨_, rfl⟩
  | check => exact ⟨_, rfl⟩
  | _ => exact ⟨[], (List.append_nil _).symm⟩

theorem Does.now_le (h : f.Does t g) : f.course.now ≤ g.course.now := by
  cases h with
  | other st => exact f.course.now_le_step st
  | _ => exact Nat.le_refl _

/-! ## Events and gaps -/

/-- An event is held only if something is in the buffer. Events and gaps come after the start, and
not after the cursor. -/
structure Steady (f : Follow) : Prop where
  capacity : 1 ≤ f.sub.capacity
  full : f.sub.buffer = [] → f.sub.held = []
  ahead : f.stage.IsAhead
  events : ∀ e ∈ f.received ++ f.sub.pending, f.since < e.index ∧ e.index ≤ f.sub.cursor
  gaps : ∀ g ∈ f.skipped, f.since ≤ g.1 ∧ g.1 < g.2 ∧ g.2 ≤ f.sub.cursor

theorem Steady.lt_of_told (h : f.Steady) {after : Nat} {refusal : Refusal}
    (told : f.stage = .told after (.error refusal)) : after < refusal.index := by
  have := h.ahead
  rwa [told] at this

theorem Steady.check (hf : f.Sound) (h : f.Steady) (after seen : Nat) :
    (f.check after seen).Steady := by
  refine ⟨h.capacity, h.full, ?_, h.events, h.gaps⟩
  unfold Follow.check
  dsimp only
  rw [Store.await_eq]
  cases hanswer : (f.course.store.expire f.course.now).answer? f.key f.sub.recursive after with
  | none => trivial
  | some answer =>
    cases answer with
    | ok response => trivial
    | error refusal =>
      obtain ⟨-, hindex, hlt, hle⟩ := (hf.advance .look).remembers.forgotten hanswer
      show after < refusal.index
      rw [hindex]
      exact Nat.lt_of_lt_of_le hlt hle

theorem Steady.take_ok (hf : f.Sound) (h : f.Steady) {after : Nat} {response : Response}
    (told : f.stage = .told after (.ok response)) : (f.take after (.ok response)).Steady := by
  obtain ⟨hphase, hafter, c, hc, rfl, hsub⟩ := hf.told_ok told
  have habove := hc.above
  have hle : f.since ≤ after ∧ f.sub.cursor ≤ after := by
    rw [hafter, reached]
    omega
  have hcursor : (f.take after (.ok c.response)).sub.cursor = c.index := by
    rw [hsub, Subscription.offer_cursor]
  have hindex : (Event.ofResponse c.response).index = c.index := hf.remembers.stamped c hc.mem
  refine ⟨?_, ?_, trivial, fun e he => ?_, fun g hg => ?_⟩
  · have hcontinues := Subscription.offer_continues { f.sub with cursor := c.index }
      (.ofResponse c.response)
    rw [hsub, hcontinues.capacity]
    exact h.capacity
  · rw [hsub]
    unfold Subscription.offer
    split_ifs with hroom
    · exact fun _ => rfl
    · intro hnil
      have hcapacity := h.capacity
      dsimp only at hnil hroom
      rw [hnil, List.length_nil] at hroom
      omega
  · replace he : e ∈ f.received ++ (f.take after (.ok c.response)).sub.pending := he
    rw [hsub, Subscription.pending_offer (by exact hphase), ← List.append_assoc] at he
    rw [hcursor]
    show f.since < e.index ∧ _
    rcases List.mem_append.mp he with he | he
    · have := h.events e he
      omega
    · rw [List.mem_singleton.mp he, hindex]
      omega
  · replace hg : g ∈ f.skipped ++ [] := hg
    rw [List.append_nil] at hg
    have := h.gaps g hg
    rw [hcursor]
    exact ⟨this.1, this.2.1, by omega⟩

theorem Steady.take_error (hf : f.Sound) (h : f.Steady) {after : Nat} {refusal : Refusal}
    (told : f.stage = .told after (.error refusal)) :
    (f.take after (.error refusal)).Steady := by
  obtain ⟨hphase, hafter, -, -, hsub, hskipped⟩ := hf.told_error told
  have hlt := h.lt_of_told told
  have hle : f.since ≤ after ∧ f.sub.cursor ≤ after := by
    rw [hafter, reached]
    omega
  refine ⟨?_, ?_, trivial, fun e he => ?_, fun g hg => ?_⟩
  · rw [hsub]
    exact h.capacity
  · rw [hsub]
    exact fun _ => rfl
  · replace he : e ∈ f.received ++ (f.take after (.error refusal)).sub.pending := he
    have hpending : (f.take after (.error refusal)).sub.pending = f.sub.pending := by
      rw [hsub, Subscription.pending, Subscription.pending, Subscription.held_of_asking hphase]
      rfl
    rw [hpending] at he
    have := h.events e he
    rw [hsub]
    exact ⟨this.1, by dsimp only; omega⟩
  · rw [hskipped] at hg
    rw [hsub]
    show f.since ≤ g.1 ∧ g.1 < g.2 ∧ g.2 ≤ refusal.index
    rcases List.mem_append.mp hg with hg | hg
    · have := h.gaps g hg
      omega
    · rw [List.mem_singleton.mp hg]
      exact ⟨hle.1, hlt, Nat.le_refl _⟩

theorem Steady.move (h : f.Steady) {buffer : List Event} {phase : Phase} {stage : Stage}
    (received : List Event) (ahead : stage.IsAhead)
    (full : buffer = [] →
      ({ f.sub with buffer := buffer, phase := phase } : Subscription).held = [])
    (fewer : received ++ ({ f.sub with buffer := buffer, phase := phase } : Subscription).pending ⊆
      f.received ++ f.sub.pending) :
    ({ f with
      sub := { f.sub with buffer := buffer, phase := phase }
      stage := stage
      received := received } : Follow).Steady :=
  ⟨h.capacity, full, ahead, fun e he => h.events e (fewer he), h.gaps⟩

theorem Steady.receive_full (h : f.Steady) (hbuffer : f.sub.receive.2.buffer = []) :
    f.sub.receive.2.held = [] := by
  unfold Subscription.receive at hbuffer ⊢
  split at hbuffer
  · exact h.full hbuffer
  · split at hbuffer
    · exact absurd hbuffer (List.append_ne_nil_of_right_ne_nil _ (List.cons_ne_nil _ _))
    · rename_i hnot
      unfold Subscription.held
      split
      · rename_i e holding
        exact absurd holding (hnot e)
      · rfl

theorem Does.steady (h : f.Does t g) (hf : f.Sound) (hs : f.Steady) : g.Steady := by
  cases h with
  | nothing => exact hs
  | other st => exact ⟨hs.capacity, hs.full, hs.ahead, hs.events, hs.gaps⟩
  | look asking idle first =>
    -- as long as the cursor has not moved, there are no events and no gaps
    refine ⟨hs.capacity, hs.full, trivial, fun e he => ?_, fun g hg => ?_⟩
    · have := hs.events e he
      omega
    · have := hs.gaps g hg
      omega
  | check => exact hs.check hf _ _
  | @take _ answer told =>
    cases answer with
    | ok response => exact hs.take_ok hf told
    | error refusal => exact hs.take_error hf told
  | fail asking _ =>
    refine hs.move f.received trivial (fun _ => Subscription.held_of_failed _ _ _) ?_
    rw [Subscription.pending, Subscription.pending, Subscription.held_of_asking asking,
      Subscription.held_of_failed]
    exact List.Subset.refl _
  | unpause pausing =>
    refine hs.move f.received hs.ahead (fun _ => rfl) ?_
    rw [Subscription.pending, Subscription.pending, Subscription.held, Subscription.held, pausing]
    exact List.Subset.refl _
  | receive =>
    have hpending := f.sub.pending_receive
    have hfull := hs.receive_full
    rw [f.sub.receive_eq] at hpending hfull
    refine hs.move _ hs.ahead hfull ?_
    rw [List.append_assoc, hpending]
    exact List.Subset.refl _
  | cancel =>
    refine hs.move f.received trivial (fun _ => rfl) ?_
    show f.received ++ (f.sub.buffer ++ []) ⊆ f.received ++ (f.sub.buffer ++ f.sub.held)
    rw [List.append_nil, ← List.append_assoc]
    exact List.subset_append_left _ _
  | _ => exact ⟨hs.capacity, hs.full, trivial, hs.events, hs.gaps⟩

/-! ## A change that is still to come -/

/-- A change of the key that has been recorded and that the subscription has not let go by. -/
structure Owes (f : Follow) (x : Change) : Prop where
  sound : f.Sound
  steady : f.Steady
  going : f.sub.phase ≠ .ended
  recorded : x ∈ f.course.log
  covered : f.key.Covers f.sub.recursive x.key
  kept : ¬ f.Forgoes x

theorem reached_lt_take (hf : f.Sound) (hs : f.Steady) {after : Nat}
    {answer : Except Refusal Response} (told : f.stage = .told after answer) :
    f.reached < (f.take after answer).sub.cursor ∧ (f.take after answer).sub.phase ≠ .ended := by
  cases answer with
  | ok response =>
    obtain ⟨-, hafter, c, hc, -, hsub⟩ := hf.told_ok told
    have habove := hc.above
    rw [hsub, Subscription.offer_cursor, ← hafter]
    refine ⟨habove, ?_⟩
    unfold Subscription.offer
    split_ifs <;> exact nofun
  | error refusal =>
    obtain ⟨-, hafter, -, -, hsub, -⟩ := hf.told_error told
    rw [hsub, ← hafter]
    exact ⟨hs.lt_of_told told, nofun⟩

theorem check_stage (f : Follow) (after seen : Nat) : (f.check after seen).stage ≠ .idle := by
  unfold check
  dsimp only
  split <;> exact nofun

theorem receive_going (going : f.sub.phase ≠ .ended) : f.sub.receive.2.phase ≠ .ended := by
  rcases f.sub.receive_phase with heq | ⟨-, heq⟩
  · rwa [heq]
  · rw [heq]
    exact nofun

theorem Does.going (h : f.Does t g) (mild : t.IsMild) (hf : f.Sound) (hs : f.Steady)
    (going : f.sub.phase ≠ .ended) : g.sub.phase ≠ .ended := by
  cases h with
  | take told => exact (reached_lt_take hf hs told).2
  | fail => exact mild.elim
  | cancel => exact mild.elim
  | unpause => exact nofun
  | receive => exact receive_going going
  | _ => exact going

theorem Does.kept (h : f.Does t g) (mild : t.IsMild) (hf : f.Sound) (hs : f.Steady)
    (kept : ¬ f.Forgoes x) : ¬ g.Forgoes x := by
  cases h with
  | look _ idle first => exact absurd (.inr ⟨first, idle⟩) kept
  | take told =>
    have := (reached_lt_take hf hs told).1
    exact fun hg => kept (hg.imp_right fun hfirst => by omega)
  | fail => exact mild.elim
  | cancel => exact mild.elim
  | other st => exact kept
  | nothing => exact kept
  | unpause => exact kept
  | receive => exact kept
  | check => exact fun hg => kept (hg.imp_right fun hfirst => absurd hfirst.2 (check_stage f _ _))
  | _ => exact fun hg => kept (hg.imp_right fun hfirst => nomatch hfirst.2)

/-- **As long as nothing fails, a change that is still to come stays so.** -/
theorem Owes.step (h : f.Owes x) (mild : t.IsMild) : (f.step t).Owes x := by
  have hdoes := f.step_does t
  obtain ⟨new, hlog⟩ := hdoes.log
  have hcontinues := f.step_continues t
  refine ⟨step_sound h.sound t, hdoes.steady h.sound h.steady,
    hdoes.going mild h.sound h.steady h.going, ?_, ?_, hdoes.kept mild h.sound h.steady h.kept⟩
  · rw [hlog]
    exact List.mem_append_left _ h.recorded
  · rw [key, hcontinues.path, hcontinues.recursive]
    exact h.covered

/-! ## Turn by turn -/

/-- How far a subscription has come with its next wait, by what it does at the moment. -/
def grade : Phase → Stage → Nat
  | .holding _, _ => 0
  | .pausing _, _ => 1
  | .asking, .idle => 2
  | .asking, .parked _ => 3
  | .asking, .begun _ => 4
  | .asking, .armed .. => 5
  | .asking, .told .. => 6
  | .ended, _ => 7

def rank (f : Follow) : Nat := grade f.sub.phase f.stage

/-- The turn that takes a subscription of a rank further. -/
def needed : Nat → Turn
  | 0 => .receive
  | 1 => .unpause
  | 2 => .start
  | 3 => .wake
  | 4 => .arm
  | 5 => .check
  | _ => .take

theorem needed_isOwn (k : Nat) : (needed k).IsOwn := by
  unfold needed
  split <;> trivial

theorem exists_needed (own : t.IsOwn) : ∃ k < 7, needed k = t := by
  cases t with
  | receive => exact ⟨0, by decide, rfl⟩
  | unpause => exact ⟨1, by decide, rfl⟩
  | start => exact ⟨2, by decide, rfl⟩
  | wake => exact ⟨3, by decide, rfl⟩
  | arm => exact ⟨4, by decide, rfl⟩
  | check => exact ⟨5, by decide, rfl⟩
  | take => exact ⟨6, by decide, rfl⟩
  | _ => exact own.elim

theorem rank_le (f : Follow) : f.rank ≤ 7 := by
  unfold rank grade
  split <;> omega

theorem rank_eq {p : Phase} {s : Stage} (hphase : f.sub.phase = p) (hstage : f.stage = s) :
    f.rank = grade p s := by
  rw [rank, hphase, hstage]

/-- A subscription has come further, by an index or by a step of its wait. -/
def Passes (f g : Follow) : Prop := f.reached < g.reached ∨ f.reached = g.reached ∧ f.rank < g.rank

theorem passes_of_grade {p p' : Phase} {s s' : Stage} (hreached : f.reached = g.reached)
    (hphase : f.sub.phase = p) (hstage : f.stage = s) (hphase' : g.sub.phase = p')
    (hstage' : g.stage = s') (hlt : grade p s < grade p' s') : f.Passes g :=
  .inr ⟨hreached, by rwa [rank_eq hphase hstage, rank_eq hphase' hstage']⟩

theorem Owes.exists_told (h : f.Owes x) (ahead : f.reached < x.index) {after seen : Nat}
    (armed : f.stage = .armed after seen) :
    ∃ answer, (f.check after seen).stage = .told after answer := by
  have hknows := h.sound.knows
  rw [armed] at hknows
  obtain ⟨new, hlog⟩ : ∃ new, (f.course.step .look).log = f.course.log ++ new := ⟨_, rfl⟩
  have hremembers : (f.course.store.expire f.course.now).Remembers (f.course.log ++ new) :=
    hlog ▸ (h.sound.advance .look).remembers
  obtain ⟨answer, hanswer⟩ := hremembers.exists_answer (List.mem_append_left _ h.recorded)
    (hknows.1 ▸ ahead) h.covered
  refine ⟨answer, ?_⟩
  unfold check
  dsimp only
  rw [Store.await_eq, hanswer]

theorem Owes.woken (h : f.Owes x) (ahead : f.reached < x.index) {w : Wait}
    (parked : f.stage = .parked w) : w.IsWoken f.course.store f.course.now := by
  have hknows := h.sound.knows
  rw [parked] at hknows
  obtain ⟨hafter, -, hnone⟩ := hknows
  refine .inl fun hseen => ?_
  exact hnone hseen x h.recorded (hafter ▸ ahead) h.covered

/-- **No turn takes a subscription back, as long as nothing fails and a change is ahead.** -/
theorem Owes.progress (h : f.Owes x) (mild : t.IsMild) (ahead : f.reached < x.index) :
    f.Passes (f.step t) ∨ f.reached = (f.step t).reached ∧ f.rank = (f.step t).rank ∧
      f.sub.phase = (f.step t).sub.phase := by
  have hdoes := f.step_does t
  generalize f.step t = g at hdoes
  cases hdoes with
  | nothing => exact .inr ⟨rfl, rfl, rfl⟩
  | other st => exact .inr ⟨rfl, rfl, rfl⟩
  | look _ idle first => exact absurd (.inr ⟨first, idle⟩) h.kept
  | start asking idle =>
    exact .inl (passes_of_grade rfl asking idle asking rfl (by decide : 2 < 4))
  | arm begun =>
    have asking := h.sound.asking_of begun nofun
    exact .inl (passes_of_grade rfl asking begun asking rfl (by decide : 4 < 5))
  | check armed =>
    have asking := h.sound.asking_of armed nofun
    obtain ⟨answer, htold⟩ := h.exists_told ahead armed
    exact .inl (passes_of_grade rfl asking armed asking htold (by decide : 5 < 6))
  | wake parked _ =>
    have asking := h.sound.asking_of parked nofun
    exact .inl (passes_of_grade rfl asking parked asking rfl (by decide : 3 < 4))
  | take told =>
    have := (reached_lt_take h.sound h.steady told).1
    exact .inl (.inl (Nat.lt_of_lt_of_le this (Nat.le_max_right _ _)))
  | fail => exact mild.elim
  | cancel => exact mild.elim
  | unpause pausing =>
    have idle := h.sound.idle (by rw [pausing]; exact nofun)
    exact .inl (passes_of_grade rfl pausing idle rfl idle (by decide : 1 < 2))
  | receive =>
    rcases f.sub.receive_phase with heq | ⟨⟨e, holding⟩, asking⟩
    · refine .inr ⟨rfl, ?_, heq.symm⟩
      exact congrArg (grade · f.stage) heq.symm
    · have idle := h.sound.idle (by rw [holding]; exact nofun)
      exact .inl (passes_of_grade rfl holding idle asking idle (by decide : 0 < 2))

theorem Owes.passes_asking (h : f.Owes x) (ahead : f.reached < x.index)
    (hphase : f.sub.phase = .asking) : f.Passes (f.step (needed f.rank)) := by
  rw [rank_eq hphase rfl]
  cases hstage : f.stage with
  | idle =>
    have hcursor : f.sub.cursor ≠ 0 := fun hfirst => h.kept (.inr ⟨hfirst, hstage⟩)
    have hstart : f.start = { f with stage := .begun f.sub.cursor } := by
      simp only [start, hphase, hstage, if_neg hcursor]
    show f.Passes f.start
    rw [hstart]
    exact passes_of_grade rfl hphase hstage hphase rfl (by decide : 2 < 4)
  | parked w =>
    have hwake : f.step .wake = { f with stage := .begun w.after } := by
      simp only [Follow.step, hstage, if_pos (h.woken ahead hstage)]
    show f.Passes (f.step .wake)
    rw [hwake]
    exact passes_of_grade rfl hphase hstage hphase rfl (by decide : 3 < 4)
  | begun after =>
    have harm : f.step .arm = { f with stage := .armed after f.course.store.signals } := by
      simp only [Follow.step, hstage]
    show f.Passes (f.step .arm)
    rw [harm]
    exact passes_of_grade rfl hphase hstage hphase rfl (by decide : 4 < 5)
  | armed after seen =>
    have hcheck : f.step .check = f.check after seen := by
      simp only [Follow.step, hstage]
    obtain ⟨answer, htold⟩ := h.exists_told ahead hstage
    show f.Passes (f.step .check)
    rw [hcheck]
    exact passes_of_grade rfl hphase hstage hphase htold (by decide : 5 < 6)
  | told after answer =>
    have htake : f.step .take = f.take after answer := by
      simp only [Follow.step, hstage]
    have := (reached_lt_take h.sound h.steady hstage).1
    show f.Passes (f.step .take)
    rw [htake]
    exact .inl (Nat.lt_of_lt_of_le this (Nat.le_max_right _ _))

/-- **There is always a turn that takes a subscription further, once its pause is over.** -/
theorem Owes.passes_needed (h : f.Owes x) (ahead : f.reached < x.index)
    (due : ∀ t, f.sub.phase = .pausing t → t ≤ f.course.now) :
    f.Passes (f.step (needed f.rank)) := by
  cases hphase : f.sub.phase with
  | ended => exact absurd hphase h.going
  | asking => exact h.passes_asking ahead hphase
  | holding e =>
    have idle := h.sound.idle fun asking => by rw [hphase] at asking; cases asking
    have hheld : f.sub.held = [e] := by rw [Subscription.held, hphase]
    obtain ⟨first, rest, hbuffer⟩ := List.exists_cons_of_ne_nil fun hnil =>
      List.cons_ne_nil e [] (hheld ▸ h.steady.full hnil)
    have hreceive : f.sub.receive.2 = { f.sub with buffer := rest ++ [e], phase := .asking } := by
      simp only [Subscription.receive, hbuffer, hphase]
    rw [rank_eq hphase rfl]
    refine passes_of_grade ?_ hphase idle (congrArg Subscription.phase hreceive) idle
      (by decide : 0 < 2)
    exact congrArg (max f.since ·.cursor) hreceive.symm
  | pausing t =>
    have idle := h.sound.idle fun asking => by rw [hphase] at asking; cases asking
    have hwake : f.sub.wake f.course.now = { f.sub with phase := .asking } := by
      simp only [Subscription.wake, hphase, if_pos (due t hphase)]
    rw [rank_eq hphase rfl]
    refine passes_of_grade ?_ hphase idle (congrArg Subscription.phase hwake) idle
      (by decide : 1 < 2)
    exact congrArg (max f.since ·.cursor) hwake.symm

theorem Does.reached_le (h : f.Does t g) (hf : f.Sound) (hs : f.Steady) :
    f.reached ≤ g.reached := by
  cases h with
  | look => exact Nat.le_trans (hf.advance .look).reached_le (Nat.le_max_left _ _)
  | take told => exact Nat.le_trans (reached_lt_take hf hs told).1.le (Nat.le_max_right _ _)
  | _ => exact Nat.le_refl _

theorem Does.received_le (h : f.Does t g) : f.received.length ≤ g.received.length := by
  cases h with
  | receive =>
    show _ ≤ (f.received ++ f.sub.receive.1.toList).length
    rw [List.length_append]
    exact Nat.le_add_right _ _
  | _ => exact Nat.le_refl _

/-- A change that the subscription has come to is on its way to the reader, and there are fewer
events before it than its index says. -/
theorem Owes.on_its_way (h : f.Owes x) (behind : x.index ≤ f.reached)
    (missing : ¬ f.AccountsFor x) : f.received.length < x.index ∧ f.sub.buffer ≠ [] := by
  obtain ⟨unreceived, unskipped⟩ := not_or.mp missing
  obtain ⟨before, rest, hlog⟩ := List.append_of_mem h.recorded
  have hlength : x.index = before.length + 1 := by
    have hremembers : f.course.store.Remembers (before ++ x :: rest) := hlog ▸ h.sound.remembers
    have hlt : before.length < (before ++ x :: rest).length := by
      simp only [List.length_append, List.length_cons]
      omega
    have hindex := hremembers.getElem_index hlt
    rwa [List.getElem_append_right (Nat.le_refl _), List.getElem_cons,
      dif_pos (Nat.sub_self _)] at hindex
  have hshows : f.Shows x :=
    ⟨behind, Nat.lt_of_not_le fun hle => h.kept (.inl hle), h.covered,
      fun g hg hin => unskipped ⟨g, hg, hin⟩⟩
  have hdelivered := h.sound.delivered h.going
  rw [hlog, List.filter_append, List.filter_cons_of_pos (by exact decide_eq_true hshows),
    List.map_append, List.map_cons] at hdelivered
  obtain ⟨missed, hbefore, hpending⟩ : ∃ missed,
      (before.filter f.Shows).map (fun c => Event.ofResponse c.response) = f.received ++ missed ∧
      f.sub.pending = missed ++ Event.ofResponse x.response ::
        (rest.filter f.Shows).map fun c => Event.ofResponse c.response := by
    rcases List.append_eq_append_iff.mp hdelivered with hfirst | ⟨more, hreceived, hmore⟩
    · exact hfirst
    · cases more with
      | nil =>
        rw [List.append_nil] at hreceived
        exact ⟨[], by rw [hreceived, List.append_nil], hmore.symm⟩
      | cons e more =>
        obtain ⟨rfl, -⟩ := List.cons.inj hmore
        exact absurd (hreceived ▸ List.mem_append_right _ List.mem_cons_self) unreceived
  refine ⟨?_, fun hnil => ?_⟩
  · have hfewer := congrArg List.length hbefore
    have hfilter := before.length_filter_le f.Shows
    rw [List.length_map, List.length_append] at hfewer
    omega
  · have hnone : f.sub.pending = [] := by
      rw [Subscription.pending, h.steady.full hnil, hnil]
      rfl
    rw [hnone] at hpending
    exact List.append_ne_nil_of_right_ne_nil _ (List.cons_ne_nil _ _) hpending.symm

/-! ## Schedules without an end -/

/-- A subscription after so many turns of a schedule. -/
def along (f : Follow) (turns : Nat → Turn) : Nat → Follow
  | 0 => f
  | n + 1 => (f.along turns n).step (turns n)

/-- A schedule without failures in which everything has its turn again and again, and in which time
goes by. -/
structure Fair (turns : Nat → Turn) : Prop where
  mild : ∀ n, (turns n).IsMild
  again : ∀ t : Turn, t.IsOwn → ∀ n, ∃ m ≥ n, turns m = t
  timely : ∀ n, ∃ m ≥ n, ∃ millis > 0, turns m = .other (.pass millis)

/-- Everything has its turn, one after the other, and then a millisecond goes by. -/
def round (n : Nat) : Turn := if n % 8 < 7 then needed (n % 8) else .other (.pass 1)

theorem fair_round : Fair round := by
  have hround : ∀ n, ∀ k < 8, round (8 * n + k) = if k < 7 then needed k else .other (.pass 1) := by
    intro n k hk
    rw [round, Nat.mul_add_mod, Nat.mod_eq_of_lt hk]
  refine ⟨fun n => ?_, fun t ht n => ?_, fun n => ?_⟩
  · unfold round
    split_ifs
    · exact (needed_isOwn _).isMild
    · trivial
  · obtain ⟨k, hk, rfl⟩ := exists_needed ht
    exact ⟨8 * n + k, by omega, by rw [hround n k (by omega), if_pos hk]⟩
  · exact ⟨8 * n + 7, by omega, 1, Nat.one_pos, hround n 7 (by omega)⟩

theorem exists_ge_of_rises (μ : Nat → Nat) (Done : Nat → Prop) {start : Nat}
    (rises : ∀ n ≥ start, ¬ Done n → ∃ m ≥ n, Done m ∨ μ n < μ m) (bound : Nat) :
    ∃ n ≥ start, Done n ∨ bound ≤ μ n := by
  induction bound with
  | zero => exact ⟨start, Nat.le_refl _, .inr (Nat.zero_le _)⟩
  | succ bound ih =>
    obtain ⟨n, hn, hdone | hle⟩ := ih
    · exact ⟨n, hn, .inl hdone⟩
    · by_cases hdone : Done n
      · exact ⟨n, hn, .inl hdone⟩
      · obtain ⟨m, hm, hrisen⟩ := rises n hn hdone
        exact ⟨m, Nat.le_trans hn hm, hrisen.imp_right fun hlt => by omega⟩

section Along

variable {turns : Nat → Turn} {n m : Nat}

theorem along_le (μ : Follow → Nat) (hstep : ∀ n, μ (f.along turns n) ≤ μ (f.along turns (n + 1)))
    (h : n ≤ m) : μ (f.along turns n) ≤ μ (f.along turns m) :=
  monotone_nat_of_le_succ (f := fun n => μ (f.along turns n)) hstep h

theorem now_along_le (f : Follow) (turns : Nat → Turn) (h : n ≤ m) :
    (f.along turns n).course.now ≤ (f.along turns m).course.now :=
  along_le (·.course.now) (fun _ => (step_does _ _).now_le) h

theorem Fair.exists_now (fair : Fair turns) (f : Follow) (n time : Nat) :
    ∃ m ≥ n, time ≤ (f.along turns m).course.now := by
  have hrises : ∀ k ≥ n, ¬ False → ∃ m ≥ k,
      False ∨ (f.along turns k).course.now < (f.along turns m).course.now := by
    intro k _ _
    obtain ⟨m, hm, millis, hpos, hpass⟩ := fair.timely k
    refine ⟨m + 1, Nat.le_succ_of_le hm, .inr ?_⟩
    have hle := now_along_le f turns hm
    have hnow : (f.along turns (m + 1)).course.now = (f.along turns m).course.now + millis := by
      rw [along, hpass]
      rfl
    omega
  obtain ⟨m, hm, hfalse | hle⟩ := exists_ge_of_rises _ _ hrises time
  · exact hfalse.elim
  · exact ⟨m, hm, hle⟩

theorem Owes.along (h : f.Owes x) (fair : Fair turns) (n : Nat) : (f.along turns n).Owes x := by
  induction n with
  | zero => exact h
  | succ n ih => exact ih.step (fair.mild n)

theorem Owes.reached_along (h : f.Owes x) (fair : Fair turns) (hle : n ≤ m) :
    (f.along turns n).reached ≤ (f.along turns m).reached :=
  along_le reached (fun k =>
    (step_does _ _).reached_le (h.along fair k).sound (h.along fair k).steady) hle

/-- How far a subscription has come, in one number. -/
def effort (f : Follow) : Nat := 8 * f.reached + f.rank

theorem Passes.effort_lt (h : f.Passes g) : f.effort < g.effort := by
  have hf := f.rank_le
  unfold effort
  rcases h with hlt | ⟨heq, hlt⟩ <;> omega

/-- As long as a change is ahead, nothing is done in vain. -/
theorem Owes.effort_along (h : f.Owes x) (fair : Fair turns) (hle : n ≤ m)
    (ahead : (f.along turns m).reached < x.index)
    (same : (f.along turns m).effort ≤ (f.along turns n).effort) :
    (f.along turns m).effort = (f.along turns n).effort ∧
      (f.along turns m).sub.phase = (f.along turns n).sub.phase := by
  induction m, hle using Nat.le_induction with
  | base => exact ⟨rfl, rfl⟩
  | succ m hm ih =>
    have hreached := h.reached_along fair (show m ≤ m + 1 from Nat.le_succ m)
    replace ih := ih (by omega)
    rcases (h.along fair m).progress (fair.mild m) (by omega) with hpasses | ⟨heq, hrank, hphase⟩
    · have hlt : (f.along turns m).effort < (f.along turns (m + 1)).effort := hpasses.effort_lt
      have := ih (by omega)
      omega
    · have heffort : (f.along turns (m + 1)).effort = (f.along turns m).effort := by
        rw [effort, effort, heq, hrank]
        rfl
      obtain ⟨ihe, ihp⟩ := ih (by omega)
      exact ⟨heffort.trans ihe, hphase.symm.trans ihp⟩

/-- **As long as a change is ahead, the subscription comes further in the end.** -/
theorem Owes.exists_effort (h : f.Owes x) (fair : Fair turns) (n : Nat) :
    ∃ m ≥ n, x.index ≤ (f.along turns m).reached ∨
      (f.along turns n).effort < (f.along turns m).effort := by
  -- the turn that is needed comes, after the pause if there is one
  obtain ⟨time, htime⟩ : ∃ time, ∀ t, (f.along turns n).sub.phase = .pausing t → t ≤ time := by
    cases (f.along turns n).sub.phase with
    | pausing t => exact ⟨t, fun _ ht => (Phase.pausing.inj ht).ge⟩
    | _ => exact ⟨0, nofun⟩
  obtain ⟨k, hk, hnow⟩ := fair.exists_now f n time
  obtain ⟨m, hm, hturn⟩ := fair.again _ (needed_isOwn (f.along turns n).rank) k
  have hle := Nat.le_trans hk hm
  by_cases hbehind : x.index ≤ (f.along turns m).reached
  · exact ⟨m, hle, .inl hbehind⟩
  by_cases hmore : (f.along turns n).effort < (f.along turns m).effort
  · exact ⟨m, hle, .inr hmore⟩
  obtain ⟨heffort, hphase⟩ := h.effort_along fair hle (by omega) (by omega)
  have hrank : (f.along turns m).rank = (f.along turns n).rank := by
    have := (f.along turns n).rank_le
    have := (f.along turns m).rank_le
    unfold effort at heffort
    omega
  have hpasses := (h.along fair m).passes_needed (by omega) fun t ht => by
    have := htime t (hphase ▸ ht)
    have := now_along_le f turns hm
    omega
  rw [hrank, ← hturn] at hpasses
  exact ⟨m + 1, Nat.le_succ_of_le hle, .inr (heffort ▸ hpasses.effort_lt)⟩

theorem Owes.exists_reached (h : f.Owes x) (fair : Fair turns) :
    ∃ n, x.index ≤ (f.along turns n).reached := by
  have hrises : ∀ n ≥ 0, ¬ x.index ≤ (f.along turns n).reached → _ :=
    fun n _ _ => h.exists_effort fair n
  obtain ⟨n, -, hdone | hle⟩ := exists_ge_of_rises _ _ hrises (8 * x.index)
  · exact ⟨n, hdone⟩
  · have := (f.along turns n).rank_le
    unfold effort at hle
    exact ⟨n, by omega⟩

theorem receive_length (hbuffer : f.sub.buffer ≠ []) :
    (f.step .receive).received.length = f.received.length + 1 := by
  obtain ⟨first, rest, hcons⟩ := List.exists_cons_of_ne_nil hbuffer
  have hfirst : f.sub.receive.1 = some first := by
    unfold Subscription.receive
    rw [hcons]
    dsimp only
    split <;> rfl
  show (f.received ++ f.sub.receive.1.toList).length = _
  rw [hfirst, List.length_append]
  rfl

/-- **What is still to come arrives, unless the subscription is told of a gap.** -/
theorem Owes.arrives (h : f.Owes x) (fair : Fair turns) :
    ∃ n, (f.along turns n).AccountsFor x := by
  obtain ⟨start, hstart⟩ := h.exists_reached fair
  have hway : ∀ n ≥ start, ¬ (f.along turns n).AccountsFor x →
      (f.along turns n).received.length < x.index ∧ (f.along turns n).sub.buffer ≠ [] :=
    fun n hn => (h.along fair n).on_its_way (Nat.le_trans hstart (h.reached_along fair hn))
  have hrises : ∀ n ≥ start, ¬ (f.along turns n).AccountsFor x → ∃ m ≥ n,
      (f.along turns m).AccountsFor x ∨
        (f.along turns n).received.length < (f.along turns m).received.length := by
    intro n hn _
    obtain ⟨m, hm, hturn⟩ := fair.again .receive trivial n
    by_cases hdone : (f.along turns m).AccountsFor x
    · exact ⟨m, hm, .inl hdone⟩
    · have hlength := receive_length (hway m (Nat.le_trans hn hm) hdone).2
      rw [← hturn] at hlength
      have hmono : (f.along turns n).received.length ≤ (f.along turns m).received.length :=
        along_le (·.received.length) (fun _ => (step_does _ _).received_le) hm
      refine ⟨m + 1, Nat.le_succ_of_le hm, .inr ?_⟩
      exact Nat.lt_of_le_of_lt hmono (hlength ▸ Nat.lt_succ_self _)
  obtain ⟨n, hn, hdone | hle⟩ := exists_ge_of_rises _ _ hrises x.index
  · exact ⟨n, hdone⟩
  · by_contra hnone
    have := (hway n hn fun hdone => hnone ⟨n, hdone⟩).1
    omega

end Along

end Follow

end ClusterRegistry
