import ClusterRegistry.Proofs.Store.Answer
import ClusterRegistry.Proofs.Watch.Buffer

/-!
# Following a key

A subscription at a store, with everything that may come in between. Its wait takes four turns: it
starts, listens for signals, looks at the history, and is told something or parks. Others may change
the store before each of them, and the wait may fail at any point.

* `Stage`, `Follow`, `Turn`, `Follow.run`: a subscription and its wait, turn by turn;
* `Follow.Shows`: the changes that the reader is to see by now;
* `Follow.Does`, `Follow.step_does`: what a turn does, case by case;
* `Follow.Knows`, `Follow.Sound`: what a stage says about the log, and what always holds;
* **`Follow.Does.sound`**, **`Follow.run_delivers`**: the reader sees just these changes, in order.
-/

namespace ClusterRegistry

/-- How far the wait of a subscription has come. -/
inductive Stage
  | idle
  /-- It is after a change with an index above this one. -/
  | begun (after : Nat)
  /-- It listens for signals, of which there have been so many. -/
  | armed (after seen : Nat)
  | parked (w : Wait)
  /-- The store has answered, and the subscription has not noticed yet. -/
  | told (after : Nat) (answer : Except Refusal Response)

/-- A subscription at a store, with all that its reader has received. `since` is the index of the
store when the last wait for the next change started, and `skipped` are the gaps in the history that
the subscription was told of. -/
structure Follow where
  course : Course := {}
  sub : Subscription
  stage : Stage := .idle
  received : List Event := []
  since : Nat := 0
  skipped : List (Nat × Nat) := []

/-- The next thing that happens to a subscription at a store. -/
inductive Turn
  /-- Something happens to the store, or time goes by. -/
  | other (st : Step)
  | start | arm | check | wake | take
  /-- The wait fails without having been answered by the store. -/
  | fail (f : RequestFailure)
  | unpause | receive | cancel

namespace Follow

/-- The key that is followed. -/
def key (f : Follow) : Key := .ofPath f.sub.path

/-- The index up to which the subscription has come. -/
def reached (f : Follow) : Nat := max f.since f.sub.cursor

/-- The gap that an answer to a wait after an index speaks of. -/
def gap (after : Nat) : Except Refusal Response → List (Nat × Nat)
  | .ok _ => []
  | .error r => if r.code = Refusal.eventIndexCleared then [(after, r.index)] else []

/-- A wait starts, unless there is one. One for the next change looks up the index of the store. -/
def start (f : Follow) : Follow :=
  match f.sub.phase, f.stage with
  | .asking, .idle =>
    if f.sub.cursor = 0 then
      { f with
        course := f.course.step .look
        since := (f.course.step .look).store.index
        stage := .begun (f.course.step .look).store.index }
    else { f with stage := .begun f.sub.cursor }
  | _, _ => f

/-- The wait looks at the history. -/
def check (f : Follow) (after seen : Nat) : Follow :=
  { f with
    course := f.course.step .look
    stage := match (f.course.store.await f.course.now f.key f.sub.recursive after).2 with
      | .inl answer => .told after answer
      | .inr w => .parked { w with seen := seen } }

/-- The subscription takes an answer of the store. -/
def take (f : Follow) (after : Nat) (answer : Except Refusal Response) : Follow :=
  { f with
    sub := f.sub.answered f.course.now (answer.mapError .refused)
    stage := .idle
    skipped := f.skipped ++ gap after answer }

/-- The next thing happens. A turn that makes no sense at the moment changes nothing. -/
def step (f : Follow) : Turn → Follow
  | .other st => { f with course := f.course.step st }
  | .start => f.start
  | .arm =>
    match f.stage with
    | .begun after => { f with stage := .armed after f.course.store.signals }
    | _ => f
  | .check =>
    match f.stage with
    | .armed after seen => f.check after seen
    | _ => f
  | .wake =>
    match f.stage with
    | .parked w =>
      if w.IsWoken f.course.store f.course.now then { f with stage := .begun w.after } else f
    | _ => f
  | .take =>
    match f.stage with
    | .told after answer => f.take after answer
    | _ => f
  | .fail failure =>
    if f.sub.phase = .asking ∧ ¬ failure.IsCleared then
      { f with sub := f.sub.answered f.course.now (.error failure), stage := .idle }
    else f
  | .unpause => { f with sub := f.sub.wake f.course.now }
  | .receive => { f with sub := f.sub.receive.2, received := f.received ++ f.sub.receive.1.toList }
  | .cancel => { f with sub := f.sub.cancel, stage := .idle }

variable {f : Follow}

/-- A new subscription of a client at a new store. -/
def run (c : Client) (path : String) (recursive : Bool) (turns : List Turn) : Follow :=
  turns.foldl step { sub := c.subscription path recursive }

/-- A change that the reader wants to see: one of the key that is followed, not before the start
and not in a gap. -/
def Wants (f : Follow) (c : Change) : Prop :=
  f.since < c.index ∧ f.key.Covers f.sub.recursive c.key ∧
    ∀ g ∈ f.skipped, ¬ (g.1 < c.index ∧ c.index ≤ g.2)

instance (f : Follow) : DecidablePred f.Wants := fun c => by unfold Wants; infer_instance

/-- A change that the reader is to see by now. -/
def Shows (f : Follow) (c : Change) : Prop := c.index ≤ f.reached ∧ f.Wants c

instance (f : Follow) : DecidablePred f.Shows := fun c => by unfold Shows; infer_instance

/-- **Without anything in between, the turns of a wait are what the store does in one.** -/
theorem step_check_eq (hphase : f.sub.phase = .asking) (hstage : f.stage = .idle) :
    (((f.step .start).step .arm).step .check).course.store =
      (f.course.store.beginWait f.course.now f.sub.path f.sub.options).1 ∧
    ∃ after seen, (((f.step .start).step .arm).step .check).stage =
      match (f.course.store.beginWait f.course.now f.sub.path f.sub.options).2 with
      | .inl answer => .told after answer
      | .inr w => .parked { w with seen := seen } := by
  have hself := Store.expire_expire f.course.store f.course.now
  rw [Store.beginWait_store]
  unfold Store.beginWait
  dsimp only
  rw [Store.await_eq, hself]
  by_cases hcursor : f.sub.cursor = 0
  · have hstart : f.step .start = { f with
        course := f.course.step .look
        since := (f.course.step .look).store.index
        stage := .begun (f.course.step .look).store.index } := by
      simp only [step, start, hphase, hstage, if_pos hcursor]
    rw [hstart, if_pos (show f.sub.options.after = 0 from hcursor)]
    refine ⟨?_, (f.course.step .look).store.index, (f.course.step .look).store.signals, ?_⟩
    · simp only [step, check, Course.step, hself]
    · simp only [step, check, key, Subscription.options, Store.await_eq, Course.step, hself]
  · have hstart : f.step .start = { f with stage := .begun f.sub.cursor } := by
      simp only [step, start, hphase, hstage, if_neg hcursor]
    rw [hstart, if_neg (show ¬ f.sub.options.after = 0 from hcursor)]
    refine ⟨rfl, f.sub.cursor, f.course.store.signals, ?_⟩
    simp only [step, check, key, Subscription.options, Store.await_eq]

/-! ## What a turn does -/

variable {g : Follow} {t : Turn}

/-- What a turn does, case by case. -/
inductive Does (f : Follow) : Turn → Follow → Prop
  | nothing (t : Turn) : Does f t f
  | other (st : Step) : Does f (.other st) { f with course := f.course.step st }
  | look (asking : f.sub.phase = .asking) (idle : f.stage = .idle) (first : f.sub.cursor = 0) :
      Does f .start { f with
        course := f.course.step .look
        since := (f.course.step .look).store.index
        stage := .begun (f.course.step .look).store.index }
  | start (asking : f.sub.phase = .asking) (idle : f.stage = .idle) (further : f.sub.cursor ≠ 0) :
      Does f .start { f with stage := .begun f.sub.cursor }
  | arm {after : Nat} (begun : f.stage = .begun after) :
      Does f .arm { f with stage := .armed after f.course.store.signals }
  | check {after seen : Nat} (armed : f.stage = .armed after seen) :
      Does f .check (f.check after seen)
  | wake {w : Wait} (parked : f.stage = .parked w) (woken : w.IsWoken f.course.store f.course.now) :
      Does f .wake { f with stage := .begun w.after }
  | take {after : Nat} {answer : Except Refusal Response} (told : f.stage = .told after answer) :
      Does f .take (f.take after answer)
  | fail {failure : RequestFailure} (asking : f.sub.phase = .asking)
      (uncleared : ¬ failure.IsCleared) :
      Does f (.fail failure) { f with
        sub := { f.sub with
          phase := if failure.kind = .permanent then .ended
            else .pausing (f.course.now + f.sub.retryDelay) }
        stage := .idle }
  | unpause {t : Nat} (pausing : f.sub.phase = .pausing t) :
      Does f .unpause { f with sub := { f.sub with phase := .asking } }
  | receive : Does f .receive { f with
      sub := { f.sub with
        buffer := f.sub.receive.2.buffer
        phase := f.sub.receive.2.phase }
      received := f.received ++ f.sub.receive.1.toList }
  | cancel : Does f .cancel { f with sub := { f.sub with phase := .ended }, stage := .idle }

theorem step_does (f : Follow) (t : Turn) : f.Does t (f.step t) := by
  cases t with
  | other st => exact .other st
  | start =>
    unfold step start
    dsimp only
    split
    · rename_i hphase hstage
      split_ifs with hcursor
      · exact .look hphase hstage hcursor
      · exact .start hphase hstage hcursor
    · exact .nothing _
  | arm =>
    unfold step
    dsimp only
    split
    · rename_i hstage
      exact .arm hstage
    · exact .nothing _
  | check =>
    unfold step
    dsimp only
    split
    · rename_i hstage
      exact .check hstage
    · exact .nothing _
  | wake =>
    unfold step
    dsimp only
    split
    · rename_i hstage
      split_ifs with hwoken
      · exact .wake hstage hwoken
      · exact .nothing _
    · exact .nothing _
  | take =>
    unfold step
    dsimp only
    split
    · rename_i hstage
      exact .take hstage
    · exact .nothing _
  | fail failure =>
    unfold step
    dsimp only
    split_ifs with hasked
    · rw [Subscription.answered_failure hasked.2]
      exact .fail hasked.1 hasked.2
    · exact .nothing _
  | unpause =>
    unfold step
    dsimp only
    rcases f.sub.wake_eq f.course.now with heq | ⟨⟨t, hphase⟩, heq⟩
    · rw [heq]
      exact .nothing _
    · rw [heq]
      exact .unpause hphase
  | receive =>
    unfold step
    dsimp only
    rw [f.sub.receive_eq]
    exact .receive
  | cancel => exact .cancel

/-! ## What always holds -/

/-- What the stage of a wait says about the log and the signals. -/
def Knows (f : Follow) : Stage → Prop
  | .idle => True
  | .begun after => after = f.reached
  | .armed after seen => after = f.reached ∧ seen ≤ f.course.store.signals
  | .parked w => w.after = f.reached ∧ w.seen ≤ f.course.store.signals ∧
      (w.seen = f.course.store.signals → ∀ c ∈ f.course.log, w.after < c.index →
        ¬ f.key.Covers f.sub.recursive c.key)
  | .told after (.ok response) => after = f.reached ∧
      ∃ c, Store.IsFirst f.course.log f.key f.sub.recursive after c ∧ response = c.response
  | .told after (.error refusal) => after = f.reached ∧
      refusal.code = Refusal.eventIndexCleared ∧ after ≤ refusal.index ∧
      refusal.index ≤ f.course.store.index

/-- What always holds of a subscription at a store. -/
structure Sound (f : Follow) : Prop where
  remembers : f.course.store.Remembers f.course.log
  reached_le : f.reached ≤ f.course.store.index
  since_le : f.sub.cursor ≠ 0 → f.since ≤ f.sub.cursor
  gaps : ∀ g ∈ f.skipped, g.2 ≤ f.sub.cursor
  asking : f.stage ≠ .idle → f.sub.phase = .asking
  knows : f.Knows f.stage
  delivered : f.sub.phase ≠ .ended → f.received ++ f.sub.pending =
    (f.course.log.filter f.Shows).map fun c => .ofResponse c.response

theorem Sound.asking_of (h : f.Sound) {s : Stage} (hstage : f.stage = s) (hne : s ≠ .idle) :
    f.sub.phase = .asking :=
  h.asking (hstage ▸ hne)

theorem Sound.idle (h : f.Sound) (hphase : f.sub.phase ≠ .asking) : f.stage = .idle :=
  by_contra fun hne => hphase (h.asking hne)

theorem filter_shows (f : Follow) (h : f.sub.cursor = 0) (log : List Change) :
    log.filter f.Shows = [] := by
  refine List.filter_eq_nil_iff.mpr fun c _ hc => ?_
  obtain ⟨hle, habove, -⟩ := of_decide_eq_true hc
  rw [reached, h] at hle
  omega

/-- **Whatever happens to the store, the subscription stays sound.** -/
theorem Sound.advance (h : f.Sound) (st : Step) :
    ({ f with course := f.course.step st } : Follow).Sound := by
  obtain ⟨new, hedits, hlog, hsignals, hquiet⟩ := f.course.step_edits st
  have hindex := hedits.index
  have hreached := h.reached_le
  have hnew : ∀ c ∈ new, f.course.store.index < c.index := fun c hc => hedits.index_lt hc
  refine ⟨?_, ?_, h.since_le, h.gaps, h.asking, ?_, fun hphase => ?_⟩
  · exact f.course.step_keep st (P := Store.Remembers) (fun _ _ _ _ _ edit h => edit.remembers h)
      h.remembers
  · show f.reached ≤ (f.course.step st).store.index
    omega
  · have hknows := h.knows
    cases hstage : f.stage with
    | idle => trivial
    | begun after =>
      rw [hstage] at hknows
      exact hknows
    | armed after seen =>
      rw [hstage] at hknows
      exact ⟨hknows.1, Nat.le_trans hknows.2 hsignals⟩
    | parked w =>
      rw [hstage] at hknows
      obtain ⟨hafter, hseen, hnone⟩ := hknows
      refine ⟨hafter, Nat.le_trans hseen hsignals, fun heq => ?_⟩
      -- no signal, hence no change
      replace heq : w.seen = (f.course.step st).store.signals := heq
      show ∀ c ∈ (f.course.step st).log, _
      rw [hlog, hquiet (by omega), List.append_nil]
      exact hnone (by omega)
    | told after answer =>
      rw [hstage] at hknows
      cases answer with
      | ok response =>
        obtain ⟨hafter, c, hc, hresponse⟩ := hknows
        refine ⟨hafter, c, ?_, hresponse⟩
        show Store.IsFirst (f.course.step st).log _ _ _ _
        rw [hlog]
        refine hc.append fun x hx => ?_
        have := hnew x hx
        have := h.remembers.index_le hc.mem
        omega
      | error refusal =>
        obtain ⟨hafter, hcode, hle, hge⟩ := hknows
        refine ⟨hafter, hcode, hle, ?_⟩
        show refusal.index ≤ (f.course.step st).store.index
        omega
  · have hnone : new.filter f.Shows = [] := by
      refine List.filter_eq_nil_iff.mpr fun c hc hshows => ?_
      have := hnew c hc
      have := (of_decide_eq_true hshows).1
      omega
    show f.received ++ f.sub.pending = ((f.course.step st).log.filter f.Shows).map _
    rw [h.delivered hphase, hlog, List.filter_append, hnone, List.append_nil]

/-! ## The turns of a wait -/

theorem Sound.look (h : f.Sound) (asking : f.sub.phase = .asking) (first : f.sub.cursor = 0) :
    ({ f with
      course := f.course.step .look
      since := (f.course.step .look).store.index
      stage := .begun (f.course.step .look).store.index } : Follow).Sound := by
  have hlater := h.advance .look
  have hnil : f.received ++ f.sub.pending = [] := by
    rw [h.delivered (by rw [asking]; exact nofun), filter_shows f first]
    rfl
  refine ⟨hlater.remembers, ?_, fun hne => absurd first hne, h.gaps, fun _ => asking, ?_,
    fun _ => ?_⟩
  · show max (f.course.step .look).store.index f.sub.cursor ≤ (f.course.step .look).store.index
    omega
  · show _ = max (f.course.step .look).store.index f.sub.cursor
    omega
  · show f.received ++ f.sub.pending = _
    rw [hnil, filter_shows _ (by exact first)]
    rfl

theorem Sound.start (h : f.Sound) (asking : f.sub.phase = .asking) (further : f.sub.cursor ≠ 0) :
    ({ f with stage := .begun f.sub.cursor } : Follow).Sound := by
  refine ⟨h.remembers, h.reached_le, h.since_le, h.gaps, fun _ => asking, ?_, h.delivered⟩
  show f.sub.cursor = max f.since f.sub.cursor
  exact (Nat.max_eq_right (h.since_le further)).symm

theorem Sound.check (h : f.Sound) {after seen : Nat} (hstage : f.stage = .armed after seen) :
    (f.check after seen).Sound := by
  have hphase := h.asking_of hstage nofun
  have hknows := h.knows
  rw [hstage] at hknows
  obtain ⟨hafter, hseen⟩ := hknows
  have hlater := h.advance .look
  have hremembers := hlater.remembers
  have hsignals := Store.signals_le_expire f.course.store f.course.now
  refine ⟨hremembers, hlater.reached_le, h.since_le, h.gaps, fun _ => hphase, ?_,
    hlater.delivered⟩
  unfold Follow.check
  dsimp only
  rw [Store.await_eq]
  cases hanswer : (f.course.store.expire f.course.now).answer? f.key f.sub.recursive after with
  | none =>
    refine ⟨hafter, Nat.le_trans hseen hsignals, fun _ => ?_⟩
    exact hremembers.silent hanswer
  | some answer =>
    cases answer with
    | ok response => exact ⟨hafter, hremembers.isFirst hanswer⟩
    | error refusal =>
      obtain ⟨hcode, hindex, hlt, hle⟩ := hremembers.forgotten hanswer
      exact ⟨hafter, hcode, by omega, hindex.le⟩

theorem Sound.told_ok (h : f.Sound) {after : Nat} {response : Response}
    (hstage : f.stage = .told after (.ok response)) : f.sub.phase = .asking ∧ after = f.reached ∧
      ∃ c, Store.IsFirst f.course.log f.key f.sub.recursive after c ∧ response = c.response ∧
        (f.take after (.ok response)).sub =
          ({ f.sub with cursor := c.index } : Subscription).offer (.ofResponse c.response) := by
  have hphase := h.asking_of hstage nofun
  have hknows := h.knows
  rw [hstage] at hknows
  obtain ⟨hafter, c, hc, rfl⟩ := hknows
  have habove := hc.above
  have hle : f.sub.cursor ≤ after := by
    rw [hafter, reached]
    omega
  have hstamp : c.response.node.modifiedIndex = c.index := h.remembers.stamped c hc.mem
  refine ⟨hphase, hafter, c, hc, rfl, ?_⟩
  show ({ f.sub with cursor := max c.response.node.modifiedIndex f.sub.cursor } :
    Subscription).offer (.ofResponse c.response) = _
  rw [hstamp, Nat.max_eq_left (by omega)]

theorem Sound.told_error (h : f.Sound) {after : Nat} {refusal : Refusal}
    (hstage : f.stage = .told after (.error refusal)) : f.sub.phase = .asking ∧ after = f.reached ∧
      after ≤ refusal.index ∧ refusal.index ≤ f.course.store.index ∧
      (f.take after (.error refusal)).sub =
        { f.sub with cursor := refusal.index, phase := .asking } ∧
      (f.take after (.error refusal)).skipped = f.skipped ++ [(after, refusal.index)] := by
  have hphase := h.asking_of hstage nofun
  have hknows := h.knows
  rw [hstage] at hknows
  obtain ⟨hafter, hcode, hle, hindex⟩ := hknows
  exact ⟨hphase, hafter, hle, hindex, Subscription.answered_cleared hcode,
    congrArg (f.skipped ++ ·) (if_pos hcode)⟩

/-- **The subscription notes the change that it was told of, and that is the next one that its
reader wants.** -/
theorem Sound.take_ok (h : f.Sound) {after : Nat} {response : Response}
    (hstage : f.stage = .told after (.ok response)) : (f.take after (.ok response)).Sound := by
  obtain ⟨hphase, hafter, c, hc, rfl, hsub⟩ := h.told_ok hstage
  have habove := hc.above
  have hle : f.since ≤ after ∧ f.sub.cursor ≤ after := by
    rw [hafter, reached]
    omega
  have hcursor : (f.take after (.ok c.response)).sub.cursor = c.index := by
    rw [hsub, Subscription.offer_cursor]
  have hreached : (f.take after (.ok c.response)).reached = c.index := by
    rw [reached, hcursor]
    show max f.since c.index = c.index
    omega
  have hskipped : (f.take after (.ok c.response)).skipped = f.skipped := List.append_nil _
  have hwants : ∀ x, (f.take after (.ok c.response)).Wants x ↔ f.Wants x := by
    intro x
    have hcontinues := Subscription.offer_continues ({ f.sub with cursor := c.index })
      (.ofResponse c.response)
    rw [Wants, Wants, hskipped, key, hsub, hcontinues.path, hcontinues.recursive]
    rfl
  have hgap : ∀ g ∈ f.skipped, g.2 ≤ after := fun g hg => Nat.le_trans (h.gaps g hg) hle.2
  refine ⟨h.remembers, ?_, ?_, ?_, fun hne => absurd rfl hne, trivial, fun _ => ?_⟩
  · rw [hreached]
    exact h.remembers.index_le hc.mem
  · intro _
    rw [hcursor]
    show f.since ≤ c.index
    omega
  · intro g hg
    rw [hskipped] at hg
    rw [hcursor]
    have := hgap g hg
    omega
  · have hlog : f.course.log.filter (f.take after (.ok c.response)).Shows =
        f.course.log.filter f.Shows ++ [c] := by
      have hwanted : f.Wants c :=
        ⟨by omega, hc.covered, fun g hg hin => by have := hgap g hg; omega⟩
      have hfirst := hc.filter_eq h.remembers.sorted (fun x hx => hx.2.1) hwanted
      simp only [Shows, hreached, hwants, ← hafter]
      exact hfirst
    show f.received ++ (f.take after (.ok c.response)).sub.pending =
      (f.course.log.filter _).map _
    rw [hlog, hsub, Subscription.pending_offer (by exact hphase), List.map_append, ← h.delivered
      (by rw [hphase]; exact nofun), List.append_assoc]
    rfl

/-- **A gap that the subscription is told of is left out, and nothing else.** -/
theorem Sound.take_error (h : f.Sound) {after : Nat} {refusal : Refusal}
    (hstage : f.stage = .told after (.error refusal)) :
    (f.take after (.error refusal)).Sound := by
  obtain ⟨hphase, hafter, hle, hindex, hsub, hskipped⟩ := h.told_error hstage
  have hsince : f.since ≤ after ∧ f.sub.cursor ≤ after := by
    rw [hafter, reached]
    omega
  have hreached : (f.take after (.error refusal)).reached = refusal.index := by
    rw [reached, hsub]
    show max f.since refusal.index = refusal.index
    omega
  refine ⟨h.remembers, ?_, ?_, ?_, fun hne => absurd rfl hne, trivial, fun _ => ?_⟩
  · rw [hreached]
    exact hindex
  · intro _
    rw [hsub]
    show f.since ≤ refusal.index
    omega
  · intro g hg
    rw [hskipped] at hg
    rw [hsub]
    show g.2 ≤ refusal.index
    rcases List.mem_append.mp hg with hg | hg
    · have := h.gaps g hg
      omega
    · rw [List.mem_singleton.mp hg]
  · have hlog : f.course.log.filter (f.take after (.error refusal)).Shows =
        f.course.log.filter f.Shows := by
      refine List.filter_congr fun x _ => decide_eq_decide.mpr ?_
      rw [Shows, Shows, hreached, Wants, Wants, hskipped, key, hsub, ← hafter]
      simp only [List.forall_mem_append, List.forall_mem_singleton]
      show x.index ≤ refusal.index ∧ f.since < x.index ∧ f.key.Covers f.sub.recursive x.key ∧ _ ↔ _
      constructor
      · rintro ⟨hx, habove, hcovered, hgaps, hgap⟩
        exact ⟨by omega, habove, hcovered, hgaps⟩
      · rintro ⟨hx, habove, hcovered, hgaps⟩
        exact ⟨by omega, habove, hcovered, hgaps, by omega⟩
    have hpending : (f.take after (.error refusal)).sub.pending = f.sub.pending := by
      rw [hsub, Subscription.pending, Subscription.pending, Subscription.held_of_asking hphase]
      rfl
    show f.received ++ (f.take after (.error refusal)).sub.pending = (f.course.log.filter _).map _
    rw [hlog, hpending]
    exact h.delivered (by rw [hphase]; exact nofun)

theorem Sound.move (h : f.Sound) {buffer : List Event} (received : List Event) {phase : Phase}
    (asking : f.stage ≠ .idle → phase = .asking)
    (moved : phase ≠ .ended → f.sub.phase ≠ .ended ∧
      received ++ ({ f.sub with buffer := buffer, phase := phase } : Subscription).pending =
        f.received ++ f.sub.pending) :
    ({ f with
      sub := { f.sub with buffer := buffer, phase := phase }
      received := received } : Follow).Sound := by
  refine ⟨h.remembers, h.reached_le, h.since_le, h.gaps, asking, ?_, fun hphase => ?_⟩
  · have hknows := h.knows
    cases hstage : f.stage with
    | told after answer =>
      rw [hstage] at hknows
      cases answer <;> exact hknows
    | _ =>
      rw [hstage] at hknows
      exact hknows
  · obtain ⟨hbefore, hmoved⟩ := moved hphase
    exact hmoved.trans (h.delivered hbefore)

theorem Sound.fail (h : f.Sound) (asking : f.sub.phase = .asking) {phase : Phase}
    (empty : ({ f.sub with phase := phase } : Subscription).held = []) :
    ({ f with sub := { f.sub with phase := phase }, stage := .idle } : Follow).Sound := by
  have hidle : ({ f with stage := .idle } : Follow).Sound :=
    ⟨h.remembers, h.reached_le, h.since_le, h.gaps, fun hne => absurd rfl hne, trivial,
      h.delivered⟩
  refine hidle.move f.received (fun hne => absurd rfl hne) fun _ => ⟨?_, ?_⟩
  · rw [asking]
    exact nofun
  · rw [Subscription.pending, Subscription.pending, Subscription.held_of_asking asking, empty]

theorem Sound.unpause (h : f.Sound) {t : Nat} (pausing : f.sub.phase = .pausing t) :
    ({ f with sub := { f.sub with phase := .asking } } : Follow).Sound := by
  refine h.move f.received (fun _ => rfl) fun _ => ⟨?_, ?_⟩
  · rw [pausing]
    exact nofun
  · rw [Subscription.pending, Subscription.pending, Subscription.held, Subscription.held, pausing]

theorem Sound.receive (h : f.Sound) :
    ({ f with
      sub := { f.sub with buffer := f.sub.receive.2.buffer, phase := f.sub.receive.2.phase }
      received := f.received ++ f.sub.receive.1.toList } : Follow).Sound := by
  have hpending := f.sub.pending_receive
  have hphase := f.sub.receive_phase
  rw [f.sub.receive_eq] at hpending
  refine h.move _ (fun hne => ?_) fun hended => ⟨?_, ?_⟩
  · have hasking := h.asking hne
    rcases hphase with heq | ⟨⟨e, he⟩, -⟩
    · exact heq.trans hasking
    · rw [he] at hasking
      cases hasking
  · rcases hphase with heq | ⟨⟨e, he⟩, -⟩
    · rwa [← heq]
    · rw [he]
      exact nofun
  · rw [List.append_assoc, hpending]

/-! ## Every turn -/

/-- **Whatever happens, the subscription stays sound.** -/
theorem Does.sound (h : f.Does t g) (hf : f.Sound) : g.Sound := by
  have hknows := hf.knows
  cases h with
  | nothing => exact hf
  | other st => exact hf.advance st
  | look asking _ first => exact hf.look asking first
  | start asking _ further => exact hf.start asking further
  | arm begun =>
    rw [begun] at hknows
    exact ⟨hf.remembers, hf.reached_le, hf.since_le, hf.gaps, fun _ => hf.asking_of begun nofun,
      ⟨hknows, Nat.le_refl _⟩, hf.delivered⟩
  | check armed => exact hf.check armed
  | wake parked _ =>
    rw [parked] at hknows
    exact ⟨hf.remembers, hf.reached_le, hf.since_le, hf.gaps, fun _ => hf.asking_of parked nofun,
      hknows.1, hf.delivered⟩
  | @take _ answer told =>
    cases answer with
    | ok response => exact hf.take_ok told
    | error refusal => exact hf.take_error told
  | fail asking _ => exact hf.fail asking (Subscription.held_of_failed _ _ _)
  | unpause pausing => exact hf.unpause pausing
  | receive => exact hf.receive
  | cancel =>
    exact ⟨hf.remembers, hf.reached_le, hf.since_le, hf.gaps, fun hne => absurd rfl hne, trivial,
      fun hne => absurd rfl hne⟩

theorem step_sound (h : f.Sound) (t : Turn) : (f.step t).Sound := (f.step_does t).sound h

theorem run_append (c : Client) (path : String) (recursive : Bool) (turns : List Turn) (t : Turn) :
    run c path recursive (turns ++ [t]) = (run c path recursive turns).step t := by
  rw [run, List.foldl_append]
  rfl

theorem run_sound (c : Client) (path : String) (recursive : Bool) (turns : List Turn) :
    (run c path recursive turns).Sound := by
  induction turns using List.reverseRecOn with
  | nil =>
    exact ⟨.empty, Nat.le_refl _, fun hne => absurd rfl hne, nofun, fun hne => absurd rfl hne,
      trivial, fun _ => rfl⟩
  | append_singleton turns t ih =>
    rw [run_append]
    exact step_sound ih t

theorem Does.continues (h : f.Does t g) : f.sub.Continues g.sub := by
  cases h with
  | take => exact Subscription.answered_continues _ _ _
  | receive =>
    have hcontinues := f.sub.receive_continues
    rwa [f.sub.receive_eq] at hcontinues
  | _ => exact ⟨rfl, rfl, rfl, id⟩

theorem step_continues (f : Follow) (t : Turn) : f.sub.Continues (f.step t).sub :=
  (f.step_does t).continues

theorem run_continues (c : Client) (path : String) (recursive : Bool) (turns : List Turn) :
    (c.subscription path recursive).Continues (run c path recursive turns).sub := by
  induction turns using List.reverseRecOn with
  | nil => exact .refl _
  | append_singleton turns t ih =>
    rw [run_append]
    exact ih.trans (step_continues _ t)

/-- **What a reader has received, what is in the buffer and what waits for room are the changes of
the key from the start up to the cursor, in order and without a repetition, but for those in a gap.
A subscription that is parked and not woken has nothing left to report, and its buffer is never
overfull.** -/
theorem run_delivers (c : Client) (path : String) (recursive : Bool) (turns : List Turn) :
    let f := run c path recursive turns
    f.course.log.map (·.index) = List.range' 1 f.course.store.index ∧
    (f.sub.phase ≠ .ended →
      f.received ++ f.sub.buffer ++ f.sub.held =
        (f.course.log.filter fun x => x.index ≤ max f.since f.sub.cursor ∧ f.since < x.index ∧
          (Key.ofPath path).Covers recursive x.key ∧
          ∀ g ∈ f.skipped, ¬ (g.1 < x.index ∧ x.index ≤ g.2)).map
            fun x => Event.ofResponse x.response) ∧
    (∀ w, f.stage = .parked w → ¬ w.IsWoken f.course.store f.course.now →
      ∀ x ∈ f.course.log, max f.since f.sub.cursor < x.index →
        ¬ (Key.ofPath path).Covers recursive x.key) ∧
    f.sub.buffer.length ≤ max 1 c.bufferSize := by
  intro f
  have h : f.Sound := run_sound c path recursive turns
  have hsub := run_continues c path recursive turns
  have hkey : f.key = Key.ofPath path := by
    rw [key, show f.sub.path = Path.canonical path from hsub.path]
    exact congrArg Key.mk (Path.segments_render _)
  have hrecursive : f.sub.recursive = recursive := hsub.recursive
  refine ⟨h.remembers.numbered, fun hphase => ?_, fun w hstage hwoken => ?_, ?_⟩
  · rw [List.append_assoc, ← hkey]
    have hdelivered := h.delivered hphase
    simp only [Shows, Wants, hrecursive] at hdelivered
    exact hdelivered
  · have hknows := h.knows
    rw [hstage] at hknows
    obtain ⟨hafter, -, hnone⟩ := hknows
    have hquiet : w.seen = f.course.store.signals := by
      by_contra hne
      exact hwoken (Or.inl hne)
    intro x hx habove
    rw [← hkey, ← hrecursive]
    exact hnone hquiet x hx (by rw [hafter]; exact habove)
  · have hroom := hsub.room (Nat.zero_le _)
    rw [Nat.max_comm]
    exact hroom

/-- A buffer for one event: the second change waits for room until the reader has received the
first one. -/
example :
    let c : Client := { retry := .constant 10 2, timeout := 5000, bufferSize := 0 }
    let wait : List Turn := [.start, .arm, .check, .take]
    let set (value : String) : Turn := .other (.request (.set "/a" value {}))
    let before := run c "/a" false
      ([.start, .arm, .check, set "v", .wake, .arm, .check, .take, set "w"] ++ wait)
    let after := before.step .receive
    (before.sub.buffer.map (·.value), before.sub.held.map (·.value)) = ([some "v"], [some "w"]) ∧
      (after.received.map (·.value), after.sub.buffer.map (·.value), after.sub.held) =
        ([some "v"], [some "w"], []) := by
  decide +kernel

end Follow

end ClusterRegistry
