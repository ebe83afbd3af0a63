import ClusterRegistry.Proofs.Store.Silence

/-!
# Waiting again and again

Whoever waits for the changes of a key can wait again from the index of each answer. As long as
nothing is forgotten that comes after the first index, this goes through the changes of the key one
by one, whatever others do to the store in the meantime.

* `Course.HasForgotten`, `Store.Remembers.forgotten_iff`: what the history lacks;
* `Store.news`, `Store.IsFirst.news_eq`: the changes that a wait asks for, and the first of them;
* `Store.Remembers.answer_cleared`, `Store.Remembers.answer_first`, `Store.Remembers.answer_silent`:
  when a wait is refused, when it is answered and when it parks;
* `Pursuit`, `Pursuit.round`, `Pursuit.Sound`: one wait after the other, and what always holds;
* **`Pursuit.Sound.rounds`**, `Pursuit.Sound.told_of_quiet`: what has been told so far, and that it
  comes to all there is;
* **`Course.run_wait`**: a single wait, and all of them.
-/

namespace ClusterRegistry

/-- A change with an index above `after` is no longer in the history. -/
def Course.HasForgotten (c : Course) (after : Nat) : Prop :=
  ∃ x ∈ c.log, after < x.index ∧ x ∉ c.store.history

instance (c : Course) (after : Nat) : Decidable (c.HasForgotten after) := by
  unfold Course.HasForgotten; infer_instance

theorem Course.HasForgotten.mono {c : Course} {m n : Nat} (h : c.HasForgotten n) (hle : m ≤ n) :
    c.HasForgotten m :=
  have ⟨x, hx, habove, hgone⟩ := h
  ⟨x, hx, Nat.lt_of_le_of_lt hle habove, hgone⟩

/-- What a wait is told at a time when nothing is due. -/
structure Course.Hears (c : Course) (key : Key) (recursive : Bool) (after : Nat)
    (told : Except Refusal Response ⊕ Wait) : Prop where
  /-- It is refused exactly if a change with an index above that of the wait is missing. -/
  refused : (∃ refusal, told = .inl (.error refusal)) ↔ c.HasForgotten after
  refusal : ∀ refusal, told = .inl (.error refusal) →
    refusal.code = Refusal.eventIndexCleared ∧ refusal.index = c.store.index
  answered : ¬ c.HasForgotten after → ∀ response, told = .inl (.ok response) ↔
    ∃ x, Store.IsFirst c.log key recursive after x ∧ response = x.response
  parked : ¬ c.HasForgotten after →
    ((∃ w, told = .inr w) ↔ ∀ x ∈ c.log, after < x.index → ¬ key.Covers recursive x.key)

namespace Store

variable {s : Store} {log new : List Change} {key : Key} {recursive : Bool} {after now : Nat}
  {c x : Change}

/-! ## What the history lacks -/

theorem Remembers.above_evicted (h : s.Remembers log) (hc : c ∈ s.history) :
    s.evictedUpTo < c.index := by
  rw [h.kept] at hc
  obtain ⟨i, hi, rfl⟩ := List.getElem_of_mem hc
  rw [List.getElem_drop, h.getElem_index]
  omega

/-- The last change that has been forgotten is the one up to which all have been. -/
theorem Remembers.forgotten_iff (h : s.Remembers log) :
    (∃ x ∈ log, after < x.index ∧ x ∉ s.history) ↔ after < s.evictedUpTo := by
  constructor
  · rintro ⟨x, hx, habove, hgone⟩
    have hle : ¬ s.evictedUpTo < x.index := fun hlt => hgone (h.mem_history hx hlt)
    omega
  · intro hlt
    have hlen := h.length
    have hev := h.evicted
    have hi : s.evictedUpTo - 1 < log.length := by omega
    have hindex := h.getElem_index hi
    refine ⟨log[s.evictedUpTo - 1], List.getElem_mem hi, by omega, fun hin => ?_⟩
    have := h.above_evicted hin
    omega

/-! ## What a wait asks for -/

/-- The changes of a key with an index above `after`. -/
def news (log : List Change) (key : Key) (recursive : Bool) (after : Nat) : List Change :=
  log.filter fun c => after < c.index ∧ key.Covers recursive c.key

theorem mem_news : c ∈ news log key recursive after ↔
    c ∈ log ∧ after < c.index ∧ key.Covers recursive c.key := by
  rw [news, List.mem_filter, decide_eq_true_iff]

theorem news_eq_nil : news log key recursive after = [] ↔
    ∀ c ∈ log, after < c.index → ¬ key.Covers recursive c.key := by
  rw [List.eq_nil_iff_forall_not_mem]
  exact forall_congr' fun c => by rw [mem_news, not_and, not_and]

theorem news_append : news (log ++ new) key recursive after =
    news log key recursive after ++ news new key recursive after := List.filter_append ..

theorem news_congr {n : Nat} (h : ∀ c ∈ log, after < c.index ↔ n < c.index) :
    news log key recursive after = news log key recursive n :=
  List.filter_congr fun c hc => decide_eq_decide.mpr (and_congr_left fun _ => h c hc)

theorem IsFirst.news_eq (h : IsFirst log key recursive after c)
    (sorted : log.Pairwise (·.index < ·.index)) :
    news log key recursive after = c :: news log key recursive c.index := by
  obtain ⟨before, rest, rfl⟩ := List.append_of_mem h.mem
  obtain ⟨-, hcons, hbefore⟩ := List.pairwise_append.mp sorted
  have habove := h.above
  have hnone : ∀ n, after ≤ n → news before key recursive n = [] := by
    refine fun n hn => news_eq_nil.mpr fun x hx hlt hcovered => ?_
    exact h.first x (List.mem_append_left _ hx) (Nat.lt_of_le_of_lt hn hlt)
      (hbefore x hx c List.mem_cons_self) hcovered
  have hsame : news rest key recursive after = news rest key recursive c.index :=
    news_congr fun x hx =>
      have hlt := List.rel_of_pairwise_cons hcons hx
      iff_of_true (Nat.lt_trans habove hlt) hlt
  have hfound : news (c :: rest) key recursive after = c :: news rest key recursive after :=
    List.filter_cons_of_pos (decide_eq_true ⟨habove, h.covered⟩)
  have hpassed : news (c :: rest) key recursive c.index = news rest key recursive c.index :=
    List.filter_cons_of_neg fun hasked => Nat.lt_irrefl _ (of_decide_eq_true hasked).1
  rw [news_append, news_append, hnone _ (Nat.le_refl _), hnone _ habove.le, hfound, hpassed, hsame,
    List.nil_append, List.nil_append]

/-! ## The three answers -/

theorem Remembers.answer_cleared (h : s.Remembers log) {refusal : Refusal} :
    s.answer? key recursive after = some (.error refusal) ↔
      after < s.evictedUpTo ∧ refusal = s.cleared after := by
  constructor
  · intro hanswer
    have hlt := (h.forgotten hanswer).2.2.1
    rw [answer?, if_pos hlt] at hanswer
    exact ⟨hlt, (Except.error.inj (Option.some.inj hanswer)).symm⟩
  · rintro ⟨hlt, rfl⟩
    rw [answer?, if_pos hlt]

theorem Remembers.answer_first (h : s.Remembers log) (kept : s.evictedUpTo ≤ after)
    {response : Response} : s.answer? key recursive after = some (.ok response) ↔
      ∃ c, IsFirst log key recursive after c ∧ response = c.response := by
  refine ⟨h.isFirst, ?_⟩
  rintro ⟨c, hc, rfl⟩
  obtain ⟨answer, hanswer⟩ := h.exists_answer hc.mem hc.above hc.covered
  cases answer with
  | error refusal => exact absurd (h.answer_cleared.mp hanswer).1 (Nat.not_lt_of_le kept)
  | ok response =>
    obtain ⟨x, hx, rfl⟩ := h.isFirst hanswer
    rw [hanswer, hc.unique hx h.sorted]

theorem Remembers.answer_silent (h : s.Remembers log) (kept : s.evictedUpTo ≤ after) :
    s.answer? key recursive after = none ↔ news log key recursive after = [] := by
  rw [news_eq_nil]
  refine ⟨h.silent, fun hnone => ?_⟩
  cases hanswer : s.answer? key recursive after with
  | none => rfl
  | some answer =>
    cases answer with
    | error refusal => exact absurd (h.answer_cleared.mp hanswer).1 (Nat.not_lt_of_le kept)
    | ok response =>
      obtain ⟨c, hc, -⟩ := h.isFirst hanswer
      exact absurd hc.covered (hnone c hc.mem hc.above)

theorem resumeWait_eq_beginWait {path : String} {w : Wait} (h : after ≠ 0)
    (parked : (s.beginWait now path ⟨recursive, after⟩).2 = .inr w) (s' : Store) (now' : Nat) :
    s'.resumeWait now' w = s'.beginWait now' path ⟨recursive, after⟩ := by
  rw [beginWait_of_ne s now path recursive h, await_eq] at parked
  split at parked
  · cases parked
  · obtain rfl := Sum.inr.inj parked
    rw [beginWait_of_ne s' now' path recursive h, resumeWait, await, await, expire_expire s' now']

end Store

theorem Course.step_look_look (c : Course) : (c.step .look).step .look = c.step .look := by
  have hself := Store.expire_expire c.store c.now
  unfold step
  dsimp only
  rw [Store.expiries_eq_nil hself, hself, List.append_nil]

/-! ## One wait after the other -/

/-- Someone who waits for the changes of a key again and again, from the index of the last answer,
with all that they have been told. -/
structure Pursuit where
  course : Course
  path : String
  recursive : Bool
  after : Nat
  told : List Response := []

namespace Pursuit

variable {p : Pursuit} {a : Nat}

/-- What the next wait is told. -/
def next (p : Pursuit) : Except Refusal Response ⊕ Wait :=
  (p.course.store.beginWait p.course.now p.path ⟨p.recursive, p.after⟩).2

/-- A wait. Whoever is not answered waits from the same index again, which is no different from
being woken (`Store.resumeWait_eq_beginWait`). -/
def wait (p : Pursuit) : Pursuit :=
  let course := p.course.step (.wait p.path ⟨p.recursive, p.after⟩)
  match p.next with
  | .inl (.ok response) =>
    { p with course := course, after := response.index, told := p.told ++ [response] }
  | _ => { p with course := course }

/-- Things happen to the store, and then comes the next wait. -/
def round (p : Pursuit) (others : List Step) : Pursuit :=
  ({ p with course := others.foldl Course.step p.course } : Pursuit).wait

theorem round_nil (p : Pursuit) : p.round [] = p.wait := rfl

/-- The changes of the key with an index above `after`. -/
def news (p : Pursuit) (after : Nat) : List Change :=
  Store.news p.course.log (.ofPath p.path) p.recursive after

/-- What holds at all times of someone who started from the index `a`. -/
structure Sound (a : Nat) (p : Pursuit) : Prop where
  remembers : p.course.store.Remembers p.course.log
  positive : 1 ≤ a
  fromStart : a ≤ p.after
  reached : p.after = a ∨ p.after ≤ p.course.store.index
  told : (p.news a).map (·.response) = p.told ++ (p.news p.after).map (·.response)

theorem Sound.step (h : p.Sound a) (st : Step) :
    ({ p with course := p.course.step st } : Pursuit).Sound a := by
  obtain ⟨new, hedits, hlog, -⟩ := p.course.step_edits st
  have hindex := hedits.index
  have hreached := h.reached
  have hnews : ∀ n, ({ p with course := p.course.step st } : Pursuit).news n =
      p.news n ++ Store.news new (.ofPath p.path) p.recursive n := fun n => by
    rw [news, hlog, Store.news_append, news]
  -- whatever is new has an index above both, even if the start is further than the store has come
  have hsame : Store.news new (.ofPath p.path) p.recursive a =
      Store.news new (.ofPath p.path) p.recursive p.after := by
    refine Store.news_congr fun x hx => ?_
    have hlt := hedits.index_lt hx
    have hstart := h.fromStart
    omega
  exact {
    remembers := hlog ▸ hedits.remembers h.remembers
    positive := h.positive
    fromStart := h.fromStart
    reached := hreached.imp_right fun hle => by
      dsimp only
      omega
    told := by
      rw [hnews, hnews, hsame, List.map_append, List.map_append, h.told, List.append_assoc] }

theorem Sound.steps (h : p.Sound a) (others : List Step) :
    ({ p with course := others.foldl Course.step p.course } : Pursuit).Sound a := by
  induction others generalizing p with
  | nil => exact h
  | cons st rest ih => exact ih (h.step st)

/-! ## What a wait does -/

theorem Sound.next_eq (h : p.Sound a) : p.next =
    match (p.course.step .look).store.answer? (.ofPath p.path) p.recursive p.after with
    | some answer => .inl answer
    | none => .inr
        { key := .ofPath p.path, recursive := p.recursive, after := p.after
          timer := (p.course.step .look).store.contents.nextDeadline?
          seen := (p.course.step .look).store.signals } := by
  have hstart := h.fromStart
  have hpos := h.positive
  rw [next, Store.beginWait_of_ne _ _ _ _ (by omega), Store.await_eq, Store.expire_expire]
  rfl

/-- An answered wait is told of the first change that has not been told, and goes on from there. -/
theorem Sound.answered (h : p.Sound a) {response : Response}
    (hnext : p.next = .inl (.ok response)) :
    let looked : Pursuit := { p with course := p.course.step .look }
    ∃ c, looked.news p.after = c :: looked.news c.index ∧
      c.index ≤ looked.course.store.index ∧ p.after < c.index ∧ response = c.response := by
  intro looked
  have hlook := (h.step .look).remembers
  rw [h.next_eq] at hnext
  split at hnext
  · rename_i answer hanswer
    obtain rfl := Sum.inl.inj hnext
    obtain ⟨c, hc, rfl⟩ := hlook.isFirst hanswer
    exact ⟨c, hc.news_eq hlook.sorted, hlook.index_le hc.mem, hc.above, rfl⟩
  · cases hnext

/-- **A wait leaves everything as it has to be**, whether it is answered, refused or parked. -/
theorem Sound.wait (h : p.Sound a) : p.wait.Sound a := by
  have hlook := h.step .look
  unfold Pursuit.wait
  rw [Course.step_wait]
  dsimp only
  split
  · rename_i response hnext
    obtain ⟨c, hnews, hle, hlt, rfl⟩ := h.answered hnext
    have hstart := h.fromStart
    exact {
      remembers := hlook.remembers
      positive := h.positive
      fromStart := Nat.le_trans hstart hlt.le
      reached := .inr hle
      told := by
        refine hlook.told.trans ?_
        rw [hnews, List.map_cons, List.append_cons]
        rfl }
  · exact hlook

/-- **What has been told and what is still to be told is all there is, in every round.** -/
theorem Sound.rounds (h : p.Sound a) (rounds : List (List Step)) :
    (rounds.foldl round p).Sound a := by
  induction rounds generalizing p with
  | nil => exact h
  | cons others rest ih =>
    rw [List.foldl_cons]
    exact ih (h.steps others).wait

/-! ## When nothing is due -/

theorem Sound.next_eq_inl (h : p.Sound a) (settled : p.course.step .look = p.course)
    {answer : Except Refusal Response} : p.next = .inl answer ↔
      p.course.store.answer? (.ofPath p.path) p.recursive p.after = some answer := by
  rw [h.next_eq, settled]
  cases p.course.store.answer? (.ofPath p.path) p.recursive p.after <;> simp

theorem Sound.next_eq_inr (h : p.Sound a) (settled : p.course.step .look = p.course) :
    (∃ w, p.next = .inr w) ↔
      p.course.store.answer? (.ofPath p.path) p.recursive p.after = none := by
  rw [h.next_eq, settled]
  cases p.course.store.answer? (.ofPath p.path) p.recursive p.after <;> simp

/-- **The history has just what it takes to answer a wait.** -/
theorem Sound.hears (h : p.Sound a) (settled : p.course.step .look = p.course) :
    p.course.Hears (.ofPath p.path) p.recursive p.after p.next := by
  have hmem := h.remembers
  have hforgot : p.course.HasForgotten p.after ↔ p.after < p.course.store.evictedUpTo :=
    hmem.forgotten_iff
  have hkept : ¬ p.course.HasForgotten p.after → p.course.store.evictedUpTo ≤ p.after :=
    fun hnot => Nat.le_of_not_lt fun hlt => hnot (hforgot.mpr hlt)
  refine ⟨⟨?_, fun hlost => ?_⟩, fun refusal hrefusal => ?_, fun hnot response => ?_,
    fun hnot => ?_⟩
  · rintro ⟨refusal, hrefusal⟩
    exact hforgot.mpr (hmem.answer_cleared.mp ((h.next_eq_inl settled).mp hrefusal)).1
  · exact ⟨_, (h.next_eq_inl settled).mpr (hmem.answer_cleared.mpr ⟨hforgot.mp hlost, rfl⟩)⟩
  · obtain ⟨hcode, hindex, -⟩ := hmem.forgotten ((h.next_eq_inl settled).mp hrefusal)
    exact ⟨hcode, hindex⟩
  · exact (h.next_eq_inl settled).trans (hmem.answer_first (hkept hnot))
  · exact (h.next_eq_inr settled).trans
      ((hmem.answer_silent (hkept hnot)).trans Store.news_eq_nil)

/-! ## Waiting on while nobody interferes -/

theorem wait_key (p : Pursuit) : p.wait.path = p.path ∧ p.wait.recursive = p.recursive := by
  unfold wait
  dsimp only
  split <;> exact ⟨rfl, rfl⟩

theorem rounds_key (p : Pursuit) (rounds : List (List Step)) :
    (rounds.foldl round p).path = p.path ∧ (rounds.foldl round p).recursive = p.recursive := by
  induction rounds generalizing p with
  | nil => exact ⟨rfl, rfl⟩
  | cons others rest ih =>
    obtain ⟨hpath, hrecursive⟩ := wait_key { p with course := others.foldl Course.step p.course }
    rw [List.foldl_cons, (ih _).1, (ih _).2]
    exact ⟨hpath, hrecursive⟩

theorem wait_course (p : Pursuit) : p.wait.course = p.course.step .look := by
  unfold wait
  rw [Course.step_wait]
  dsimp only
  split <;> rfl

theorem wait_settled (p : Pursuit) : p.wait.course.step .look = p.wait.course := by
  rw [wait_course, Course.step_look_look]

theorem rounds_settled (settled : p.course.step .look = p.course) (rounds : List (List Step)) :
    (rounds.foldl round p).course.step .look = (rounds.foldl round p).course := by
  induction rounds generalizing p with
  | nil => exact settled
  | cons others rest ih =>
    rw [List.foldl_cons]
    exact ih (wait_settled _)

theorem wait_news (p : Pursuit) (settled : p.course.step .look = p.course) (n : Nat) :
    p.wait.news n = p.news n := by
  unfold wait
  rw [Course.step_wait, settled]
  dsimp only
  split <;> rfl

theorem Sound.news_wait (h : p.Sound a) (settled : p.course.step .look = p.course)
    (kept : ¬ p.course.HasForgotten p.after) :
    p.wait.news p.wait.after = (p.news p.after).tail ∧ p.after ≤ p.wait.after := by
  have hhears := h.hears settled
  rw [wait_news p settled]
  cases hnext : p.next with
  | inl answer =>
    cases answer with
    | error refusal => exact absurd (hhears.refused.mp ⟨refusal, hnext⟩) kept
    | ok response =>
      obtain ⟨c, hfirst, rfl⟩ := (hhears.answered kept response).mp hnext
      have hafter : p.wait.after = c.index := by
        unfold Pursuit.wait
        rw [hnext]
        rfl
      have hnews : p.news p.after = c :: p.news c.index := hfirst.news_eq h.remembers.sorted
      rw [hafter, hnews, List.tail_cons]
      exact ⟨rfl, hfirst.above.le⟩
  | inr w =>
    have hafter : p.wait.after = p.after := by
      unfold Pursuit.wait
      rw [hnext]
    have hnews : p.news p.after = [] := Store.news_eq_nil.mpr ((hhears.parked kept).mp ⟨w, hnext⟩)
    rw [hafter, hnews]
    exact ⟨rfl, Nat.le_refl _⟩

/-- **As long as nothing has been forgotten, waiting on goes through all there is.** -/
theorem Sound.told_of_quiet (h : p.Sound a) (settled : p.course.step .look = p.course)
    (kept : ¬ p.course.HasForgotten p.after) (n : Nat) (enough : (p.news p.after).length ≤ n) :
    ((List.replicate n []).foldl round p).told = (p.news a).map (·.response) := by
  induction n generalizing p with
  | zero =>
    have hnone : p.news p.after = [] := List.eq_nil_of_length_eq_zero (Nat.le_zero.mp enough)
    rw [h.told, hnone, List.map_nil, List.append_nil]
    rfl
  | succ n ih =>
    obtain ⟨htail, hle⟩ := h.news_wait settled kept
    have hcourse : p.wait.course = p.course := (wait_course p).trans settled
    rw [List.replicate_succ, List.foldl_cons, round_nil, ← wait_news p settled]
    refine ih h.wait (wait_settled p) (fun hlost => ?_) ?_
    · rw [hcourse] at hlost
      exact kept (hlost.mono hle)
    · rw [htail, List.length_tail]
      omega

end Pursuit

/-! ## The main result -/

/-- **In every store that has come about and in which nothing is due, a wait after some index is
refused exactly if a later change has been forgotten. If not, it is answered with the first later
change of its key, and parks exactly if there is none.** Whoever waits from there again and again is
told of the changes of the key in their order, of none twice and of none but these, whatever happens
in between. As long as nothing later than the first index has been forgotten, none is left out, and
a wait parks exactly when all have been told. -/
theorem Course.run_wait (steps : List Step) (path : String) (recursive : Bool) (after : Nat)
    (positive : 1 ≤ after) :
    let course := run (steps ++ [.look])
    let key := Key.ofPath path
    course.Hears key recursive after
      (course.store.beginWait course.now path ⟨recursive, after⟩).2 ∧
    ∀ rounds : List (List Step),
      let p := rounds.foldl Pursuit.round { course, path, recursive, after }
      let changes := p.course.log.filter fun c => after < c.index ∧ key.Covers recursive c.key
      p.told <+: changes.map (·.response) ∧
      p.told.Pairwise (·.index < ·.index) ∧
      (¬ p.course.HasForgotten after →
        ((∃ w, p.next = .inr w) ↔ p.told = changes.map (·.response)) ∧
        ∀ n, changes.length ≤ n →
          ((List.replicate n []).foldl Pursuit.round p).told = changes.map (·.response)) := by
  intro course key
  have hsettled : course.step .look = course := by
    dsimp only [course]
    rw [run_append, step_look_look]
  have hstart : ({ course, path, recursive, after } : Pursuit).Sound after :=
    ⟨run_remembers _, positive, Nat.le_refl _, .inl rfl, rfl⟩
  refine ⟨hstart.hears hsettled, fun rounds => ?_⟩
  intro p changes
  have hp : p.Sound after := hstart.rounds rounds
  have hquiet : p.course.step .look = p.course := Pursuit.rounds_settled hsettled rounds
  have hnews : p.news after = changes := by
    obtain ⟨hpath, hrecursive⟩ :=
      Pursuit.rounds_key { course, path, recursive, after } rounds
    rw [Pursuit.news, hpath, hrecursive]
    rfl
  have htold : changes.map (·.response) = p.told ++ (p.news p.after).map (·.response) :=
    hnews ▸ hp.told
  have hinitial : p.told <+: changes.map (·.response) := ⟨_, htold.symm⟩
  have hordered : (changes.map (·.response)).Pairwise (·.index < ·.index) :=
    List.pairwise_map.mpr (hp.remembers.sorted.filter _)
  refine ⟨hinitial, hordered.sublist hinitial.sublist, fun kept => ⟨?_, fun n enough => ?_⟩⟩
  · have hkept : ¬ p.course.HasForgotten p.after := fun hlost => kept (hlost.mono hp.fromStart)
    refine ((hp.hears hquiet).parked hkept).trans (Store.news_eq_nil.symm.trans ?_)
    rw [htold, List.self_eq_append_right, List.map_eq_nil_iff]
    rfl
  · have hkept : ¬ p.course.HasForgotten p.after := fun hlost => kept (hlost.mono hp.fromStart)
    have hlen := congrArg List.length htold
    rw [List.length_append, List.length_map, List.length_map] at hlen
    rw [← hnews]
    exact hp.told_of_quiet hquiet hkept n (by omega)

/-- Changes elsewhere are passed over. -/
theorem Course.run_wait_between :
    let steps : List Step := [.request (.set "/a" "u" {}), .request (.set "/b" "v" {}),
      .request (.set "/a" "w" {})]
    let p : Pursuit := ⟨run (steps ++ [.look]), "/a", false, 1, []⟩
    1 ≤ 1 ∧ ¬ p.course.HasForgotten 1 ∧
      ((List.replicate 1 []).foldl Pursuit.round p).told.map (·.index) = [3] := by
  intro steps p
  have hkept : ¬ p.course.HasForgotten 1 := by decide +kernel
  have htold := (((run_wait steps "/a" false 1 (Nat.le_refl 1)).2 []).2.2 hkept).2 1
    (by decide +kernel)
  rw [List.foldl_nil] at htold
  refine ⟨Nat.le_refl 1, hkept, ?_⟩
  dsimp only [p]
  rw [htold]
  decide +kernel

end ClusterRegistry
