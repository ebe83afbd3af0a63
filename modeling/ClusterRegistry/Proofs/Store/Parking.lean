import ClusterRegistry.Proofs.Store.Answer

/-!
# Parked waits

Any number of waits share a store. One that is parked notices its timer and the signals of the
store, and looks again. A refreshed lifetime signals nothing, so an end that a refresh brings
forward is noticed late.

* `Guest`, `Lobby`, `Move`, `Lobby.run`: a store with all who wait;
* `Guest.Fits`: what the timer of a parked wait has to do with the deadlines;
* `Lobby.step_fits`, `Lobby.run_fits`: it stays that way;
* **`Lobby.run_prompt`**: a wait misses the end of a lifetime exactly if a refresh has set it.
-/

namespace ClusterRegistry

/-- A parked wait, with the lifetimes that were refreshed since it parked, the latest one first. -/
structure Guest where
  wait : Wait
  refreshed : List (Key × Option Nat) := []
deriving DecidableEq

/-- Takes note of a refreshed lifetime. -/
def Guest.note (g : Guest) (lifetime : Option (Key × Option Nat)) : Guest :=
  { g with refreshed := lifetime.toList ++ g.refreshed }

/-- A store with the waits that are parked. -/
structure Lobby where
  course : Course := {}
  guests : List Guest := []

/-- Something that happens to a store or to one of those who wait. -/
inductive Move
  | request (r : Request)
  | wait (path : String) (options : WaitOptions)
  /-- The wait at a position looks again, if it is woken. -/
  | resume (n : Nat)
  /-- The wait at a position is given up. -/
  | leave (n : Nat)
  | look
  | pass (millis : Nat)
deriving DecidableEq, Repr

namespace Lobby

/-- The wait that parks, unless there was an answer. -/
def parked : Except Refusal Response ⊕ Wait → List Guest
  | .inl _ => []
  | .inr w => [{ wait := w }]

/-- The next thing happens. -/
def step (l : Lobby) : Move → Lobby
  | .request r =>
    { course := l.course.step (.request r)
      guests := l.guests.map (·.note (l.course.store.refreshed? l.course.now r)) }
  | .wait path options =>
    { course := l.course.step (.wait path options)
      guests := l.guests ++ parked (l.course.store.beginWait l.course.now path options).2 }
  | .resume n =>
    match l.guests[n]? with
    | none => l
    | some g =>
      if g.wait.IsWoken l.course.store l.course.now then
        { course := l.course.step (.resume g.wait)
          guests := l.guests.eraseIdx n ++
            parked (l.course.store.resumeWait l.course.now g.wait).2 }
      else l
  | .leave n => { l with guests := l.guests.eraseIdx n }
  | .look => { l with course := l.course.step .look }
  | .pass millis => { l with course := l.course.step (.pass millis) }

/-- A new store with all who come to wait. -/
def run (moves : List Move) : Lobby := moves.foldl step {}

theorem run_append (moves : List Move) (m : Move) : run (moves ++ [m]) = (run moves).step m := by
  rw [run, List.foldl_append]
  rfl

end Lobby

/-! ## Timers and deadlines -/

/-- While nobody has signalled, the timer of a parked wait comes before all deadlines but those that
were refreshed since, and these stand as they were refreshed last. -/
structure Guest.Fits (g : Guest) (s : Store) : Prop where
  seen : g.wait.seen ≤ s.signals
  untouched : g.wait.seen = s.signals → ∀ (k : Key) (e : Entry), s.contents[k]? = some e →
    g.refreshed.lookup k = none → ∀ d ∈ e.deadline, ∃ t ∈ g.wait.timer, t ≤ d
  touched : g.wait.seen = s.signals → ∀ (k : Key) (d : Option Nat),
    g.refreshed.lookup k = some d → ∃ e, s.contents[k]? = some e ∧ e.deadline = d

namespace Guest.Fits

variable {g : Guest} {s s' : Store} {now : Nat} {lifetime : Option (Key × Option Nat)}

theorem signalled (h : g.Fits s) (hlt : s.signals < s'.signals)
    (lifetime : Option (Key × Option Nat)) : (g.note lifetime).Fits s' := by
  have hne : g.wait.seen ≠ s'.signals := by
    have := h.seen
    omega
  exact ⟨Nat.le_trans h.seen hlt.le, fun hq => absurd hq hne, fun hq => absurd hq hne⟩

theorem quiet (h : g.Fits s) (hq : s.Quiet lifetime s') : (g.note lifetime).Fits s' := by
  cases hq with
  | unchanged => exact h
  | @refreshed key e present deadline =>
    have hlook : ∀ k : Key, (g.note (some (key, deadline))).refreshed.lookup k =
        if k = key then some deadline else g.refreshed.lookup k := by
      intro k
      change ((key, deadline) :: g.refreshed).lookup k = _
      rw [List.lookup_cons]
      by_cases hk : k = key
      · simp [hk]
      · simp [hk, beq_false_of_ne hk]
    refine ⟨h.seen, fun hseen k x hx hnone d hd => ?_, fun hseen k d hk => ?_⟩
    · rw [hlook] at hnone
      change (s.contents.insert key _)[k]? = some x at hx
      rw [Key.lookup_insert] at hx
      split_ifs at hnone hx
      exact h.untouched hseen k x hx hnone d hd
    · rw [hlook] at hk
      change ∃ e, (s.contents.insert key _)[k]? = some e ∧ _
      rw [Key.lookup_insert]
      split_ifs at hk ⊢
      · exact ⟨_, rfl, Option.some.inj hk⟩
      · exact h.touched hseen k d hk

theorem serve (h : g.Fits s) (r : Request) :
    (g.note (s.refreshed? now r)).Fits (s.serve now r).1 := by
  rcases Nat.eq_or_lt_of_le (s.signals_le_serve now r) with heq | hlt
  · exact h.quiet (Store.serve_quiet heq.symm).2.2
  · exact h.signalled hlt _

theorem expire (h : g.Fits s) : g.Fits (s.expire now) := by
  rcases Nat.eq_or_lt_of_le (s.signals_le_expire now) with heq | hlt
  · rwa [Store.expire_quiet heq.symm]
  · exact h.signalled hlt none

theorem of_await {key : Key} {recursive : Bool} {after : Nat} {g : Guest}
    (hg : g ∈ Lobby.parked (s.await now key recursive after).2) : g.Fits (s.expire now) := by
  unfold Store.await at hg
  dsimp only at hg
  split at hg
  · cases hg
  · obtain rfl := List.mem_singleton.mp hg
    refine ⟨Nat.le_refl _, fun _ k e he _ d hd => ?_, nofun⟩
    exact Contents.nextDeadline?_le he hd

end Guest.Fits

namespace Lobby

theorem step_course (l : Lobby) (m : Move) :
    (l.step m).course = l.course ∨ ∃ st, (l.step m).course = l.course.step st := by
  cases m with
  | request r => exact Or.inr ⟨.request r, rfl⟩
  | wait path options => exact Or.inr ⟨.wait path options, rfl⟩
  | resume n =>
    unfold step
    dsimp only
    split
    · exact Or.inl rfl
    · rename_i g _
      split
      · exact Or.inr ⟨.resume g.wait, rfl⟩
      · exact Or.inl rfl
  | leave n => exact Or.inl rfl
  | look => exact Or.inr ⟨.look, rfl⟩
  | pass millis => exact Or.inr ⟨.pass millis, rfl⟩

theorem run_course (moves : List Move) : ∃ steps, (run moves).course = Course.run steps := by
  induction moves using List.reverseRecOn with
  | nil => exact ⟨[], rfl⟩
  | append_singleton moves m ih =>
    obtain ⟨steps, hsteps⟩ := ih
    rw [run_append]
    rcases step_course (run moves) m with h | ⟨st, h⟩
    · exact ⟨steps, h.trans hsteps⟩
    · exact ⟨steps ++ [st], by rw [h, hsteps, Course.run_append]⟩

/-- **Whatever happens, the timers fit the deadlines.** -/
theorem step_fits {l : Lobby} (h : ∀ g ∈ l.guests, g.Fits l.course.store) (m : Move) :
    ∀ g ∈ (l.step m).guests, g.Fits (l.step m).course.store := by
  have hold : ∀ g ∈ l.guests, g.Fits (l.course.store.expire l.course.now) :=
    fun g hg => (h g hg).expire
  cases m with
  | request r =>
    intro _ hg
    obtain ⟨g, hmem, rfl⟩ := List.mem_map.mp hg
    exact (h g hmem).serve r
  | wait path options =>
    intro g hg
    show g.Fits (l.course.step (.wait path options)).store
    rw [Course.step_wait]
    rcases List.mem_append.mp hg with hg | hg
    · exact hold g hg
    · have := Guest.Fits.of_await hg
      rwa [Store.expire_expire] at this
  | resume n =>
    unfold step
    dsimp only
    split
    · exact h
    · rename_i guest _
      split_ifs
      · intro g hg
        show g.Fits (l.course.step (.resume guest.wait)).store
        rw [Course.step_resume]
        rcases List.mem_append.mp hg with hg | hg
        · exact hold g (List.mem_of_mem_eraseIdx hg)
        · exact Guest.Fits.of_await hg
      · exact h
  | leave n => exact fun g hg => h g (List.mem_of_mem_eraseIdx hg)
  | look => exact hold
  | pass millis => exact h

theorem run_fits (moves : List Move) :
    ∀ g ∈ (run moves).guests, g.Fits (run moves).course.store := by
  induction moves using List.reverseRecOn with
  | nil => exact nofun
  | append_singleton moves m ih =>
    rw [run_append]
    exact step_fits ih m

/-! ## The end of a lifetime -/

theorem exists_answer (moves : List Move) {w : Wait} {k : Key} {e : Entry}
    (h : (run moves).course.store.contents[k]? = some e) (due : e.IsDue (run moves).course.now)
    (alone : ∀ (a : Key) (x : Entry), (run moves).course.store.contents[a]? = some x →
      k.IsBelow a → ¬ x.IsDue (run moves).course.now)
    (watched : w.key.Covers w.recursive k) (reached : w.after ≤ (run moves).course.store.index) :
    ∃ answer, ((run moves).course.store.resumeWait (run moves).course.now w).2 = .inl answer := by
  obtain ⟨steps, hrun⟩ := run_course moves
  rw [hrun] at h due alone reached ⊢
  have hremembers : ((Course.run steps).store.expire (Course.run steps).now).Remembers
      ((Course.run steps).log ++ (Course.run steps).store.expiries (Course.run steps).now) :=
    (Course.run_remembers steps).expire _
  obtain ⟨c, hc, rfl⟩ := Store.exists_expiries h due alone
  have hindex := (Store.expire_edits _ _).index_lt hc
  obtain ⟨answer, hanswer⟩ := hremembers.exists_answer (List.mem_append_right _ hc)
    (Nat.lt_of_le_of_lt reached hindex) watched
  refine ⟨answer, ?_⟩
  unfold Store.resumeWait Store.await
  dsimp only
  rw [hanswer]

/-- **The timer of a parked wait comes before all deadlines exactly if it comes before those that
were refreshed since. A wait answers at the end of a lifetime that it watches, unless that end was
set by a refresh since and its timer is still to come.** -/
theorem run_prompt (moves : List Move) (g : Guest) (hg : g ∈ (run moves).guests) :
    (g.wait.seen = (run moves).course.store.signals →
      ((∀ (k : Key) (e : Entry), (run moves).course.store.contents[k]? = some e →
          ∀ d ∈ e.deadline, ∃ t ∈ g.wait.timer, t ≤ d) ↔
        ∀ (k : Key) (d : Nat), g.refreshed.lookup k = some (some d) →
          ∃ t ∈ g.wait.timer, t ≤ d)) ∧
    ∀ (k : Key) (e : Entry) (d : Nat), (run moves).course.store.contents[k]? = some e →
      e.deadline = some d → d ≤ (run moves).course.now →
      (∀ (a : Key) (x : Entry), (run moves).course.store.contents[a]? = some x →
        k.IsBelow a → ¬ x.IsDue (run moves).course.now) →
      g.wait.key.Covers g.wait.recursive k → g.wait.after ≤ (run moves).course.store.index →
      ((g.wait.IsWoken (run moves).course.store (run moves).course.now ∧
          ∃ answer, ((run moves).course.store.resumeWait (run moves).course.now g.wait).2 =
            .inl answer) ↔
        ¬ (g.wait.seen = (run moves).course.store.signals ∧
          g.refreshed.lookup k = some (some d) ∧
          ∀ t ∈ g.wait.timer, (run moves).course.now < t)) := by
  have hfits := run_fits moves g hg
  refine ⟨fun hseen => ⟨fun h k d hk => ?_, fun h k e hmem d hd => ?_⟩,
    fun k e d hmem hd hdue halone hwatched hreached => ⟨?_, fun h => ⟨?_, ?_⟩⟩⟩
  · obtain ⟨e, hmem, hd⟩ := hfits.touched hseen k _ hk
    exact h k e hmem d hd
  · cases hk : g.refreshed.lookup k with
    | none => exact hfits.untouched hseen k e hmem hk d hd
    | some d' =>
      obtain ⟨e', hmem', rfl⟩ := hfits.touched hseen k d' hk
      rw [hmem] at hmem'
      obtain rfl := Option.some.inj hmem'
      exact h k d (hk.trans (congrArg some hd))
  · rintro ⟨hwoken, -⟩ ⟨hseen, -, htimer⟩
    rcases hwoken with hne | ⟨t, ht, hle⟩
    · exact hne hseen
    · exact absurd (htimer t ht) (Nat.not_lt_of_le hle)
  · by_cases hseen : g.wait.seen = (run moves).course.store.signals
    · refine Or.inr ?_
      cases hk : g.refreshed.lookup k with
      | none =>
        obtain ⟨t, ht, hle⟩ := hfits.untouched hseen k e hmem hk d hd
        exact ⟨t, ht, Nat.le_trans hle hdue⟩
      | some d' =>
        obtain ⟨e', hmem', rfl⟩ := hfits.touched hseen k d' hk
        rw [hmem] at hmem'
        obtain rfl := Option.some.inj hmem'
        by_contra hlate
        refine h ⟨hseen, hk.trans (congrArg some hd), fun t ht => ?_⟩
        exact Nat.lt_of_not_le fun hle => hlate ⟨t, ht, hle⟩
    · exact Or.inl hseen
  · exact exists_answer moves hmem ⟨d, hd, hdue⟩ halone hwatched hreached

/-- A wait for a key whose lifetime ends, at that moment. -/
theorem run_prompt_of_set :
    let moves : List Move :=
      [.request (.set "/a" "v" { lifetime := some 1000 }), .wait "/a" {}, .pass 1000]
    let g : Guest := { wait := ⟨.ofPath "/a", false, 1, some 1000, 1⟩ }
    g ∈ (run moves).guests ∧ g.wait.IsWoken (run moves).course.store (run moves).course.now ∧
      ∃ answer, ((run moves).course.store.resumeWait (run moves).course.now g.wait).2 =
        .inl answer := by
  intro moves g
  have hg : g ∈ (run moves).guests := by decide +kernel
  refine ⟨hg, ((run_prompt moves g hg).2 (.ofPath "/a") ⟨false, "v", some 1000, 1, 1⟩ 1000
    (by decide +kernel) rfl (by decide +kernel) (fun a x hx hbelow => ?_) (by decide +kernel)
    (by decide +kernel)).mpr fun h => ?_⟩
  · -- the key is the only one
    have hall : ∀ p ∈ (run moves).course.store.contents.toList, ¬ (Key.ofPath "/a").IsBelow p.1 := by
      decide +kernel
    exact absurd hbelow (hall (a, x) (Contents.mem_toList.mpr hx))
  · exact nomatch h.2.1

/-- A lifetime of ten seconds is refreshed to one second while a wait is parked. -/
def shortened : List Move :=
  [.request (.set "/a" "v" { lifetime := some 10000 }), .wait "/a" {},
    .request (.set "/a" "" { lifetime := some 1000, refresh := true, presence := .mustExist }),
    .pass 1000]

/-- Not every wait answers at the end of a lifetime that it watches, and not every timer comes
before all deadlines. -/
theorem shortened_late : (¬ ∀ (moves : List Move), ∀ g ∈ (run moves).guests,
      ∀ (k : Key) (e : Entry) (d : Nat), (run moves).course.store.contents[k]? = some e →
      e.deadline = some d → d ≤ (run moves).course.now →
      (∀ (a : Key) (x : Entry), (run moves).course.store.contents[a]? = some x →
        k.IsBelow a → ¬ x.IsDue (run moves).course.now) →
      g.wait.key.Covers g.wait.recursive k → g.wait.after ≤ (run moves).course.store.index →
      g.wait.IsWoken (run moves).course.store (run moves).course.now) ∧
    ¬ ∀ (moves : List Move), ∀ g ∈ (run moves).guests,
      g.wait.seen = (run moves).course.store.signals →
      ∀ (k : Key) (e : Entry), (run moves).course.store.contents[k]? = some e →
        ∀ d ∈ e.deadline, ∃ t ∈ g.wait.timer, t ≤ d := by
  have hg : { wait := ⟨.ofPath "/a", false, 1, some 10000, 1⟩
              refreshed := [(.ofPath "/a", some 1000)] } ∈ (run shortened).guests := by
    decide +kernel
  have hmem : (run shortened).course.store.contents[Key.ofPath "/a"]? =
      some ⟨false, "v", some 1000, 1, 1⟩ := by decide +kernel
  refine ⟨fun h => ?_, fun h => ?_⟩
  · have hwoken := h shortened _ hg (.ofPath "/a") _ 1000 hmem rfl (by decide +kernel)
      (fun a x hx hbelow => ?_) (by decide +kernel) (by decide +kernel)
    · revert hwoken
      decide +kernel
    · have hall : ∀ p ∈ (run shortened).course.store.contents.toList,
          ¬ (Key.ofPath "/a").IsBelow p.1 := by decide +kernel
      exact absurd hbelow (hall (a, x) (Contents.mem_toList.mpr hx))
  · obtain ⟨t, ht, hle⟩ := h shortened _ hg (by decide +kernel) _ _ hmem 1000 rfl
    obtain rfl := Option.some.inj ht
    exact absurd hle (by decide)

end Lobby

end ClusterRegistry
