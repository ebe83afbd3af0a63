import Mathlib.Data.List.Nodup
import ClusterRegistry.Proofs.Store.History

/-!
# What a wait is told

A store answers a wait from its history. Measured by the log of all changes, it answers with the
first change that is asked for, says that changes have been forgotten, or has nothing to answer.

* `Store.Remembers.sorted`: the log is in the order of the indices;
* `Store.IsFirst`, `Store.IsFirst.filter_eq`: the first change that a wait asks for;
* **`Store.Remembers.isFirst`**, `Store.Remembers.forgotten`, `Store.Remembers.silent`: the three
  answers;
* `Store.await_eq`: a wait is answered or parks.
-/

namespace ClusterRegistry.Store

variable {s : Store} {log : List Change} {key : Key} {recursive : Bool} {after now : Nat}

theorem Remembers.sorted (h : s.Remembers log) : log.Pairwise (·.index < ·.index) :=
  (remembers_iff.mp h).pairwise

theorem Remembers.index_le (h : s.Remembers log) {c : Change} (hc : c ∈ log) :
    c.index ≤ s.index := ((remembers_iff.mp h).index_of_mem hc).2.1

theorem Remembers.mem_history (h : s.Remembers log) {c : Change} (hc : c ∈ log)
    (hev : s.evictedUpTo < c.index) : c ∈ s.history := by
  rw [(remembers_iff.mp h).history_eq_filter]
  exact List.mem_filter.mpr ⟨hc, decide_eq_true hev⟩

/-- The first change of a key in a log with an index above `after`. -/
structure IsFirst (log : List Change) (key : Key) (recursive : Bool) (after : Nat) (c : Change) :
    Prop where
  mem : c ∈ log
  above : after < c.index
  covered : key.Covers recursive c.key
  first : ∀ x ∈ log, after < x.index → x.index < c.index → ¬ key.Covers recursive x.key

theorem IsFirst.append {new : List Change} {c : Change} (h : IsFirst log key recursive after c)
    (hnew : ∀ x ∈ new, c.index ≤ x.index) : IsFirst (log ++ new) key recursive after c := by
  refine ⟨List.mem_append_left _ h.mem, h.above, h.covered, fun x hx habove hlt => ?_⟩
  rcases List.mem_append.mp hx with hx | hx
  · exact h.first x hx habove hlt
  · exact absurd hlt (Nat.not_lt_of_le (hnew x hx))

theorem IsFirst.unique {x y : Change} (h : IsFirst log key recursive after x)
    (h' : IsFirst log key recursive after y) (sorted : log.Pairwise (·.index < ·.index)) :
    x = y := by
  have hle : x.index ≤ y.index := Nat.le_of_not_lt fun hlt =>
    h.first y h'.mem h'.above hlt h'.covered
  have hge : y.index ≤ x.index := Nat.le_of_not_lt fun hlt =>
    h'.first x h.mem h.above hlt h.covered
  have hnodup : (log.map (·.index)).Nodup := List.pairwise_map.mpr (sorted.imp Nat.ne_of_lt)
  exact List.inj_on_of_nodup_map hnodup h.mem h'.mem (Nat.le_antisymm hle hge)

/-- Up to the first change that is asked for, there is nothing else to report. -/
theorem IsFirst.filter_eq {c : Change} (h : IsFirst log key recursive after c)
    (sorted : log.Pairwise (·.index < ·.index)) {p : Change → Prop} [DecidablePred p]
    (covered : ∀ x, p x → key.Covers recursive x.key) (hc : p c) :
    log.filter (fun x => x.index ≤ c.index ∧ p x) =
      log.filter (fun x => x.index ≤ after ∧ p x) ++ [c] := by
  obtain ⟨before, rest, rfl⟩ := List.append_of_mem h.mem
  obtain ⟨-, hcons, hbefore⟩ := List.pairwise_append.mp sorted
  have habove := h.above
  have hrest : ∀ n ≤ c.index, rest.filter (fun x => x.index ≤ n ∧ p x) = [] := by
    refine fun n hn => List.filter_eq_nil_iff.mpr fun x hx hp => ?_
    have := List.rel_of_pairwise_cons hcons hx
    have := (of_decide_eq_true hp).1
    omega
  have hsame : before.filter (fun x => x.index ≤ c.index ∧ p x) =
      before.filter (fun x => x.index ≤ after ∧ p x) := by
    refine List.filter_congr fun x hx => decide_eq_decide.mpr ?_
    have hlt := hbefore x hx c List.mem_cons_self
    refine ⟨fun ⟨_, hp⟩ => ⟨?_, hp⟩, fun ⟨hle, hp⟩ => ⟨by omega, hp⟩⟩
    by_contra hgt
    exact h.first x (List.mem_append_left _ hx) (by omega) hlt (covered x hp)
  rw [List.filter_append, List.filter_append, List.filter_cons_of_pos, List.filter_cons_of_neg,
    hrest _ (Nat.le_refl _), hrest _ habove.le, hsame, List.append_nil]
  · exact fun hp => Nat.not_le_of_lt habove (of_decide_eq_true hp).1
  · exact decide_eq_true ⟨Nat.le_refl _, hc⟩

/-- **An answer reports the first change that was asked for.** -/
theorem Remembers.isFirst (h : s.Remembers log) {response : Response}
    (hanswer : s.answer? key recursive after = some (.ok response)) :
    ∃ c, IsFirst log key recursive after c ∧ response = c.response := by
  unfold answer? at hanswer
  split_ifs at hanswer with hev
  · cases Option.some.inj hanswer
  · obtain ⟨c, hc, hresponse⟩ := Option.map_eq_some_iff.mp hanswer
    have hlog : c ∈ log := List.mem_of_mem_drop (h.kept ▸ List.mem_of_find?_eq_some hc)
    obtain ⟨hp, before, rest, hsplit, hbefore⟩ := List.find?_eq_some_iff_append.mp hc
    obtain ⟨habove, hcovered⟩ := of_decide_eq_true hp
    refine ⟨c, ⟨hlog, habove, hcovered, fun x hx hxabove hlt hxcovered => ?_⟩,
      (Except.ok.inj hresponse).symm⟩
    -- the change in question would stand before the one that was found
    have hin := h.mem_history hx (by omega)
    have hsorted : s.history.Pairwise (·.index < ·.index) := h.kept ▸ h.sorted.drop
    rw [hsplit] at hin hsorted
    rcases List.mem_append.mp hin with hin | hin
    · have := hbefore x hin
      simp only [Bool.not_eq_true', decide_eq_false_iff_not] at this
      exact this ⟨hxabove, hxcovered⟩
    · rcases List.mem_cons.mp hin with rfl | hin
      · exact Nat.lt_irrefl _ hlt
      · have hrest := (List.pairwise_append.mp hsorted).2.1
        have := List.rel_of_pairwise_cons hrest hin
        omega

theorem Remembers.forgotten (h : s.Remembers log) {refusal : Refusal}
    (hanswer : s.answer? key recursive after = some (.error refusal)) :
    refusal.code = Refusal.eventIndexCleared ∧ refusal.index = s.index ∧
      after < s.evictedUpTo ∧ s.evictedUpTo ≤ s.index := by
  have hev := h.evicted
  unfold answer? at hanswer
  split_ifs at hanswer with hlt
  · obtain rfl := Except.error.inj (Option.some.inj hanswer)
    exact ⟨rfl, rfl, hlt, by omega⟩
  · obtain ⟨c, -, hc⟩ := Option.map_eq_some_iff.mp hanswer
    cases hc

theorem Remembers.silent (h : s.Remembers log) (hanswer : s.answer? key recursive after = none) :
    ∀ c ∈ log, after < c.index → ¬ key.Covers recursive c.key := by
  intro c hc habove hcovered
  unfold answer? at hanswer
  split_ifs at hanswer with hev
  have hin := h.mem_history hc (by omega)
  have := List.find?_eq_none.mp (Option.map_eq_none_iff.mp hanswer) c hin
  exact this (decide_eq_true ⟨habove, hcovered⟩)

theorem Remembers.exists_answer (h : s.Remembers log) {c : Change} (hc : c ∈ log)
    (habove : after < c.index) (hcovered : key.Covers recursive c.key) :
    ∃ answer, s.answer? key recursive after = some answer := by
  cases hanswer : s.answer? key recursive after with
  | none => exact absurd hcovered (h.silent hanswer c hc habove)
  | some answer => exact ⟨answer, rfl⟩

theorem await_eq (s : Store) (now : Nat) (key : Key) (recursive : Bool) (after : Nat) :
    (s.await now key recursive after).2 = match (s.expire now).answer? key recursive after with
      | some answer => .inl answer
      | none => .inr ⟨key, recursive, after, (s.expire now).contents.nextDeadline?,
          (s.expire now).signals⟩ := by
  unfold await
  dsimp only
  cases (s.expire now).answer? key recursive after <;> rfl

end ClusterRegistry.Store
