import Mathlib.Data.List.TakeDrop
import ClusterRegistry.Proofs.Store.Order

/-!
# What a store remembers

The history of a store is the end of the log of all that it ever recorded. The log has one change
for each index, but for those that writes took which broke off.

* `Store.Recounts`, `Store.Remembers`: the history is the end of the log, with gaps and without;
* `Store.Recounts.forgotten_cases`, `Store.Recounts.history_eq_filter`,
  `Store.Recounts.unbroken_iff`: what is in the history;
* **`Store.Edit.recounts`**, `Store.Recounts.begun`: an edit keeps that, and a write that breaks off
  once it has begun leaves a gap;
* `Store.remembers_iff`, `Course.run_remembers`: no course has gaps.
-/

namespace ClusterRegistry

namespace Store

/-- The log has one change for each index so far but the gaps, and the history is the end of it. -/
structure Recounts (s : Store) (log : List Change) (gaps : List Nat) : Prop where
  numbered : log.map (·.index) = (List.range' 1 s.index).filter (· ∉ gaps)
  gapped : gaps.Pairwise (· < ·) ∧ ∀ i ∈ gaps, 1 ≤ i ∧ i ≤ s.index
  stamped : ∀ c ∈ log, c.node.modifiedIndex = c.index
  kept : s.history = log.drop (log.length - historyCapacity)
  evicted : s.evictedUpTo =
    ((log.take (log.length - historyCapacity)).getLast?.map (·.index)).getD 0

/-- The log has one change for each index so far, and the history is the end of it. -/
structure Remembers (s : Store) (log : List Change) : Prop where
  numbered : log.map (·.index) = List.range' 1 s.index
  stamped : ∀ c ∈ log, c.node.modifiedIndex = c.index
  evicted : s.evictedUpTo = s.index - historyCapacity
  kept : s.history = log.drop s.evictedUpTo

variable {now : Nat} {s s' : Store} {c : Option Change} {log : List Change} {gaps : List Nat}

/-! ## One more change -/

theorem record_history {c : Change} (h : s.history.length ≤ historyCapacity) :
    (s.record c).history = (s.history ++ [c]).drop (s.history.length + 1 - historyCapacity) := by
  have hcap : 0 < historyCapacity := by decide
  unfold record
  cases hist : s.history with
  | nil =>
    rw [List.length_nil, show 0 + 1 - historyCapacity = 0 by omega]
    rfl
  | cons oldest rest =>
    rw [hist] at h
    dsimp only
    split_ifs with hroom
    · rw [show (oldest :: rest).length + 1 - historyCapacity = 0 by omega]
      rfl
    · rw [show (oldest :: rest).length + 1 - historyCapacity = 1 by omega]
      rfl

theorem record_evictedUpTo (s : Store) (c : Change) : (s.record c).evictedUpTo =
    if s.history.length < historyCapacity then s.evictedUpTo
    else (s.history.head?.map (·.index)).getD s.evictedUpTo := by
  unfold record
  cases hist : s.history with
  | nil => rfl
  | cons oldest rest =>
    dsimp only
    split_ifs <;> rfl

/-! ## The end of the log -/

theorem Recounts.empty : Store.empty.Recounts [] [] where
  numbered := rfl
  gapped := ⟨.nil, fun _ h => absurd h List.not_mem_nil⟩
  stamped _ hc := absurd hc List.not_mem_nil
  kept := rfl
  evicted := rfl

theorem Recounts.pairwise (h : s.Recounts log gaps) :
    log.Pairwise fun c d => c.index < d.index := by
  have hsorted : (log.map (·.index)).Pairwise (· < ·) := by
    rw [h.numbered]
    exact List.Pairwise.filter _ List.pairwise_lt_range'
  exact List.pairwise_map.mp hsorted

theorem Recounts.index_of_mem (h : s.Recounts log gaps) {c : Change} (hc : c ∈ log) :
    1 ≤ c.index ∧ c.index ≤ s.index ∧ c.index ∉ gaps := by
  have hmem := List.mem_map_of_mem (f := (·.index)) hc
  rw [h.numbered, List.mem_filter, List.mem_range'_1, decide_eq_true_eq] at hmem
  exact ⟨hmem.1.1, by omega, hmem.2⟩

/-- What is recorded later has higher indices, and so have the gaps that come later. -/
theorem Recounts.index_lt_of_append {new : List Change} {lost : List Nat} (h : s.Recounts log gaps)
    (h' : s'.Recounts (log ++ new) (gaps ++ lost)) :
    (∀ c ∈ new, s.index < c.index) ∧ ∀ i ∈ lost, s.index < i := by
  have htaken : ∀ i, 1 ≤ i → i ≤ s.index → i ∈ gaps ∨ ∃ d ∈ log, d.index = i := by
    intro i hpos hle
    by_cases hgap : i ∈ gaps
    · exact Or.inl hgap
    · refine Or.inr (List.mem_map.mp ?_)
      rw [h.numbered, List.mem_filter, List.mem_range'_1]
      exact ⟨by omega, decide_eq_true hgap⟩
  constructor
  · intro c hc
    obtain ⟨hpos, -, hkept⟩ := h'.index_of_mem (List.mem_append_right _ hc)
    refine Nat.lt_of_not_le fun hle => ?_
    rcases htaken c.index hpos hle with hgap | ⟨d, hd, hsame⟩
    · exact hkept (List.mem_append_left _ hgap)
    · have := (List.pairwise_append.mp h'.pairwise).2.2 d hd c hc
      omega
  · intro i hi
    have hpos := (h'.gapped.2 i (List.mem_append_right _ hi)).1
    refine Nat.lt_of_not_le fun hle => ?_
    rcases htaken i hpos hle with hgap | ⟨d, hd, rfl⟩
    · exact Nat.lt_irrefl _ ((List.pairwise_append.mp h'.gapped.1).2.2 i hgap i hi)
    · exact (h'.index_of_mem (List.mem_append_left _ hd)).2.2 (List.mem_append_right _ hi)

theorem Recounts.filter_append {new : List Change} {lost : List Nat} (h : s.Recounts log gaps)
    (h' : s'.Recounts (log ++ new) (gaps ++ lost)) :
    (log ++ new).filter (s.index < ·.index) = new := by
  rw [List.filter_append, List.filter_eq_nil_iff.mpr, List.nil_append, List.filter_eq_self.mpr]
  · exact fun c hc => decide_eq_true ((h.index_lt_of_append h').1 c hc)
  · intro c hc
    rw [decide_eq_true_eq]
    exact Nat.not_lt_of_le (h.index_of_mem hc).2.1

/-- Nothing has been forgotten so far, or everything up to a change before the history. -/
theorem Recounts.forgotten_cases (h : s.Recounts log gaps) :
    (log.length ≤ historyCapacity ∧ s.evictedUpTo = 0 ∧ s.history = log) ∨
      ∃ front d, historyCapacity < log.length ∧ s.evictedUpTo = d.index ∧
        log = front ++ d :: s.history := by
  have hkept := h.kept
  have hevicted := h.evicted
  rcases Nat.lt_or_ge historyCapacity log.length with hlt | hle
  · have hsplit := List.take_append_drop (log.length - historyCapacity) log
    obtain ⟨front, d, hd⟩ : ∃ front d, log.take (log.length - historyCapacity) = front ++ [d] := by
      refine (List.eq_nil_or_concat' _).resolve_left fun hnil => ?_
      have := congrArg List.length hnil
      rw [List.length_take, List.length_nil] at this
      omega
    rw [hd, List.getLast?_concat] at hevicted
    rw [hd, ← hkept, List.append_assoc] at hsplit
    exact Or.inr ⟨front, d, hlt, hevicted, hsplit.symm⟩
  · rw [Nat.sub_eq_zero_of_le hle] at hkept hevicted
    exact Or.inl ⟨hle, hevicted, hkept⟩

theorem Recounts.evictedUpTo_le (h : s.Recounts log gaps) : s.evictedUpTo ≤ s.index := by
  rcases h.forgotten_cases with ⟨-, hzero, -⟩ | ⟨front, d, -, hd, hlog⟩
  · omega
  · rw [hd]
    exact (h.index_of_mem (hlog ▸ List.mem_append_right _ List.mem_cons_self)).2.1

theorem Recounts.history_eq_filter (h : s.Recounts log gaps) :
    s.history = log.filter (s.evictedUpTo < ·.index) := by
  rcases h.forgotten_cases with ⟨-, hzero, hall⟩ | ⟨front, d, -, hd, hlog⟩
  · rw [hall, List.filter_eq_self.mpr]
    intro c hc
    have := (h.index_of_mem hc).1
    exact decide_eq_true (by omega)
  · have hpairwise := h.pairwise
    rw [hlog] at hpairwise
    obtain ⟨-, hafter, hbefore⟩ := List.pairwise_append.mp hpairwise
    have hfront : front.filter (s.evictedUpTo < ·.index) = [] := by
      refine List.filter_eq_nil_iff.mpr fun c hc => ?_
      have := hbefore c hc d List.mem_cons_self
      rw [decide_eq_true_eq]
      omega
    rw [hlog, List.filter_append, hfront, List.filter_cons_of_neg, List.filter_eq_self.mpr]
    · rfl
    · intro c hc
      have := List.rel_of_pairwise_cons hafter hc
      exact decide_eq_true (by omega)
    · rw [decide_eq_true_eq]
      omega

theorem Recounts.filter_history (h : s.Recounts log gaps) {i : Nat} (kept : s.evictedUpTo ≤ i) :
    s.history.filter (i < ·.index) = log.filter (i < ·.index) := by
  rw [h.history_eq_filter, List.filter_filter]
  refine List.filter_congr fun c _ => ?_
  rw [Bool.and_eq_left_iff_imp, decide_eq_true_eq, decide_eq_true_eq]
  omega

theorem Recounts.map_filter_log (h : s.Recounts log gaps) (i : Nat) :
    (log.filter (i < ·.index)).map (·.index) =
      (List.range' (i + 1) (s.index - i)).filter (· ∉ gaps) := by
  have hrange : (List.range' 1 s.index).filter (i < ·) = List.range' (i + 1) (s.index - i) := by
    rcases Nat.le_total i s.index with hi | hi
    · have hsplit : List.range' 1 s.index = List.range' 1 i ++ List.range' (1 + i) (s.index - i) := by
        rw [List.range'_append_1, Nat.add_sub_cancel' hi]
      rw [hsplit, List.filter_append, List.filter_eq_nil_iff.mpr, List.nil_append,
        List.filter_eq_self.mpr, Nat.add_comm]
      · intro j hj
        have := List.mem_range'_1.mp hj
        exact decide_eq_true (by omega)
      · intro j hj
        have := List.mem_range'_1.mp hj
        rw [decide_eq_true_eq]
        omega
    · rw [show s.index - i = 0 by omega, List.range'_zero, List.filter_eq_nil_iff]
      intro j hj
      have := List.mem_range'_1.mp hj
      rw [decide_eq_true_eq]
      omega
  rw [← hrange, List.filter_comm, ← h.numbered, List.filter_map]
  rfl

theorem Recounts.length_log (h : s.Recounts log gaps) : log.length = s.index - gaps.length := by
  have hnodup : (List.range' 1 s.index).Nodup := List.nodup_range'
  have hgaps : ((List.range' 1 s.index).filter (· ∈ gaps)).Perm gaps := by
    refine (List.perm_ext_iff_of_nodup (hnodup.filter _) (h.gapped.1.imp Nat.ne_of_lt)).mpr
      fun i => ?_
    rw [List.mem_filter, List.mem_range'_1, decide_eq_true_eq]
    refine ⟨fun hi => hi.2, fun hi => ⟨?_, hi⟩⟩
    have := h.gapped.2 i hi
    omega
  have hlog := congrArg List.length h.numbered
  have hsplit := (List.range' 1 s.index).length_eq_length_filter_add (· ∈ gaps)
  simp only [decide_not] at hlog
  rw [hgaps.length_eq, List.length_range'] at hsplit
  rw [List.length_map] at hlog
  omega

theorem Recounts.map_history (h : s.Recounts log gaps) : s.history.map (·.index) =
    (List.range' (s.evictedUpTo + 1) (s.index - s.evictedUpTo)).filter (· ∉ gaps) := by
  rw [h.history_eq_filter, h.map_filter_log]

theorem Recounts.length_history (h : s.Recounts log gaps) :
    s.history.length = min (s.index - gaps.length) historyCapacity := by
  rw [h.kept, List.length_drop, ← h.length_log]
  omega

/-- The history has one index after the other just as long as it has lost all gaps. -/
theorem Recounts.unbroken_iff (h : s.Recounts log gaps) :
    s.history.map (·.index) = List.range' (s.evictedUpTo + 1) (s.index - s.evictedUpTo) ∧
      s.history.length = min s.index historyCapacity ↔ ∀ i ∈ gaps, i ≤ s.evictedUpTo := by
  rw [h.map_history, h.length_history]
  constructor
  · rintro ⟨hall, -⟩ i hi
    by_contra hlt
    have hmem : i ∈ List.range' (s.evictedUpTo + 1) (s.index - s.evictedUpTo) := by
      have := (h.gapped.2 i hi).2
      rw [List.mem_range'_1]
      omega
    exact of_decide_eq_true (List.filter_eq_self.mp hall i hmem) hi
  · intro hold
    refine ⟨List.filter_eq_self.mpr fun i hi => decide_eq_true fun hgap => ?_, ?_⟩
    · have := hold i hgap
      have := (List.mem_range'_1.mp hi).1
      omega
    · rcases h.forgotten_cases with ⟨-, hzero, -⟩ | ⟨_, _, hlt, -⟩
      · -- nothing has been forgotten, and so there are no gaps
        have hnone : gaps = [] := List.eq_nil_iff_forall_not_mem.mpr fun i hi => by
          have := hold i hi
          have := (h.gapped.2 i hi).1
          omega
        rw [hnone, List.length_nil, Nat.sub_zero]
      · rw [h.length_log] at hlt
        omega

/-! ## Edits -/

theorem Recounts.record (h : s.Recounts log gaps) (contents : Contents) {c : Change}
    (hindex : c.index = s.index + 1) (hstamp : c.node.modifiedIndex = c.index) :
    (({ s with contents := contents, index := s.index + 1 } : Store).record c).Recounts
      (log ++ [c]) gaps := by
  have hcap : 0 < historyCapacity := by decide
  have hlen := h.length_history
  rw [← h.length_log] at hlen
  have hnew : s.index + 1 ∉ gaps := fun hmem => by
    have := (h.gapped.2 _ hmem).2
    omega
  have hroom : s.history.length ≤ historyCapacity := by omega
  refine ⟨?_, ⟨h.gapped.1, fun i hi => ?_⟩, fun x hx => ?_, ?_, ?_⟩
  · have hlast : [s.index + 1].filter (· ∉ gaps) = [s.index + 1] := by simp [hnew]
    rw [record_index, List.range'_concat, List.filter_append, List.map_append, h.numbered,
      List.map_singleton, hindex, Nat.one_mul, Nat.add_comm 1, hlast]
  · rw [record_index]
    have := h.gapped.2 i hi
    exact ⟨this.1, Nat.le_succ_of_le this.2⟩
  · rcases List.mem_append.mp hx with hx | hx
    · exact h.stamped x hx
    · rw [List.mem_singleton.mp hx]
      exact hstamp
  · refine (record_history (s := { s with contents := contents, index := s.index + 1 })
      hroom).trans ?_
    change (s.history ++ [c]).drop (s.history.length + 1 - historyCapacity) = _
    rw [hlen, h.kept, List.length_append, List.length_singleton,
      ← List.drop_append_of_le_length (by omega), List.drop_drop]
    exact congrArg (List.drop · (log ++ [c])) (by omega)
  · rw [record_evictedUpTo, List.length_append, List.length_singleton]
    change (if s.history.length < historyCapacity then s.evictedUpTo
      else (s.history.head?.map (·.index)).getD s.evictedUpTo) = _
    split_ifs with hless
    · rw [h.evicted, show log.length - historyCapacity = 0 by omega,
        show log.length + 1 - historyCapacity = 0 by omega, List.take_zero, List.take_zero]
    · -- the history is full, and its oldest change goes
      have hlt : log.length - historyCapacity < log.length := by omega
      rw [h.kept, List.head?_drop, List.getLast?_take, if_neg (by omega),
        show log.length + 1 - historyCapacity - 1 = log.length - historyCapacity by omega,
        List.getElem?_append_left hlt, List.getElem?_eq_getElem hlt]
      rfl

/-- **Every edit keeps the history the end of the log.** -/
theorem Edit.recounts (edit : Edit now s c s') (h : s.Recounts log gaps) :
    s'.Recounts (log ++ c.toList) gaps := by
  cases edit with
  | signal =>
    rw [Option.toList_none, List.append_nil]
    exact ⟨h.numbered, h.gapped, h.stamped, h.kept, h.evicted⟩
  | refresh =>
    rw [Option.toList_none, List.append_nil]
    exact ⟨h.numbered, h.gapped, h.stamped, h.kept, h.evicted⟩
  | @drop key e _ action _ =>
    exact h.record (s.contents.prune key) (c := (s.drop now action key e).2) rfl rfl
  | @put key _ _ _ value options =>
    have := h.record ((s.contents.addParents (s.index + 1) key.ancestors).insert key
      (s.written now s.contents[key]? value options))
      (c := (s.put now key s.contents[key]? value options).2) rfl rfl
    exact ⟨this.numbered, this.gapped, this.stamped, this.kept, this.evicted⟩

theorem Edits.recounts {new : List Change} (edits : Edits now s new s')
    (h : s.Recounts log gaps) : s'.Recounts (log ++ new) gaps :=
  edits.keep (P := fun s log => s.Recounts log gaps) (fun _ _ _ _ edit h => edit.recounts h) log h

theorem Recounts.begun (h : s.Recounts log gaps) (key : Key) :
    (s.begun key).Recounts log (gaps ++ [s.index + 1]) where
  numbered := by
    change _ = (List.range' 1 (s.index + 1)).filter _
    rw [List.range'_concat, List.filter_append, h.numbered, Nat.one_mul, Nat.add_comm 1]
    have hgap : [s.index + 1].filter (· ∉ gaps ++ [s.index + 1]) = [] := by simp
    rw [hgap, List.append_nil]
    refine List.filter_congr fun i hi => ?_
    have hne : i ≠ s.index + 1 := by
      have := List.mem_range'_1.mp hi
      omega
    simp [hne]
  gapped := by
    refine ⟨List.pairwise_append.mpr ⟨h.gapped.1, List.pairwise_singleton _ _, ?_⟩, fun i hi => ?_⟩
    · intro i hi j hj
      have := h.gapped.2 i hi
      rw [List.mem_singleton.mp hj]
      omega
    · change 1 ≤ i ∧ i ≤ s.index + 1
      rcases List.mem_append.mp hi with hi | hi
      · have := h.gapped.2 i hi
        omega
      · rw [List.mem_singleton.mp hi]
        omega
  stamped := h.stamped
  kept := h.kept
  evicted := h.evicted

/-! ## Without gaps -/

theorem Remembers.length (h : s.Remembers log) : log.length = s.index := by
  have := congrArg List.length h.numbered
  rwa [List.length_map, List.length_range'] at this

theorem Remembers.getElem_index (h : s.Remembers log) {i : Nat} (hi : i < log.length) :
    log[i].index = i + 1 := by
  have := List.getElem_map (·.index) (l := log) (i := i) (h := by simpa using hi)
  rw [← this]
  simp only [h.numbered, List.getElem_range']
  omega

theorem remembers_iff : s.Remembers log ↔ s.Recounts log [] := by
  have hfilter : (List.range' 1 s.index).filter (· ∉ []) = List.range' 1 s.index := by simp
  -- without gaps the index of a change is its place in the log
  have hlast : log.map (·.index) = List.range' 1 s.index → log.length = s.index ∧
      ((log.take (log.length - historyCapacity)).getLast?.map (·.index)).getD 0 =
        s.index - historyCapacity := by
    intro hnumbered
    have hlen : log.length = s.index := by
      rw [← List.length_map (f := (·.index)), hnumbered, List.length_range']
    rw [← List.getLast?_map, List.map_take, hnumbered, hlen]
    refine ⟨rfl, ?_⟩
    rw [List.getLast?_take]
    split_ifs with hnone
    · exact hnone.symm
    · rw [List.getElem?_range' (by omega)]
      change 1 + 1 * (s.index - historyCapacity - 1) = s.index - historyCapacity
      omega
  constructor
  · intro h
    obtain ⟨hlen, hevicted⟩ := hlast h.numbered
    refine ⟨by rw [hfilter, h.numbered], ⟨.nil, fun _ hi => absurd hi List.not_mem_nil⟩, h.stamped,
      ?_, h.evicted.trans hevicted.symm⟩
    rw [h.kept, h.evicted, hlen]
  · intro h
    have hnumbered := h.numbered
    rw [hfilter] at hnumbered
    obtain ⟨hlen, hevicted⟩ := hlast hnumbered
    refine ⟨hnumbered, h.stamped, h.evicted.trans hevicted, ?_⟩
    rw [h.kept, h.evicted, hevicted, hlen]

theorem Remembers.empty : Store.empty.Remembers [] := remembers_iff.mpr .empty

theorem Edits.remembers {new : List Change} (edits : Edits now s new s') (h : s.Remembers log) :
    s'.Remembers (log ++ new) := remembers_iff.mpr (edits.recounts (remembers_iff.mp h))

theorem Edit.remembers (edit : Edit now s c s') (h : s.Remembers log) :
    s'.Remembers (log ++ c.toList) := edit.edits.remembers h

theorem Remembers.expire (h : s.Remembers log) (now : Nat) :
    (s.expire now).Remembers (log ++ s.expiries now) := (expire_edits s now).remembers h

end Store

theorem Course.run_remembers (steps : List Step) : (run steps).store.Remembers (run steps).log :=
  run_keep .empty (fun _ _ _ _ _ edit h => edit.remembers h) steps

end ClusterRegistry
