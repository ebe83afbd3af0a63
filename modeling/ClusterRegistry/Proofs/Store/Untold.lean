import ClusterRegistry.Proofs.Store.Replay
import ClusterRegistry.Proofs.Store.Voyage

/-!
# What the history does not tell

Whoever knows the contents of a store at one moment and the changes that it has recorded since can
tell the contents at a later moment, but for the directories that a write has left which broke off.

* `Contents.Retells`: contents that are those of a store, but for directories that came with a gap;
* `Contents.Retells.insert`, `Contents.Retells.prune`, **`Store.Edit.retells`**: a change that is
  done again keeps that;
* `Contents.Retells.loseParents`: a write that breaks off leaves directories of that kind;
* **`Voyage.run_replay`**, `Voyage.untold_parent`: between any two moments of a voyage.
-/

namespace ClusterRegistry

namespace Contents

/-- Contents that are the real ones up to an index without the deadlines, but for the directories
that were created with an index that is lost. -/
structure Retells (m real : Contents) (index : Nat) (lost : List Nat) : Prop where
  past : ∀ i ∈ lost, i ≤ index
  known : ∀ (k : Key) (e : Entry), m[k]? = some e →
    real[k]? ≠ none ∧ e.createdIndex ∉ lost ∧ e.createdIndex ≤ index
  told : ∀ (k : Key) (e : Entry), real[k]? = some e → e.createdIndex ∉ lost →
    m[k]? = some e.timeless
  dirs : ∀ (k : Key) (e : Entry), real[k]? = some e → e.createdIndex ∈ lost → e.dir = true

namespace Retells

variable {m real : Contents} {index : Nat} {lost : List Nat} {key k : Key} {e : Entry}

/-- What is not told is just what was created with an index that is lost. -/
theorem lookup_iff (h : m.Retells real index lost) (k : Key) :
    m[k]? = real.timeless[k]? ↔ ∀ e, real[k]? = some e → e.createdIndex ∉ lost := by
  rw [lookup_timeless]
  constructor
  · intro hsame e he
    rw [he] at hsame
    exact (h.known k e.timeless hsame).2.1
  · intro hkept
    cases hreal : real[k]? with
    | some e => exact h.told k e hreal (hkept e hreal)
    | none => exact Option.eq_none_iff_forall_ne_some.mpr fun e he => (h.known k e he).1 hreal

theorem lookup_none (h : m.Retells real index lost) (hreal : real[k]? = none) : m[k]? = none :=
  Option.eq_none_iff_forall_ne_some.mpr fun e he => (h.known k e he).1 hreal

theorem createdIndex_le (h : m.Retells real index lost) (hreal : real[k]? = some e) :
    e.createdIndex ≤ index := by
  by_cases hlost : e.createdIndex ∈ lost
  · exact h.past _ hlost
  · exact (h.known k e.timeless (h.told k e hreal hlost)).2.2

theorem succ_not_mem (h : m.Retells real index lost) : index + 1 ∉ lost := fun hmem =>
  Nat.not_succ_le_self _ (h.past _ hmem)

/-! ## What happens to both -/

theorem refresh (h : m.Retells real index lost) (present : real[key]? = some e)
    (deadline : Option Nat) :
    m.Retells (real.insert key { e with deadline := deadline }) index lost := by
  -- every entry is one that was there before, but for its deadline
  have hlook : ∀ (k : Key) (x : Entry),
      (real.insert key { e with deadline := deadline } : Contents)[k]? = some x →
      ∃ y, real[k]? = some y ∧ x.createdIndex = y.createdIndex ∧ x.dir = y.dir ∧
        x.timeless = y.timeless := by
    intro k x hx
    rw [Key.lookup_insert] at hx
    split_ifs at hx with hk
    · obtain rfl := Option.some.inj hx
      exact ⟨e, hk ▸ present, rfl, rfl, rfl⟩
    · exact ⟨x, hx, rfl, rfl, rfl⟩
  refine ⟨h.past, fun k x hx => ⟨?_, (h.known k x hx).2⟩, fun k x hx hkept => ?_,
    fun k x hx hlost => ?_⟩
  · rw [Key.lookup_insert]
    split_ifs
    · exact Option.some_ne_none _
    · exact (h.known k x hx).1
  · obtain ⟨y, hy, hcreated, -, htimeless⟩ := hlook k x hx
    rw [htimeless]
    exact h.told k y hy (hcreated ▸ hkept)
  · obtain ⟨y, hy, hcreated, hdir, -⟩ := hlook k x hx
    rw [hdir]
    exact h.dirs k y hy (hcreated ▸ hlost)

theorem insert (h : m.Retells real index lost) (kept : e.createdIndex ∉ lost)
    (le : e.createdIndex ≤ index) (key : Key) :
    Retells (m.insert key e.timeless) (real.insert key e) index lost := by
  refine ⟨h.past, fun k x hx => ?_, fun k x hx hkept => ?_, fun k x hx hlost => ?_⟩
  · rw [Key.lookup_insert] at hx ⊢
    split_ifs at hx ⊢ with hk
    · obtain rfl := Option.some.inj hx
      exact ⟨Option.some_ne_none _, kept, le⟩
    · exact h.known k x hx
  · rw [Key.lookup_insert] at hx ⊢
    split_ifs at hx ⊢ with hk
    · rw [Option.some.inj hx]
    · exact h.told k x hx hkept
  · rw [Key.lookup_insert] at hx
    split_ifs at hx with hk
    · rw [← Option.some.inj hx] at hlost
      exact absurd hlost kept
    · exact h.dirs k x hx hlost

theorem prune (h : m.Retells real index lost) (key : Key) :
    (m.prune key).Retells (real.prune key) (index + 1) lost := by
  refine ⟨fun i hi => Nat.le_succ_of_le (h.past i hi), fun k x hx => ?_, fun k x hx hkept => ?_,
    fun k x hx hlost => ?_⟩
  · rw [lookup_prune] at hx ⊢
    split_ifs at hx ⊢
    have := h.known k x hx
    exact ⟨this.1, this.2.1, Nat.le_succ_of_le this.2.2⟩
  · rw [lookup_prune] at hx ⊢
    split_ifs at hx ⊢
    exact h.told k x hx hkept
  · rw [lookup_prune] at hx
    split_ifs at hx
    exact h.dirs k x hx hlost

theorem addParents (h : m.Retells real index lost) (keys : List Key) :
    (m.addParents (index + 1) keys).Retells (real.addParents (index + 1) keys) (index + 1) lost := by
  refine ⟨fun i hi => Nat.le_succ_of_le (h.past i hi), fun k x hx => ?_, fun k x hx hkept => ?_,
    fun k x hx hlost => ?_⟩
  · rcases lookup_addParents_cases hx with hx | ⟨-, rfl, hk⟩
    · have := h.known k x hx
      exact ⟨addParents_ne_none this.1, this.2.1, Nat.le_succ_of_le this.2.2⟩
    · rw [lookup_addParents, if_pos hk]
      exact ⟨Option.some_ne_none _, h.succ_not_mem, Nat.le_refl _⟩
  · rw [lookup_addParents]
    rcases lookup_addParents_cases hx with hx | ⟨hnone, rfl, hk⟩
    · rw [h.told k x hx hkept, Option.getD_some, ite_self]
    · rw [h.lookup_none hnone, if_pos hk]
      rfl
  · rcases lookup_addParents_cases hx with hx | ⟨-, rfl, -⟩
    · exact h.dirs k x hx hlost
    · rfl

theorem loseParents (h : m.Retells real index lost) (keys : List Key) :
    m.Retells (real.addParents (index + 1) keys) (index + 1) (lost ++ [index + 1]) := by
  have hlost : ∀ i, i ∈ lost ++ [index + 1] ↔ i ∈ lost ∨ i = index + 1 := fun i => by
    rw [List.mem_append, List.mem_singleton]
  refine ⟨fun i hi => ?_, fun k x hx => ?_, fun k x hx hkept => ?_, fun k x hx hgone => ?_⟩
  · rcases (hlost i).mp hi with hi | rfl
    · exact Nat.le_succ_of_le (h.past i hi)
    · exact Nat.le_refl _
  · obtain ⟨hreal, hkept, hle⟩ := h.known k x hx
    refine ⟨addParents_ne_none hreal, fun hmem => ?_, Nat.le_succ_of_le hle⟩
    rcases (hlost _).mp hmem with hmem | hmem
    · exact hkept hmem
    · omega
  · rcases lookup_addParents_cases hx with hx | ⟨-, rfl, -⟩
    · exact h.told k x hx fun hmem => hkept ((hlost _).mpr (Or.inl hmem))
    · exact absurd ((hlost _).mpr (Or.inr rfl)) hkept
  · rcases lookup_addParents_cases hx with hx | ⟨-, rfl, -⟩
    · rcases (hlost _).mp hgone with hgone | hgone
      · exact h.dirs k x hx hgone
      · have := h.createdIndex_le hx
        omega
    · rfl

end Retells

end Contents

namespace Store

variable {s s' : Store} {now : Nat} {lost : List Nat} {m : Contents}

/-! ## Edits -/

theorem InOrder.retells (h : s.InOrder) :
    s.contents.timeless.Retells s.contents s.index [] where
  past _ hi := absurd hi List.not_mem_nil
  known k e he := by
    rw [Contents.lookup_timeless] at he
    obtain ⟨d, hd, rfl⟩ := Option.map_eq_some_iff.mp he
    have := h.indices k d hd
    rw [hd]
    exact ⟨Option.some_ne_none d, List.not_mem_nil, Nat.le_trans this.2.1 this.2.2⟩
  told k e he _ := by
    rw [Contents.lookup_timeless, he]
    rfl
  dirs _ _ _ hlost := absurd hlost List.not_mem_nil

/-- **A change that is done again leaves out what was left out before, and nothing else.** -/
theorem Edit.retells {c : Option Change} (edit : Edit now s c s')
    (h : m.Retells s.contents s.index lost) :
    (m.replay c.toList).Retells s'.contents s'.index lost := by
  cases edit with
  | signal => exact h
  | refresh present lifetime => exact h.refresh present _
  | @drop key e _ action removal =>
    have hredo : m.replay [(s.drop now action key e).2] = m.prune key := redo_drop removal key e m
    rw [drop_contents, drop_index, Option.toList_some, hredo]
    exact h.prune key
  | @put key _ noDir noFile value options =>
    -- a file was not created with an index that is lost, and so neither is what is put in its place
    have hwritten : (s.written now s.contents[key]? value options).createdIndex ∉ lost ∧
        (s.written now s.contents[key]? value options).createdIndex ≤ s.index + 1 := by
      change (s.contents[key]?.map (·.createdIndex)).getD (s.index + 1) ∉ lost ∧
        (s.contents[key]?.map (·.createdIndex)).getD (s.index + 1) ≤ s.index + 1
      cases hprev : s.contents[key]? with
      | none => exact ⟨h.succ_not_mem, Nat.le_refl _⟩
      | some p =>
        refine ⟨fun hlost => ?_, Nat.le_succ_of_le (h.createdIndex_le hprev)⟩
        have hdir := h.dirs key p hprev hlost
        rw [noDir p hprev] at hdir
        cases hdir
    have hredo : m.replay [(s.put now key s.contents[key]? value options).2] = _ :=
      redo_put key s.contents[key]? value options m
    rw [put_contents, put_index, Option.toList_some, hredo]
    exact (h.addParents key.ancestors).insert hwritten.1 hwritten.2 key

end Store

/-! ## Voyages -/

namespace Voyage

/-- What is recorded in some steps leads from the contents before to those after, but for the
directories that were created with the indices that are lost in them. -/
theorem run_append_retells (last : Nat) (steps more : List Step) :
    let before := run last steps
    let after := run last (steps ++ more)
    ∃ new lost, after.log = before.log ++ new ∧ after.gaps = before.gaps ++ lost ∧
      (before.store.contents.timeless.replay new).Retells after.store.contents after.store.index
        lost := by
  intro before after
  have hafter : after = more.foldl (step last) before := run_append last steps more
  rw [hafter]
  refine steps_keep (P := fun s log gaps => ∃ new lost, log = before.log ++ new ∧
      gaps = before.gaps ++ lost ∧
      (before.store.contents.timeless.replay new).Retells s.contents s.index lost)
    ?_ ?_ before more ⟨[], [], (List.append_nil _).symm, (List.append_nil _).symm,
      (run_inOrder last steps).retells⟩
  · rintro now s c s' log gaps edit ⟨new, lost, rfl, hgaps, hretells⟩
    refine ⟨new ++ c.toList, lost, List.append_assoc _ _ _, hgaps, ?_⟩
    rw [Contents.replay_append]
    exact edit.retells hretells
  · rintro s log gaps key - ⟨new, lost, hlog, rfl, hretells⟩
    exact ⟨new, lost ++ [s.index + 1], hlog, List.append_assoc _ _ _, hretells.loseParents _⟩

theorem run_append_untold (last : Nat) (steps more : List Step) :
    let before := run last steps
    let after := run last (steps ++ more)
    ∃ lost, (before.store.contents.timeless.replay
        (after.log.filter (before.store.index < ·.index))).Retells after.store.contents
          after.store.index lost ∧
      ∀ i, i ∈ lost ↔ before.store.index < i ∧ i ∈ after.gaps := by
  intro before after
  have hbefore : before.store.Recounts before.log before.gaps := run_recounts last steps
  have hafter : after.store.Recounts after.log after.gaps := run_recounts last (steps ++ more)
  obtain ⟨new, lost, hlog, hgaps, hretells⟩ : ∃ new lost, after.log = before.log ++ new ∧
    after.gaps = before.gaps ++ lost ∧ (before.store.contents.timeless.replay new).Retells
      after.store.contents after.store.index lost := run_append_retells last steps more
  rw [hlog, hgaps] at hafter
  have hfilter := hbefore.filter_append hafter
  rw [← hlog] at hfilter
  refine ⟨lost, by rwa [hfilter], fun i => ?_⟩
  rw [hgaps, List.mem_append]
  constructor
  · exact fun hi => ⟨(hbefore.index_lt_of_append hafter).2 i hi, Or.inr hi⟩
  · rintro ⟨hlt, hi⟩
    exact hi.resolve_left fun hi => Nat.not_le_of_lt hlt (hbefore.gapped.2 i hi).2

theorem index_le_run_append (last : Nat) (steps more : List Step) :
    (run last steps).store.index ≤ (run last (steps ++ more)).store.index := by
  rw [run_append]
  refine steps_keep (P := fun s _ _ => (run last steps).store.index ≤ s.index) ?_ ?_ _ more
    (Nat.le_refl _)
  · intro now s c s' log gaps edit h
    rw [edit.index]
    exact Nat.le_add_right_of_le h
  · exact fun s log gaps key _ h => Nat.le_succ_of_le h

theorem run_append_timeless (last : Nat) (steps more : List Step)
    (h : (run last (steps ++ more)).store.index ≤ (run last steps).store.index) :
    (run last (steps ++ more)).store.contents.timeless =
      (run last steps).store.contents.timeless := by
  have hafter := run_recounts last (steps ++ more)
  obtain ⟨lost, hretells, hlost⟩ := run_append_untold last steps more
  have hnone :
      (run last (steps ++ more)).log.filter ((run last steps).store.index < ·.index) = [] := by
    refine List.filter_eq_nil_iff.mpr fun c hc => ?_
    rw [decide_eq_true_eq]
    exact Nat.not_lt_of_le (Nat.le_trans (hafter.index_of_mem hc).2.1 h)
  rw [hnone] at hretells
  ext1 k
  refine ((hretells.lookup_iff k).mpr fun e _ hmem => ?_).symm
  obtain ⟨hlt, hgap⟩ := (hlost _).mp hmem
  exact Nat.not_le_of_lt hlt (Nat.le_trans (hafter.gapped.2 _ hgap).2 h)

/-- **At any two moments of a voyage, the changes that the later one remembers from after the earlier
one have all indices in between but the gaps. They lead from the contents of the one to those of the
other with everything but the deadlines, except for what was created with a gap in between: these are
directories, and a replay does not show them. So it shows the contents of the later moment exactly if
none of them is left.** -/
theorem run_replay (last : Nat) (steps : List Step) (m n : Nat)
    (ordered : (run last (steps.take m)).store.index ≤ (run last (steps.take n)).store.index)
    (kept : (run last (steps.take n)).store.evictedUpTo ≤ (run last (steps.take m)).store.index) :
    let before := (run last (steps.take m)).store
    let after := (run last (steps.take n)).store
    let gaps := (run last (steps.take n)).gaps
    let changes := after.history.filter fun c => before.index < c.index
    changes.map (·.index) =
        (List.range' (before.index + 1) (after.index - before.index)).filter (· ∉ gaps) ∧
      (∀ k : Key, (before.contents.replay changes).timeless[k]? = after.contents.timeless[k]? ↔
        ∀ e, after.contents[k]? = some e → before.index < e.createdIndex →
          e.createdIndex ∉ gaps) ∧
      (∀ (k : Key) (e : Entry), after.contents[k]? = some e → before.index < e.createdIndex →
        e.createdIndex ∈ gaps → e.dir = true) ∧
      ((before.contents.replay changes).timeless = after.contents.timeless ↔
        ∀ (k : Key) (e : Entry), after.contents[k]? = some e → before.index < e.createdIndex →
          e.createdIndex ∉ gaps) := by
  intro before after gaps changes
  have hafter := run_recounts last (steps.take n)
  have hchanges : changes = (run last (steps.take n)).log.filter (before.index < ·.index) :=
    hafter.filter_history kept
  obtain ⟨lost, hretells, hlost⟩ : ∃ lost,
      (before.contents.timeless.replay changes).Retells after.contents after.index lost ∧
        ∀ i, i ∈ lost ↔ before.index < i ∧ i ∈ gaps := by
    rw [hchanges]
    rcases Nat.le_total m n with h | h
    · -- the later moment comes later in the voyage
      have hsplit : steps.take m ++ (steps.take n).drop m = steps.take n := by
        rw [← Nat.min_eq_left h, ← List.take_take, Nat.min_eq_left h, List.take_append_drop]
      have huntold := run_append_untold last (steps.take m) ((steps.take n).drop m)
      rwa [hsplit] at huntold
    · -- it comes earlier, and nothing has changed in between
      have hsplit : steps.take n ++ (steps.take m).drop n = steps.take m := by
        rw [← Nat.min_eq_left h, ← List.take_take, Nat.min_eq_left h, List.take_append_drop]
      have hle := index_le_run_append last (steps.take n) ((steps.take m).drop n)
      have hsame := run_append_timeless last (steps.take n) ((steps.take m).drop n)
      rw [hsplit] at hle hsame
      have huntold := run_append_untold last (steps.take n) []
      rw [List.append_nil] at huntold
      rw [hsame ordered, Nat.le_antisymm ordered hle]
      exact huntold
  have hlook : ∀ k : Key, (before.contents.replay changes).timeless[k]? =
      after.contents.timeless[k]? ↔ ∀ e, after.contents[k]? = some e →
        before.index < e.createdIndex → e.createdIndex ∉ gaps := by
    intro k
    rw [Contents.timeless_replay, hretells.lookup_iff]
    simp only [hlost, not_and]
  refine ⟨by rw [hchanges, hafter.map_filter_log], hlook, fun k e he hlt hgap =>
    hretells.dirs k e he ((hlost _).mpr ⟨hlt, hgap⟩), fun h k => (hlook k).mp (by rw [h]),
    fun h => ?_⟩
  ext1 k
  exact (hlook k).mpr (h k)

/-- A directory that came with a gap is removed and written again, and all is told after all. -/
theorem run_replay_rewritten :
    let steps : List Step :=
      [.request (.set "/c" "w" { lifetime := some 1000 }),
        .request (.set "/a/b" "v" { lifetime := some 9223372036854775807000 }), .pass 2000,
        .request (.delete "/a" { recursive := true }), .request (.set "/a/b" "v" {})]
    let before := (run Duration.lastMoment (steps.take 1)).store
    let after := (run Duration.lastMoment (steps.take 5)).store
    before.index ≤ after.index ∧ after.evictedUpTo ≤ before.index ∧
      (after.history.filter fun c => before.index < c.index).map (·.index) = [3, 4, 5] ∧
      (before.contents.replay (after.history.filter fun c => before.index < c.index)).timeless =
        after.contents.timeless := by
  intro steps before after
  have hordered : before.index ≤ after.index := by decide +kernel
  have hkept : after.evictedUpTo ≤ before.index := by decide +kernel
  obtain ⟨hindices, -, -, hreplay⟩ := run_replay Duration.lastMoment steps 1 5 hordered hkept
  have hnone : ∀ p ∈ after.contents.toList, before.index < p.2.createdIndex →
      p.2.createdIndex ∉ (run Duration.lastMoment (steps.take 5)).gaps := by decide +kernel
  exact ⟨hordered, hkept, hindices.trans (by decide +kernel),
    hreplay.mpr fun k e he => hnone (k, e) (Contents.mem_toList.mpr he)⟩

/-- A write breaks off and leaves the directory above its key, of which the history has no change. -/
theorem untold_parent :
    let before := (run Duration.lastMoment []).store
    let after := (run Duration.lastMoment
      [.request (.set "/a/b" "v" { lifetime := some 9223372036854775807000 })]).store
    before.index = 0 ∧ after.index = 1 ∧ after.evictedUpTo = 0 ∧
      (before.contents.replay
        (after.history.filter fun c => before.index < c.index))[Key.ofPath "/a"]? = none ∧
      after.contents[Key.ofPath "/a"]? = some (.parent 1) := by
  decide +kernel

end Voyage

end ClusterRegistry
