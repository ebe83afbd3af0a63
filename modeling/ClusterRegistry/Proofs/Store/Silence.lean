import ClusterRegistry.Proofs.Store.Answer
import ClusterRegistry.Proofs.Store.Replay

/-!
# What a wait is not told

A change is filed under one key. A write also makes the directories above its key, and a removal
takes along all that is below. Whoever waits at a key is told of changes at the key and below it, so
the writes do no harm, but a key that goes with one above it goes without a word.

* `Contents.face`: what stands at a key, but for indices and deadlines;
* `Change.IsRemoval`, `Key.GoesSilently`: a key goes with one above it;
* `Contents.lookup_redo_apart`, **`Contents.lookup_replay_apart`**, `Contents.gone_of_apart`: what
  changes elsewhere do to a key and all below it;
* `Store.Remembers.exists_told`, `Store.answer_none`: what a wait is told;
* **`Course.run_silent`**: a wait misses a difference exactly if the key went with one above it.
-/

namespace ClusterRegistry

/-- The change has removed its key with everything below it. -/
def Change.IsRemoval (c : Change) : Prop := c.action = .delete ∨ c.action = .expire

instance (c : Change) : Decidable c.IsRemoval := by unfold Change.IsRemoval; infer_instance

/-- A key above has been removed, and nothing has been recorded at the key or below it. -/
def Key.GoesSilently (key : Key) (changes : List Change) : Prop :=
  (∃ c ∈ changes, c.IsRemoval ∧ key.IsBelow c.key) ∧ ∀ c ∈ changes, ¬ c.key.IsWithin key

instance (key : Key) (changes : List Change) : Decidable (key.GoesSilently changes) := by
  unfold Key.GoesSilently; infer_instance

theorem Key.IsWithin.total {k l m : Key} (h : k.IsWithin l) (h' : k.IsWithin m) :
    l.IsWithin m ∨ m.IsWithin l :=
  (List.prefix_or_prefix_of_prefix h h').symm

namespace Contents

variable {m : Contents} {k key : Key}

/-- Whether something stands at a key, whether it is a directory, and its value. -/
def face (m : Contents) (k : Key) : Option (Bool × String) := m[k]?.map fun e => (e.dir, e.value)

theorem face_eq_timeless (m : Contents) (k : Key) : m.face k = m.timeless.face k := by
  rw [face, face, lookup_timeless]
  cases m[k]? <;> rfl

/-! ## Changes elsewhere -/

theorem lookup_redo_apart {c : Change} (apart : ¬ c.key.IsWithin key) (hk : k.IsWithin key) :
    (m.redo c)[k]? = if c.IsRemoval ∧ key.IsBelow c.key then none else m[k]? := by
  have hne : k ≠ c.key := fun e => apart (e ▸ hk)
  have hparent : k ∉ c.key.ancestors := fun ha =>
    apart ((Key.mem_ancestors.mp ha).1.isWithin.trans hk)
  have hwithin : k.IsWithin c.key ↔ key.IsBelow c.key := by
    constructor
    · intro h
      have hbelow := (hk.total h).resolve_right apart
      exact (Key.isWithin_iff.mp hbelow).resolve_left fun e => apart (e ▸ .refl _)
    · exact fun h => hk.trans h.isWithin
  have hput : ((m.addParents c.index c.key.ancestors).insert c.key c.node.entry)[k]? = m[k]? := by
    rw [Key.lookup_insert, if_neg hne, lookup_addParents, if_neg hparent]
  unfold redo Change.IsRemoval
  split
  · rename_i haction
    simpa [haction] using hput
  · rename_i haction
    simpa [haction] using hput
  · rename_i haction
    simpa [haction] using hput
  all_goals
    rename_i haction
    simp [haction, lookup_prune, hwithin]

/-- **As long as no change is at a key or below it, all of it stays as it is or goes as a whole.** -/
theorem lookup_replay_apart (changes : List Change) (apart : ∀ c ∈ changes, ¬ c.key.IsWithin key)
    (hk : k.IsWithin key) : (m.replay changes)[k]? =
      if ∃ c ∈ changes, c.IsRemoval ∧ key.IsBelow c.key then none else m[k]? := by
  induction changes generalizing m with
  | nil => simp [replay]
  | cons c rest ih =>
    obtain ⟨hc, hrest⟩ := List.forall_mem_cons.mp apart
    change ((m.redo c).replay rest)[k]? = _
    rw [ih hrest, lookup_redo_apart hc hk]
    simp only [List.exists_mem_cons_iff]
    by_cases hgone : ∃ c ∈ rest, c.IsRemoval ∧ key.IsBelow c.key
    · rw [if_pos hgone, if_pos (Or.inr hgone)]
    · rw [if_neg hgone]
      exact if_congr (or_iff_left hgone).symm rfl rfl

/-- **Where no change is at a key or below it and something differs, all of it has gone.** -/
theorem gone_of_apart {m' : Contents} {changes : List Change}
    (replayed : m'.timeless = m.timeless.replay changes)
    (apart : ∀ c ∈ changes, ¬ c.key.IsWithin key) (hk : k.IsWithin key)
    (differs : m'.face k ≠ m.face k) :
    (∃ c ∈ changes, c.IsRemoval ∧ key.IsBelow c.key) ∧
      (∀ l : Key, l.IsWithin key → m'[l]? = none) ∧ m[k]? ≠ none := by
  have hlook : ∀ l : Key, l.IsWithin key → m'.timeless[l]? =
      if ∃ c ∈ changes, c.IsRemoval ∧ key.IsBelow c.key then none else m.timeless[l]? := by
    intro l hl
    rw [replayed, lookup_replay_apart changes apart hl]
  have hgone : ∃ c ∈ changes, c.IsRemoval ∧ key.IsBelow c.key := by
    by_contra hstays
    refine differs ?_
    rw [face_eq_timeless, face_eq_timeless m, face, hlook k hk, if_neg hstays]
    rfl
  have hnone : ∀ l : Key, l.IsWithin key → m'[l]? = none := by
    intro l hl
    have := hlook l hl
    rwa [if_pos hgone, lookup_timeless, Option.map_eq_none_iff] at this
  refine ⟨hgone, hnone, fun hmissing => differs ?_⟩
  rw [face, face, hnone k hk, hmissing]

end Contents

/-! ## Waits -/

theorem Key.Covers.isWithin {key k : Key} {recursive : Bool} (h : key.Covers recursive k) :
    k.IsWithin key := by
  rcases h with rfl | ⟨-, hwithin⟩
  · exact .refl _
  · exact hwithin

namespace Store

variable {s : Store} {log : List Change} {key : Key} {recursive : Bool} {after : Nat}

theorem beginWait_of_ne (s : Store) (now : Nat) (path : String) (recursive : Bool) (h : after ≠ 0) :
    s.beginWait now path ⟨recursive, after⟩ =
      (s.expire now).await now (.ofPath path) recursive after := by
  unfold beginWait
  dsimp only
  rw [if_neg h]

theorem InOrder.ne_none_of_within (h : s.InOrder) (hroot : key ≠ .root) {k : Key}
    (hk : k.IsWithin key) (there : s.contents[k]? ≠ none) : s.contents[key]? ≠ none := by
  rcases Key.isWithin_iff.mp hk with rfl | hbelow
  · exact there
  · obtain ⟨e, he⟩ := Option.ne_none_iff_exists'.mp there
    obtain ⟨d, hd, -⟩ := h.parents k e he key (Key.mem_ancestors.mpr ⟨hbelow, hroot⟩)
    rw [hd]
    exact Option.some_ne_none d

theorem Remembers.mem_filter_history (h : s.Remembers log) (kept : s.evictedUpTo ≤ after)
    (c : Change) :
    c ∈ s.history.filter (fun c => after < c.index) ↔ c ∈ log ∧ after < c.index := by
  rw [(remembers_iff.mp h).filter_history kept, List.mem_filter, decide_eq_true_eq]

theorem Remembers.exists_told (h : s.Remembers log) (kept : s.evictedUpTo ≤ after) {c : Change}
    (hc : c ∈ s.history.filter fun c => after < c.index) (within : c.key.IsWithin key) :
    ∃ x ∈ s.history.filter fun c => after < c.index, x.key.IsWithin key ∧
      s.answer? key true after = some (.ok x.response) := by
  obtain ⟨hlog, habove⟩ := (h.mem_filter_history kept c).mp hc
  obtain ⟨answer, hanswer⟩ := h.exists_answer hlog habove (.inr ⟨rfl, within⟩)
  cases answer with
  | error refusal =>
    obtain ⟨-, -, hlt, -⟩ := h.forgotten hanswer
    omega
  | ok response =>
    obtain ⟨x, hx, rfl⟩ := h.isFirst hanswer
    exact ⟨x, (h.mem_filter_history kept x).mpr ⟨hx.mem, hx.above⟩, hx.covered.isWithin, hanswer⟩

theorem answer_none (kept : s.evictedUpTo ≤ after)
    (apart : ∀ c ∈ s.history.filter fun c => after < c.index, ¬ c.key.IsWithin key) :
    s.answer? key recursive after = none := by
  unfold answer?
  rw [if_neg (Nat.not_lt_of_le kept), firstChange?, Option.map_eq_none_iff, List.find?_eq_none]
  intro c hc hasked
  obtain ⟨habove, hcovered⟩ := of_decide_eq_true hasked
  exact apart c (List.mem_filter.mpr ⟨hc, decide_eq_true habove⟩) hcovered.isWithin

end Store

namespace Course

theorem run_look (steps : List Step) : (run (steps ++ [.look])).store =
    (run steps).store.expire (run steps).now := by
  rw [run_append]
  rfl

/-- **If a key or something below it is not as it was at an earlier moment, and no change since has
been forgotten, then a recursive wait for changes since is told of one, unless the key went with one
above it and nothing has been recorded at the key or below it.** Then there was something at the
key, all of it is gone, and the wait parks. -/
theorem run_silent (steps : List Step) (m : Nat) (path : String)
    (written : 1 ≤ (run (steps.take m)).store.index)
    (kept : ((run steps).store.expire (run steps).now).evictedUpTo ≤
      (run (steps.take m)).store.index)
    (differs : ∃ k : Key, k.IsWithin (.ofPath path) ∧
      ((run steps).store.expire (run steps).now).contents.face k ≠
        (run (steps.take m)).store.contents.face k) :
    let key := Key.ofPath path
    let before := (run (steps.take m)).store
    let after := (run steps).store.expire (run steps).now
    let changes := after.history.filter fun c => before.index < c.index
    let told := ((run steps).store.beginWait (run steps).now path ⟨true, before.index⟩).2
    ((∃ c ∈ changes, c.key.IsWithin key ∧ told = .inl (.ok c.response)) ↔
      ¬ key.GoesSilently changes) ∧
    (key.GoesSilently changes →
      before.contents[key]? ≠ none ∧ (∀ k : Key, k.IsWithin key → after.contents[k]? = none) ∧
      ∃ w, told = .inr w) := by
  intro key before after changes told
  have hmem := run_remembers (steps ++ [.look])
  obtain ⟨new, hlog, hreplay⟩ := run_append_replay (steps.take m) (steps.drop m ++ [.look])
  rw [← List.append_assoc, List.take_append_drop] at hlog hreplay
  rw [run_look] at hmem hreplay
  have hchanges : changes = new := by
    have hbefore := Store.remembers_iff.mp (run_remembers (steps.take m))
    have hafter := Store.remembers_iff.mp hmem
    have hhistory : changes = (run (steps ++ [.look])).log.filter (before.index < ·.index) :=
      hafter.filter_history kept
    rw [hlog] at hafter hhistory
    exact hhistory.trans (hbefore.filter_append hafter)
  have htold : told = (after.await (run steps).now key true before.index).2 :=
    congrArg Prod.snd (Store.beginWait_of_ne _ _ _ _ (Nat.one_le_iff_ne_zero.mp written))
  rw [Store.await_eq, Store.expire_expire] at htold
  by_cases apart : ∀ c ∈ changes, ¬ c.key.IsWithin key
  · -- nothing is told, and all of it has gone
    obtain ⟨k, hk, hface⟩ := differs
    obtain ⟨hgone, hnone, hthere⟩ := Contents.gone_of_apart (hchanges ▸ hreplay) apart hk hface
    have hroot : key ≠ .root := by
      obtain ⟨c, -, -, habove⟩ := hgone
      exact fun e => absurd habove.length_lt (by simp [e, Key.root])
    rw [Store.answer_none kept apart] at htold
    refine ⟨iff_of_false ?_ (not_not_intro ⟨hgone, apart⟩), fun _ => ⟨?_, hnone, _, htold⟩⟩
    · rintro ⟨c, hc, hwithin, -⟩
      exact apart c hc hwithin
    · exact (run_inOrder (steps.take m)).ne_none_of_within hroot hk hthere
  · -- what has been recorded is told
    push Not at apart
    obtain ⟨c, hc, hwithin⟩ := apart
    obtain ⟨x, hx, hxin, hanswer⟩ := hmem.exists_told kept hc hwithin
    rw [hanswer] at htold
    refine ⟨iff_of_true ⟨x, hx, hxin, htold⟩ ?_, ?_⟩
    · rintro ⟨-, apart⟩
      exact apart c hc hwithin
    · rintro ⟨-, apart⟩
      exact absurd hwithin (apart c hc)

/-- A file goes with its directory, and a directory is put in its place: the wait is told of the
last write. -/
theorem run_silent_replaced :
    let steps : List Step :=
      [.request (.set "/d/x" "v" {}), .request (.delete "/d" { recursive := true }),
        .request (.set "/d/x/y" "w" {})]
    let changes := ((run steps).store.expire (run steps).now).history.filter fun c => 1 < c.index
    ¬ (Key.ofPath "/d/x").GoesSilently changes ∧
      ∃ c ∈ changes, c.key.IsWithin (.ofPath "/d/x") ∧
        ((run steps).store.beginWait (run steps).now "/d/x" ⟨true, 1⟩).2 =
          .inl (.ok c.response) := by
  intro steps changes
  have hindex : (run (steps.take 1)).store.index = 1 := by decide +kernel
  have hloud : ¬ (Key.ofPath "/d/x").GoesSilently changes := by decide +kernel
  have h := (run_silent steps 1 "/d/x" (by decide +kernel) (by decide +kernel)
    ⟨.ofPath "/d/x", by decide +kernel, by decide +kernel⟩).1
  simp only [hindex] at h
  exact ⟨hloud, h.mpr hloud⟩

/-- A file and its directory whose lifetimes end together. -/
def outlived : List Step :=
  [.request (.set "/d" "" { lifetime := some 1000, dir := true }),
    .request (.set "/d/x" "v" { lifetime := some 1000 }), .pass 1000]

/-- Not every difference that the store remembers is told to those who wait. -/
theorem outlived_silent : ¬ ∀ (steps : List Step) (m : Nat) (path : String),
    1 ≤ (run (steps.take m)).store.index →
    ((run steps).store.expire (run steps).now).evictedUpTo ≤ (run (steps.take m)).store.index →
    (∃ k : Key, k.IsWithin (.ofPath path) ∧
      ((run steps).store.expire (run steps).now).contents.face k ≠
        (run (steps.take m)).store.contents.face k) →
    ∃ response, ((run steps).store.beginWait (run steps).now path
      ⟨true, (run (steps.take m)).store.index⟩).2 = .inl (.ok response) := by
  intro h
  obtain ⟨response, htold⟩ := h outlived 2 "/d/x" (by decide +kernel) (by decide +kernel)
    ⟨.ofPath "/d/x", by decide +kernel, by decide +kernel⟩
  have hparked : ((run outlived).store.beginWait (run outlived).now "/d/x"
      ⟨true, (run (outlived.take 2)).store.index⟩).2.isRight = true := by decide +kernel
  rw [htold] at hparked
  exact nomatch hparked

end Course

end ClusterRegistry
