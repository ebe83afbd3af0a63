import ClusterRegistry.Proofs.Store.Voyage

/-!
# What a request changes

All that a request does beyond the expiry before it is done at its key, above it, or below it. A
refused request changes nothing at all; a write that breaks off once it has begun leaves what it has
done so far.

* `Store.Refreshes`, `Store.Writes`, `Store.Begins`, `Store.Removes`: the contents before and after,
  key by key;
* `Store.Records`, `Store.Edit.records`: one more change is remembered;
* `Store.refresh_refreshes`, `Store.put_writes`, `Store.begun_begins`, `Store.drop_removes`: each
  kind of change;
* **`Voyage.handle_effect`**, `Voyage.overlong_effect`: every request to every store.
-/

namespace ClusterRegistry

namespace Store

/-! ## Kinds of changes -/

/-- A key that was there has another deadline, and that is all. -/
structure Refreshes (s : Store) (key : Key) (deadline : Option Nat) (s' : Store) : Prop where
  entry : ∃ e, s.contents[key]? = some e ∧ s'.contents[key]? = some { e with deadline := deadline }
  elsewhere : ∀ k, k ≠ key → s'.contents[k]? = s.contents[k]?
  index : s'.index = s.index
  history : s'.history = s.history
  evictedUpTo : s'.evictedUpTo = s.evictedUpTo
  signals : s'.signals = s.signals

/-- There are directories above a key. Those that were missing are new, the others are as they
were. -/
def Founds (s : Store) (key : Key) (s' : Store) : Prop :=
  ∀ a ∈ key.ancestors, ∃ d, s'.contents[a]? = some d ∧ d.dir = true ∧
    match s.contents[a]? with
      | some before => d = before
      | none => d = .parent s'.index

/-- A key has a new entry, created when the one before it was, and there are directories above it.
Everything else is as it was. -/
structure Writes (s : Store) (now : Nat) (key : Key) (value : String) (options : SetOptions)
    (s' : Store) : Prop where
  entry : ∃ e, s'.contents[key]? = some e ∧ e.dir = options.dir ∧
    e.value = (if options.dir then "" else value) ∧
    e.deadline = options.lifetime.map (now + ·) ∧ e.modifiedIndex = s'.index ∧
    e.createdIndex = match s.contents[key]? with
      | some before => before.createdIndex
      | none => s'.index
  above : s.Founds key s'
  elsewhere : ∀ k, k ≠ key → k ∉ key.ancestors → s'.contents[k]? = s.contents[k]?

/-- There are directories above a key, and the next index is taken. Everything else is as it was:
nothing is recorded, and nobody is woken. -/
structure Begins (s : Store) (key : Key) (s' : Store) : Prop where
  above : s.Founds key s'
  elsewhere : ∀ k, k ∉ key.ancestors → s'.contents[k]? = s.contents[k]?
  index : s'.index = s.index + 1
  history : s'.history = s.history
  evictedUpTo : s'.evictedUpTo = s.evictedUpTo
  signals : s'.signals = s.signals

/-- A key that was there is gone with everything below it, and that is all. -/
structure Removes (s : Store) (key : Key) (s' : Store) : Prop where
  present : s.contents[key]? ≠ none
  within : ∀ k : Key, k.IsWithin key → s'.contents[k]? = none
  elsewhere : ∀ k : Key, ¬ k.IsWithin key → s'.contents[k]? = s.contents[k]?

/-- A change is recorded under the next index, after all others; if the history was full, the
oldest one has been forgotten. -/
structure Records (s : Store) (c : Change) (s' : Store) : Prop where
  index : s'.index = s.index + 1
  stamp : c.index = s'.index
  history : s'.history = (s.history ++ [c]).drop (s.history.length + 1 - historyCapacity)
  evictedUpTo : s'.evictedUpTo =
    if s.history.length < historyCapacity then s.evictedUpTo
    else (s.history.head?.map (·.index)).getD s.evictedUpTo

variable {s s' : Store} {now : Nat} {key : Key} {log : List Change} {gaps : List Nat}

theorem Edit.records {c : Change} (edit : Edit now s (some c) s') (h : s.Recounts log gaps) :
    s.Records c s' := by
  have hroom : s.history.length ≤ historyCapacity := by
    rw [h.length_history]
    exact Nat.min_le_right _ _
  refine ⟨edit.index, edit.stamps.1.trans edit.index.symm, ?_, ?_⟩
  · cases edit with
    | drop => exact record_history (s := { s with contents := _, index := _ }) hroom
    | put => exact record_history (s := { s with contents := _, index := _ }) hroom
  · cases edit with
    | drop => exact record_evictedUpTo { s with contents := _, index := _ } _
    | put => exact record_evictedUpTo { s with contents := _, index := _ } _

theorem Records.signal {c : Change} (h : s.Records c s') : s.Records c s'.signal :=
  ⟨h.index, h.stamp, h.history, h.evictedUpTo⟩

/-! ## Each kind of change -/

theorem refresh_refreshes {e : Entry} (present : s.contents[key]? = some e)
    (lifetime : Option Nat) : s.Refreshes key (lifetime.map (now + ·))
      (s.refresh now key e lifetime).1 where
  entry := ⟨e, present, Key.lookup_insert.trans (if_pos rfl)⟩
  elsewhere _ hk := Key.lookup_insert.trans (if_neg hk)
  index := rfl
  history := rfl
  evictedUpTo := rfl
  signals := rfl

theorem begun_begins (noFile : ∀ a ∈ key.ancestors, ∀ e, s.contents[a]? = some e → e.dir = true) :
    s.Begins key (s.begun key) where
  above a ha := by
    rw [lookup_begun, if_pos ha]
    cases hd : s.contents[a]? with
    | none => exact ⟨_, rfl, rfl, rfl⟩
    | some d => exact ⟨d, rfl, noFile a ha d hd, rfl⟩
  elsewhere k hk := by rw [lookup_begun, if_neg hk]
  index := rfl
  history := rfl
  evictedUpTo := rfl
  signals := rfl

theorem put_writes (noFile : ∀ a ∈ key.ancestors, ∀ e, s.contents[a]? = some e → e.dir = true)
    (value : String) (options : SetOptions) :
    s.Writes now key value options (s.put now key s.contents[key]? value options).1 where
  entry := by
    rw [lookup_put_begun, if_pos rfl, put_index]
    refine ⟨_, rfl, rfl, rfl, rfl, rfl, ?_⟩
    cases s.contents[key]? <;> rfl
  above a ha := by
    have hne : a ≠ key := fun e => (Key.mem_ancestors.mp ha).1.2 e.symm
    rw [lookup_put_begun, if_neg hne, put_index]
    exact (begun_begins noFile).above a ha
  elsewhere k hk ha := by
    rw [lookup_put_begun, if_neg hk]
    exact (begun_begins noFile).elsewhere k ha

theorem drop_removes {e : Entry} (present : s.contents[key]? = some e) (action : Action) :
    s.Removes key (s.drop now action key e).1 where
  present := present ▸ Option.some_ne_none e
  within k hk := by rw [drop_contents, Contents.lookup_prune, if_pos hk]
  elsewhere k hk := by rw [drop_contents, Contents.lookup_prune, if_neg hk]

theorem Removes.signal (h : s.Removes key s') : s.Removes key s'.signal :=
  ⟨h.present, h.within, h.elsewhere⟩

/-- What a request that is answered changes in a store in which nothing is due. -/
def Effect (s : Store) (now : Nat) (s' : Store) : Request → Except Refusal Response → Prop
  | _, .error _ => s' = s
  | .get _ _, .ok _ => s' = s
  | .set path value options, .ok response =>
    if options.refresh then s.Refreshes (.ofPath path) (options.lifetime.map (now + ·)) s'
    else s.Writes now (.ofPath path) value options s' ∧
      ∃ c : Change, c.key = .ofPath path ∧ c.response = response ∧ s.Records c s'
  | .delete path _, .ok response =>
    s.Removes (.ofPath path) s' ∧
      ∃ c : Change, c.key = .ofPath path ∧ c.response = response ∧ s.Records c s'

theorem serve_effect (h : (s.expire now).Recounts log gaps) (r : Request) :
    (s.expire now).Effect now (s.serve now r).1 r (s.serve now r).2 := by
  have hout := (s.expire now).perform_outcome now r
  cases hperform : (s.expire now).perform now r with
  | error refusal =>
    rw [serve_of_error hperform]
    cases r <;> rfl
  | ok answer =>
    rw [serve_of_ok hperform]
    rw [hperform] at hout
    cases hout with
    | shown => rfl
    | refreshed present asked => exact (if_pos asked).mpr (refresh_refreshes present _)
    | @put path value options notRoot noDir noFile asked =>
      exact (if_neg (Bool.eq_false_iff.mp asked)).mpr ⟨put_writes noFile value options, _, rfl, rfl,
        (Edit.put notRoot noDir noFile value options).records h⟩
    | dropped present =>
      exact ⟨(drop_removes present .delete).signal, _, rfl, rfl,
        ((Edit.drop present (Or.inl rfl)).records h).signal⟩

/-- What a request does that is not answered: its lifetime ends too late, and without that it would
be accepted. -/
theorem brokenOff?_effect {last : Nat} {r : Request} (h : s.brokenOff? last now r = some s') :
    ∃ path value options, r = .set path value options ∧
      (∃ l ∈ options.lifetime, last < now + l) ∧
      (∃ answer, s.write now path value options = .ok answer) ∧
      if options.refresh then s' = s else s.Begins (.ofPath path) s' := by
  obtain ⟨path, value, options, hr, hlate, haccepted, rfl⟩ := brokenOff?_eq_some_iff.mp h
  refine ⟨path, value, options, hr, hlate, haccepted, ?_⟩
  by_cases hrefresh : options.refresh = true
  · rw [if_pos hrefresh, if_pos hrefresh]
  · have hkey := (write_ok_iff.mp haccepted).2.2.2
    rw [if_neg hrefresh] at hkey
    rw [if_neg hrefresh, if_neg hrefresh]
    exact begun_begins hkey.2

end Store

namespace Voyage

/-- **A request changes what it is for, and nothing else, unless it breaks off.** Compared with the
store from which everything due has been removed: a refused request and a read leave all as it is; a
refresh changes the deadline of its key; another write changes its key and adds the directories that
are missing above; a removal takes its key and everything below. A write or a removal is recorded as
one change, the one that the answer reports. There is no answer to a write that would be accepted if
its lifetime did not end after the last moment of the clock. A refresh then changes nothing, but any
other write has added the directories above its key and taken an index: so these are the failing
requests that change something. -/
theorem handle_effect (last : Nat) (steps : List Step) (now : Nat) (r : Request) :
    let s := (run last steps).store.expire now
    let s' := ((run last steps).store.handle last now r).1
    let answer? := ((run last steps).store.handle last now r).2
    (match answer? with
      | some answer => s.Effect now s' r answer
      | none => ∃ path value options, r = .set path value options ∧
          if options.refresh then s' = s else s.Begins (.ofPath path) s') ∧
    (answer? = none ↔ ∃ path value options, r = .set path value options ∧
      (∃ l ∈ options.lifetime, last < now + l) ∧
      ∃ answer, s.write now path value options = .ok answer) ∧
    (((∃ response, answer? = some (.ok response)) ∨ s' = s) ↔
      ¬ ∃ path value options, r = .set path value options ∧ options.refresh = false ∧
        answer? = none) := by
  have hrecounts := (Store.expire_edits _ now).recounts (run_recounts last steps)
  generalize (run last steps).store = before at hrecounts
  intro s s' answer?
  cases hbroken : s.brokenOff? last now r with
  | none =>
    have hhandle := Store.handle_of_none hbroken
    have hstore : s' = (before.serve now r).1 := congrArg Prod.fst hhandle
    have hanswer : answer? = some (before.serve now r).2 := congrArg Prod.snd hhandle
    have heffect : s.Effect now s' r (before.serve now r).2 :=
      hstore ▸ Store.serve_effect hrecounts r
    rw [hanswer]
    refine ⟨heffect, iff_of_false (Option.some_ne_none _) ?_, iff_of_true ?_ ?_⟩
    · rintro ⟨path, value, options, hr, hlate, haccepted⟩
      rw [Store.brokenOff?_eq_some_iff.mpr ⟨path, value, options, hr, hlate, haccepted, rfl⟩]
        at hbroken
      cases hbroken
    · cases hserve : (before.serve now r).2 with
      | ok response => exact Or.inl ⟨response, rfl⟩
      | error refusal =>
        rw [hserve] at heffect
        exact Or.inr (by cases r <;> exact heffect)
    · rintro ⟨_, _, _, -, -, hnone⟩
      cases hnone
  | some after =>
    have hhandle := Store.handle_of_some hbroken
    have hstore : s' = after := congrArg Prod.fst hhandle
    have hanswer : answer? = none := congrArg Prod.snd hhandle
    obtain ⟨path, value, options, hr, hlate, haccepted, heffect⟩ := Store.brokenOff?_effect hbroken
    rw [← hstore] at heffect
    rw [hanswer]
    refine ⟨⟨path, value, options, hr, heffect⟩,
      iff_of_true rfl ⟨path, value, options, hr, hlate, haccepted⟩, ?_⟩
    by_cases hrefresh : options.refresh = true
    · rw [if_pos hrefresh] at heffect
      refine iff_of_true (Or.inr heffect) ?_
      rintro ⟨_, _, _, hr', hno, -⟩
      rw [hr] at hr'
      cases hr'
      rw [hrefresh] at hno
      cases hno
    · -- the index has gone up
      rw [if_neg hrefresh] at heffect
      refine iff_of_false ?_ (not_not_intro
        ⟨path, value, options, hr, Bool.eq_false_iff.mpr hrefresh, rfl⟩)
      rintro (⟨response, hok⟩ | hsame)
      · cases hok
      · have hindex := heffect.index
        rw [hsame] at hindex
        exact Nat.succ_ne_self _ hindex.symm

/-- A write with a lifetime that ends too late is not answered, but has added the directory above its
key to an empty store and taken its first index. -/
theorem overlong_effect :
    let s := (run Duration.lastMoment []).store.expire 0
    let write : Request := .set "/a/b" "v" { lifetime := some 9223372036854775807000 }
    let s' := ((run Duration.lastMoment []).store.handle Duration.lastMoment 0 write).1
    ((run Duration.lastMoment []).store.handle Duration.lastMoment 0 write).2 = none ∧
      s.index = 0 ∧ s'.index = 1 ∧ s'.history.length = 0 ∧
      s.contents[Key.ofPath "/a"]? = none ∧ s'.contents[Key.ofPath "/a"]? = some (.parent 1) := by
  decide +kernel

end Voyage

end ClusterRegistry
