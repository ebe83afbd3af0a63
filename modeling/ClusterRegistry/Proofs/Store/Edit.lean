import Mathlib.Data.List.Basic
import ClusterRegistry.Store.Wait
import ClusterRegistry.Proofs.Contents

/-!
# What an access does to a store

Every access to a store is a sequence of elementary edits, and each edit records one change at
most. Whatever all edits keep is kept by every access.

* `Store.Edit`, `Store.Edits`: the edits, and sequences of them with all that they record;
* `Store.Outcome`, **`Store.perform_outcome`**: what a request comes to;
* `Store.expiries`, `Store.changes`: what expiry and a request record, read off the history;
* **`Store.expire_edits`**, **`Store.serve_edits`**: accesses are sequences of edits.
-/

namespace ClusterRegistry.Store

/-! ## Edits -/

/-- One elementary edit at a time, with the change that it records. -/
inductive Edit (now : Nat) : Store → Option Change → Store → Prop
  | signal (s : Store) : Edit now s none s.signal
  /-- A stored key has a new lifetime. -/
  | refresh {s : Store} {key : Key} {e : Entry} (present : s.contents[key]? = some e)
      (lifetime : Option Nat) : Edit now s none (s.refresh now key e lifetime).1
  /-- A stored key goes, with everything below it. -/
  | drop {s : Store} {key : Key} {e : Entry} (present : s.contents[key]? = some e)
      {action : Action} (removal : action = .delete ∨ action = .expire) :
      Edit now s (some (s.drop now action key e).2) (s.drop now action key e).1
  /-- A key is written that is neither the root, nor a directory, nor below a file. -/
  | put {s : Store} {key : Key} (notRoot : key ≠ .root)
      (noDir : ∀ e, s.contents[key]? = some e → e.dir = false)
      (noFile : ∀ a ∈ key.ancestors, ∀ e, s.contents[a]? = some e → e.dir = true)
      (value : String) (options : SetOptions) :
      Edit now s (some (s.put now key s.contents[key]? value options).2)
        (s.put now key s.contents[key]? value options).1

/-- A sequence of edits at a time, with the changes that they record. -/
inductive Edits (now : Nat) : Store → List Change → Store → Prop
  | refl (s : Store) : Edits now s [] s
  | tail {s s' s'' : Store} {new : List Change} {c : Option Change} :
      Edits now s new s' → Edit now s' c s'' → Edits now s (new ++ c.toList) s''

variable {now : Nat} {s s' s'' : Store} {new new' : List Change}

theorem Edit.edits {c : Option Change} (h : Edit now s c s') : Edits now s c.toList s' := by
  have := Edits.tail (.refl s) h
  rwa [List.nil_append] at this

theorem Edits.trans (h : Edits now s new s') (h' : Edits now s' new' s'') :
    Edits now s (new ++ new') s'' := by
  induction h' with
  | refl => rwa [List.append_nil]
  | tail _ edit ih =>
    rw [← List.append_assoc]
    exact ih.tail edit

/-- **What each edit keeps is kept by every sequence of edits.** -/
theorem Edits.keep {P : Store → List Change → Prop} (h : Edits now s new s')
    (edit : ∀ s c s' log, Edit now s c s' → P s log → P s' (log ++ c.toList))
    (log : List Change) (start : P s log) : P s' (log ++ new) := by
  induction h with
  | refl => rwa [List.append_nil]
  | tail _ last ih =>
    rw [← List.append_assoc]
    exact edit _ _ _ _ last ih

/-! ## What is recorded -/

/-- The change that a step from one store to the next has recorded: the one that stands last in
the history, if the index has gone up. -/
def recorded? (s s' : Store) : Option Change :=
  if s'.index = s.index then none else s'.history.getLast?

theorem record_getLast? (s : Store) (c : Change) : (s.record c).history.getLast? = some c := by
  unfold record
  split
  · rfl
  · split <;> simp

@[simp] theorem record_index (s : Store) (c : Change) : (s.record c).index = s.index := by
  unfold record
  split
  · rfl
  · split <;> rfl

@[simp] theorem record_contents (s : Store) (c : Change) : (s.record c).contents = s.contents := by
  unfold record
  split
  · rfl
  · split <;> rfl

@[simp] theorem record_signals (s : Store) (c : Change) : (s.record c).signals = s.signals := by
  unfold record
  split
  · rfl
  · split <;> rfl

@[simp] theorem drop_index (action : Action) (key : Key) (e : Entry) :
    (s.drop now action key e).1.index = s.index + 1 := record_index _ _

@[simp] theorem drop_contents (action : Action) (key : Key) (e : Entry) :
    (s.drop now action key e).1.contents = s.contents.prune key := record_contents _ _

@[simp] theorem drop_signals (action : Action) (key : Key) (e : Entry) :
    (s.drop now action key e).1.signals = s.signals := record_signals _ _

@[simp] theorem put_index (key : Key) (prev : Option Entry) (value : String)
    (options : SetOptions) : (s.put now key prev value options).1.index = s.index + 1 :=
  record_index _ _

theorem lookup_begun (s : Store) (key k : Key) : (s.begun key).contents[k]? =
    if k ∈ key.ancestors then some (s.contents[k]?.getD (.parent (s.index + 1)))
    else s.contents[k]? := Contents.lookup_addParents

theorem recorded?_self (s : Store) : s.recorded? s = none := if_pos rfl

theorem recorded?_refresh (key : Key) (e : Entry) (lifetime : Option Nat) :
    s.recorded? (s.refresh now key e lifetime).1 = none := if_pos rfl

theorem recorded?_drop (action : Action) (key : Key) (e : Entry) :
    s.recorded? (s.drop now action key e).1 = some (s.drop now action key e).2 := by
  rw [recorded?, if_neg (by simp)]
  exact record_getLast? _ _

theorem recorded?_put (key : Key) (prev : Option Entry) (value : String) (options : SetOptions) :
    s.recorded? (s.put now key prev value options).1 =
      some (s.put now key prev value options).2 := by
  rw [recorded?, if_neg (by simp)]
  exact record_getLast? _ _

/-- The changes that the expiry of a list of keys records. -/
def expiriesOf (now : Nat) : Store → List Key → List Change
  | _, [] => []
  | s, key :: rest =>
    (s.recorded? (expireKey now s key)).toList ++ expiriesOf now (expireKey now s key) rest

/-- The changes that expiry records. -/
def expiries (s : Store) (now : Nat) : List Change := expiriesOf now s (s.dueKeys now)

/-- The changes that a request records, with those of the expiry before it. -/
def changes (s : Store) (now : Nat) (r : Request) : List Change :=
  s.expiries now ++ match (s.expire now).perform now r with
    | .ok (s', _) => ((s.expire now).recorded? s').toList
    | .error _ => []

/-! ## Expiry as edits -/

theorem expireKey_edits (now : Nat) (s : Store) (key : Key) :
    Edits now s (s.recorded? (expireKey now s key)).toList (expireKey now s key) := by
  unfold expireKey
  cases h : s.contents[key]? with
  | none =>
    rw [recorded?_self]
    exact .refl s
  | some e =>
    simp only [recorded?_drop]
    exact (Edit.drop h (Or.inr rfl)).edits

theorem expiriesOf_edits (now : Nat) (s : Store) (keys : List Key) :
    Edits now s (expiriesOf now s keys) (keys.foldl (expireKey now) s) := by
  induction keys generalizing s with
  | nil => exact .refl s
  | cons key rest ih => exact (expireKey_edits now s key).trans (ih _)

/-- **Expiry is a sequence of edits.** -/
theorem expire_edits (s : Store) (now : Nat) : Edits now s (s.expiries now) (s.expire now) := by
  have h := expiriesOf_edits now s (s.dueKeys now)
  unfold expire
  dsimp only
  split
  · exact h
  · have := h.tail (.signal _)
    rwa [Option.toList_none, List.append_nil] at this

/-! ## Requests as edits -/

/-- What a request comes to in a store in which nothing is due. -/
inductive Outcome (s : Store) (now : Nat) :
    Request → Except Refusal (Store × Response) → Prop
  | refused (r : Request) (refusal : Refusal) : Outcome s now r (.error refusal)
  | shown (path : String) (options : GetOptions) (response : Response) :
      Outcome s now (.get path options) (.ok (s, response))
  | refreshed {path value : String} {options : SetOptions} {e : Entry}
      (present : s.contents[Key.ofPath path]? = some e) (asked : options.refresh = true) :
      Outcome s now (.set path value options)
        (.ok ((s.refresh now (.ofPath path) e options.lifetime).1,
          (s.refresh now (.ofPath path) e options.lifetime).2))
  | put {path value : String} {options : SetOptions} (notRoot : Key.ofPath path ≠ .root)
      (noDir : ∀ e, s.contents[Key.ofPath path]? = some e → e.dir = false)
      (noFile : ∀ a ∈ (Key.ofPath path).ancestors, ∀ e, s.contents[a]? = some e → e.dir = true)
      (asked : options.refresh = false) :
      Outcome s now (.set path value options)
        (.ok ((s.put now (.ofPath path) s.contents[Key.ofPath path]? value options).1,
          (s.put now (.ofPath path) s.contents[Key.ofPath path]? value options).2.response))
  | dropped {path : String} {options : DeleteOptions} {e : Entry}
      (present : s.contents[Key.ofPath path]? = some e) :
      Outcome s now (.delete path options)
        (.ok ((s.drop now .delete (.ofPath path) e).1.signal,
          (s.drop now .delete (.ofPath path) e).2.response))

theorem write_outcome (s : Store) (now : Nat) (path value : String) (options : SetOptions) :
    s.Outcome now (.set path value options) (s.write now path value options) := by
  unfold write
  dsimp only
  split_ifs with hroot hexist hfresh hrefresh hdir
  · exact .refused _ _
  · exact .refused _ _
  · exact .refused _ _
  · cases h : s.contents[Key.ofPath path]? with
    | none => exact .refused _ _
    | some e => exact .refreshed h hrefresh
  · exact .refused _ _
  · cases hfile : (Key.ofPath path).ancestors.find? fun k => s.contents[k]?.any (!·.dir) with
    | some file => exact .refused _ _
    | none =>
      refine .put hroot (fun e h => ?_) (fun a ha e h => ?_) (by simpa using hrefresh)
      · simpa [h] using hdir
      · simpa [h] using List.find?_eq_none.mp hfile a ha

theorem remove_outcome (s : Store) (now : Nat) (path : String) (options : DeleteOptions) :
    s.Outcome now (.delete path options) (s.remove now path options) := by
  unfold remove
  dsimp only
  split_ifs with hroot
  · exact .refused _ _
  · cases h : s.contents[Key.ofPath path]? with
    | none => exact .refused _ _
    | some e =>
      dsimp only
      split_ifs
      · exact .refused _ _
      · exact .refused _ _
      · exact .dropped h

section Accepted

variable {path value : String}

theorem not_refuse {α : Type} {code : Nat} {cause : String} :
    ¬ ∃ a : α, s.refuse code cause = .ok a := by
  rintro ⟨a, h⟩
  cases h

/-- **The writes that are not refused.** -/
theorem write_ok_iff {options : SetOptions} :
    (∃ answer, s.write now path value options = .ok answer) ↔
      Key.ofPath path ≠ .root ∧
      (options.presence = .mustExist → s.contents[Key.ofPath path]? ≠ none) ∧
      (options.presence = .mustNotExist → s.contents[Key.ofPath path]? = none) ∧
      if options.refresh then s.contents[Key.ofPath path]? ≠ none
      else (∀ e, s.contents[Key.ofPath path]? = some e → e.dir = false) ∧
        ∀ a ∈ (Key.ofPath path).ancestors, ∀ e, s.contents[a]? = some e → e.dir = true := by
  unfold write
  dsimp only
  by_cases hroot : Key.ofPath path = .root
  · rw [if_pos hroot]
    exact iff_of_false not_refuse fun h => h.1 hroot
  rw [if_neg hroot]
  by_cases hexist : options.presence = .mustExist ∧ s.contents[Key.ofPath path]? = none
  · rw [if_pos hexist]
    exact iff_of_false not_refuse fun h => h.2.1 hexist.1 hexist.2
  rw [if_neg hexist]
  by_cases hfresh : options.presence = .mustNotExist ∧ s.contents[Key.ofPath path]? ≠ none
  · rw [if_pos hfresh]
    exact iff_of_false not_refuse fun h => hfresh.2 (h.2.2.1 hfresh.1)
  rw [if_neg hfresh]
  have hpresence : (options.presence = .mustExist → s.contents[Key.ofPath path]? ≠ none) ∧
      (options.presence = .mustNotExist → s.contents[Key.ofPath path]? = none) :=
    ⟨fun h h' => hexist ⟨h, h'⟩, fun h => by_contra fun h' => hfresh ⟨h, h'⟩⟩
  by_cases hrefresh : options.refresh = true
  · rw [if_pos hrefresh, if_pos hrefresh]
    cases hprev : s.contents[Key.ofPath path]? with
    | none => exact iff_of_false not_refuse fun h => h.2.2.2 rfl
    | some e =>
      rw [hprev] at hpresence
      exact iff_of_true ⟨_, rfl⟩ ⟨hroot, hpresence.1, hpresence.2, nofun⟩
  rw [if_neg hrefresh, if_neg hrefresh]
  by_cases hdir : s.contents[Key.ofPath path]?.any (·.dir) = true
  · rw [if_pos hdir]
    obtain ⟨e, he, hd⟩ := (Option.any_eq_true _ _).mp hdir
    refine iff_of_false not_refuse fun h => ?_
    rw [h.2.2.2.1 e he] at hd
    cases hd
  rw [if_neg hdir]
  have hnoDir : ∀ e, s.contents[Key.ofPath path]? = some e → e.dir = false := fun e he => by
    simpa [he] using hdir
  cases hfile : (Key.ofPath path).ancestors.find? fun k => s.contents[k]?.any (!·.dir) with
  | some file =>
    obtain ⟨e, he, hd⟩ := (Option.any_eq_true _ _).mp
      (List.find?_some (p := fun k : Key => s.contents[k]?.any (!·.dir)) hfile)
    refine iff_of_false not_refuse fun h => ?_
    rw [h.2.2.2.2 file (List.mem_of_find?_eq_some hfile) e he] at hd
    cases hd
  | none =>
    refine iff_of_true ⟨_, rfl⟩ ⟨hroot, hpresence.1, hpresence.2, hnoDir, fun a ha e he => ?_⟩
    simpa [he] using List.find?_eq_none.mp hfile a ha

/-- **The removals that are not refused.** -/
theorem remove_ok_iff {options : DeleteOptions} :
    (∃ answer, s.remove now path options = .ok answer) ↔
      Key.ofPath path ≠ .root ∧ ∃ e, s.contents[Key.ofPath path]? = some e ∧
        (e.dir = true → options.recursive = true ∨
          options.dir = true ∧ s.contents.children (.ofPath path) = []) := by
  unfold remove
  dsimp only
  by_cases hroot : Key.ofPath path = .root
  · rw [if_pos hroot]
    exact iff_of_false not_refuse fun h => h.1 hroot
  rw [if_neg hroot]
  cases hprev : s.contents[Key.ofPath path]? with
  | none =>
    refine iff_of_false not_refuse ?_
    rintro ⟨-, e, he, -⟩
    cases he
  | some e =>
    dsimp only
    by_cases hasked : e.dir = true ∧ ¬ options.dir = true ∧ ¬ options.recursive = true
    · rw [if_pos hasked]
      refine iff_of_false not_refuse ?_
      rintro ⟨-, _, he, h⟩
      obtain rfl := Option.some.inj he
      rcases h hasked.1 with hrec | ⟨hdir, -⟩
      · exact hasked.2.2 hrec
      · exact hasked.2.1 hdir
    rw [if_neg hasked]
    by_cases hempty : e.dir = true ∧ ¬ options.recursive = true ∧
        s.contents.children (.ofPath path) ≠ []
    · rw [if_pos hempty]
      refine iff_of_false not_refuse ?_
      rintro ⟨-, _, he, h⟩
      obtain rfl := Option.some.inj he
      rcases h hempty.1 with hrec | ⟨-, hnil⟩
      · exact hempty.2.1 hrec
      · exact hempty.2.2 hnil
    rw [if_neg hempty]
    refine iff_of_true ⟨_, rfl⟩ ⟨hroot, e, rfl, fun hdir => ?_⟩
    by_cases hrec : options.recursive = true
    · exact Or.inl hrec
    · refine Or.inr ⟨?_, ?_⟩
      · exact by_contra fun h => hasked ⟨hdir, h, hrec⟩
      · exact by_contra fun h => hempty ⟨hdir, hrec, h⟩

end Accepted

/-- **What a request comes to.** -/
theorem perform_outcome (s : Store) (now : Nat) (r : Request) :
    s.Outcome now r (s.perform now r) := by
  cases r with
  | get path options =>
    change s.Outcome now (.get path options) ((s.read now path options).map (s, ·))
    cases s.read now path options with
    | error refusal => exact .refused _ _
    | ok response => exact .shown _ _ _
  | set path value options => exact write_outcome s now path value options
  | delete path options => exact remove_outcome s now path options

theorem Outcome.edits {r : Request} {s' : Store} {response : Response}
    (h : s.Outcome now r (.ok (s', response))) :
    Edits now s (s.recorded? s').toList s' := by
  cases h with
  | shown =>
    rw [recorded?_self]
    exact .refl s
  | refreshed present asked =>
    rw [recorded?_refresh]
    exact (Edit.refresh present _).edits
  | put notRoot noDir noFile asked =>
    rw [recorded?_put]
    exact (Edit.put notRoot noDir noFile _ _).edits
  | @dropped path options e present =>
    have hdrop : Edit now s _ _ := .drop present (Or.inl rfl)
    have hsignal := hdrop.edits.tail (.signal _)
    rw [Option.toList_none, List.append_nil] at hsignal
    change Edits now s (s.recorded? (s.drop now .delete (.ofPath path) e).1).toList _
    rw [recorded?_drop]
    exact hsignal

section Serve

variable {r : Request} {refusal : Refusal} {response : Response}

theorem serve_of_error (h : (s.expire now).perform now r = .error refusal) :
    s.serve now r = (s.expire now, .error refusal) := by
  unfold serve
  dsimp only
  rw [h]

theorem serve_of_ok (h : (s.expire now).perform now r = .ok (s', response)) :
    s.serve now r = (s', .ok response) := by
  unfold serve
  dsimp only
  rw [h]

theorem changes_of_error (h : (s.expire now).perform now r = .error refusal) :
    s.changes now r = s.expiries now := by
  unfold changes
  rw [h]
  exact List.append_nil _

theorem changes_of_ok (h : (s.expire now).perform now r = .ok (s', response)) :
    s.changes now r = s.expiries now ++ ((s.expire now).recorded? s').toList := by
  unfold changes
  rw [h]

end Serve

/-- **A request is a sequence of edits.** -/
theorem serve_edits (s : Store) (now : Nat) (r : Request) :
    Edits now s (s.changes now r) (s.serve now r).1 := by
  have hexp := expire_edits s now
  have hr := perform_outcome (s.expire now) now r
  cases h : (s.expire now).perform now r with
  | error refusal =>
    rw [serve_of_error h, changes_of_error h]
    exact hexp
  | ok answer =>
    rw [serve_of_ok h, changes_of_ok h]
    rw [h] at hr
    exact hexp.trans hr.edits

end ClusterRegistry.Store
