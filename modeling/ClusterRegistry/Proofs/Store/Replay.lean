import ClusterRegistry.Proofs.Store.Order

/-!
# The history tells the whole story

Whoever has seen the contents of a store at one moment and the changes that it recorded since knows
the contents at a later moment, but for the deadlines.

* `Contents.redo`, `Contents.replay`: what a change that was read in the history does to contents;
* `Entry.timeless`, `Contents.timeless`, **`Contents.timeless_replay`**: deadlines play no part;
* `Store.redo_drop`, `Store.redo_put`, **`Store.Edit.replay`**: each edit can be done again;
* `Course.run_append_replay`: and so can what some steps record.
-/

namespace ClusterRegistry

def Entry.timeless (e : Entry) : Entry := { e with deadline := none }

/-- The entry that a change has left at its key. A directory has no value to show. -/
def Snapshot.entry (s : Snapshot) : Entry where
  dir := s.dir
  value := s.value.getD ""
  deadline := none
  createdIndex := s.createdIndex
  modifiedIndex := s.modifiedIndex

namespace Contents

variable {m : Contents} {k key : Key} {e : Entry}

/-- Does a change again: a write adds the directories that are missing above its key, a removal
takes everything below its key along. -/
def redo (m : Contents) (c : Change) : Contents :=
  match c.action with
  | .set | .create | .update => (m.addParents c.index c.key.ancestors).insert c.key c.node.entry
  | .delete | .expire => m.prune c.key
  | .get | .compareAndSwap | .compareAndDelete => m

/-- Does changes again, one after the other. -/
def replay (m : Contents) (changes : List Change) : Contents := changes.foldl redo m

theorem replay_append (m : Contents) (first second : List Change) :
    m.replay (first ++ second) = (m.replay first).replay second := List.foldl_append

/-! ## Without deadlines -/

/-- The entries without their deadlines. -/
def timeless (m : Contents) : Contents := m.map fun _ e => e.timeless

theorem lookup_timeless : m.timeless[k]? = m[k]?.map Entry.timeless :=
  Std.ExtTreeMap.getElem?_map

theorem timeless_insert : timeless (m.insert key e) = m.timeless.insert key e.timeless := by
  ext1 k
  simp only [lookup_timeless, Key.lookup_insert]
  split_ifs <;> rfl

theorem timeless_prune : (m.prune key).timeless = m.timeless.prune key := by
  ext1 k
  simp only [lookup_timeless, lookup_prune]
  split_ifs <;> rfl

theorem timeless_addParents (index : Nat) (keys : List Key) :
    (m.addParents index keys).timeless = m.timeless.addParents index keys := by
  ext1 k
  simp only [lookup_timeless, lookup_addParents]
  split_ifs
  · cases m[k]? <;> rfl
  · rfl

theorem timeless_redo (m : Contents) (c : Change) : (m.redo c).timeless = m.timeless.redo c := by
  unfold redo
  cases c.action
  case set | create | update => exact timeless_insert.trans (by rw [timeless_addParents]; rfl)
  case delete | expire => exact timeless_prune
  all_goals rfl

/-- **What a replay leaves depends on no deadline.** -/
theorem timeless_replay (m : Contents) (changes : List Change) :
    (m.replay changes).timeless = m.timeless.replay changes := by
  induction changes generalizing m with
  | nil => rfl
  | cons c rest ih =>
    change ((m.redo c).replay rest).timeless = (m.timeless.redo c).replay rest
    rw [ih, timeless_redo]

end Contents

namespace Store

variable {s s' : Store} {now : Nat}

/-! ## Edits -/

theorem redo_drop {action : Action} (removal : action = .delete ∨ action = .expire) (key : Key)
    (e : Entry) (m : Contents) : m.redo (s.drop now action key e).2 = m.prune key := by
  rcases removal with rfl | rfl <;> rfl

theorem redo_put (key : Key) (prev : Option Entry) (value : String) (options : SetOptions)
    (m : Contents) : m.redo (s.put now key prev value options).2 =
      (m.addParents (s.index + 1) key.ancestors).insert key
        (s.written now prev value options).timeless := by
  have hnode : (s.put now key prev value options).2.node.entry =
      (s.written now prev value options).timeless := by
    change ((s.written now prev value options).snapshot now).entry = _
    cases hdir : options.dir <;> simp [written, Entry.snapshot, Snapshot.entry, Entry.timeless, hdir]
  rw [← hnode]
  unfold Contents.redo
  rw [show (s.put now key prev value options).2.action = Presence.action options.presence from rfl]
  cases options.presence <;> rfl

theorem refresh_timeless {key : Key} {e : Entry} (present : s.contents[key]? = some e)
    (lifetime : Option Nat) :
    (s.refresh now key e lifetime).1.contents.timeless = s.contents.timeless := by
  change Contents.timeless (s.contents.insert key _) = _
  ext1 k
  simp only [Contents.lookup_timeless, Key.lookup_insert]
  split_ifs with hk
  · rw [hk, present]
    rfl
  · rfl

/-- **What an edit records is all that it does, deadlines aside.** -/
theorem Edit.replay {c : Option Change} (edit : Edit now s c s') :
    s'.contents.timeless = s.contents.timeless.replay c.toList := by
  cases edit with
  | signal => rfl
  | refresh present lifetime => exact refresh_timeless present lifetime
  | drop present removal =>
    rw [drop_contents, Contents.timeless_prune]
    exact (redo_drop removal _ _ _).symm
  | put notRoot noDir noFile value options =>
    rw [put_contents, Contents.timeless_insert, Contents.timeless_addParents]
    exact (redo_put _ _ _ _ _).symm

theorem Edits.replay {new : List Change} (edits : Edits now s new s') :
    s'.contents.timeless = s.contents.timeless.replay new := by
  induction edits with
  | refl => rfl
  | tail _ edit ih => rw [edit.replay, ih, Contents.replay_append]

end Store

/-! ## Runs -/

namespace Course

theorem run_append_replay (steps more : List Step) :
    ∃ new, (run (steps ++ more)).log = (run steps).log ++ new ∧
      (run (steps ++ more)).store.contents.timeless =
        (run steps).store.contents.timeless.replay new := by
  induction more using List.reverseRecOn with
  | nil => exact ⟨[], by rw [List.append_nil, List.append_nil], by rw [List.append_nil]; rfl⟩
  | append_singleton more st ih =>
    obtain ⟨new, hlog, hnew⟩ := ih
    obtain ⟨last, hedits, hlog', -⟩ := (run (steps ++ more)).step_edits st
    rw [← List.append_assoc, run_append]
    refine ⟨new ++ last, ?_, ?_⟩
    · rw [hlog', hlog, List.append_assoc]
    · rw [hedits.replay, hnew, Contents.replay_append]

end Course

end ClusterRegistry
