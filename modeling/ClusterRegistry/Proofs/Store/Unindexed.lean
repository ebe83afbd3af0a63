import ClusterRegistry.Proofs.Store.Refinement

/-!
# Answers without indices

An answer shows what is kept and the indices. Stores that keep the same under other indices give
answers that differ in the indices alone.

* `Response.unindexed`, `Store.unindexed`: what is left of an answer without the indices;
* `Store.read_unindexed`, `Store.write_unindexed`, `Store.remove_unindexed`;
* **`Store.perform_unindexed`**: what is kept tells all answers, but for indices.
-/

namespace ClusterRegistry

/-- The action, the node and what was there before, without indices. -/
def Response.unindexed (r : Response) : Action × View × Option View :=
  (r.action, r.node.view, r.prevNode.map Node.view)

namespace Store

/-- An answer without its indices. -/
def unindexed : Except Refusal Response → Except Refusal (Action × View × Option View)
  | .ok response => .ok response.unindexed
  | .error refusal => .error refusal.unindexed

variable {s t : Store} {now : Nat}

theorem lookup_of_slots (h : s.contents.slots = t.contents.slots) (k : Key) :
    s.contents[k]? = none ∧ t.contents[k]? = none ∨
      ∃ e e', s.contents[k]? = some e ∧ t.contents[k]? = some e' ∧ e.slot = e'.slot := by
  have hslot : s.contents[k]?.map Entry.slot = t.contents[k]?.map Entry.slot := by
    rw [← Contents.lookup_slots, ← Contents.lookup_slots, h]
  cases hs : s.contents[k]? with
  | none =>
    rw [hs] at hslot
    exact .inl ⟨rfl, Option.map_eq_none_iff.mp hslot.symm⟩
  | some e =>
    rw [hs] at hslot
    obtain ⟨e', he', hslot'⟩ := Option.map_eq_some_iff.mp hslot.symm
    exact .inr ⟨e, e', rfl, he', hslot'.symm⟩

theorem view_of_slot {e e' : Entry} (h : e.slot = e'.slot) (now : Nat) (key : Key)
    (nodes nodes' : List Node) (hnodes : Node.views nodes = Node.views nodes') :
    ((e.snapshot now).node key nodes).view = ((e'.snapshot now).node key nodes').view := by
  rw [Entry.view_snapshot, Entry.view_snapshot, h, hnodes]

/-! ## Reads -/

theorem read_unindexed (h : s.contents.slots = t.contents.slots) (now : Nat) (path : String)
    (options : GetOptions) :
    unindexed (s.read now path options) = unindexed (t.read now path options) := by
  have hsize : s.contents.size = t.contents.size := by
    have hslots : ∀ m : Contents, m.slots.size = m.size := fun _ => Std.ExtTreeMap.size_map
    rw [← hslots, ← hslots, h]
  have hnodes : ∀ depth key, Node.views (s.contents.childNodes now depth key) =
      Node.views (t.contents.childNodes now depth key) := fun depth key => by
    rw [Contents.views_childNodes, Contents.views_childNodes, h]
  unfold read
  dsimp only
  rw [hsize]
  generalize (if options.recursive then t.contents.size else 0) = depth
  by_cases hroot : Key.ofPath path = .root
  · rw [if_pos hroot, if_pos hroot]
    exact congrArg (fun nodes => Except.ok (Action.get, View.mk "" none true none nodes, none))
      (hnodes depth _)
  rw [if_neg hroot, if_neg hroot]
  rcases lookup_of_slots h (.ofPath path) with ⟨hs, ht⟩ | ⟨e, e', hs, ht, hslot⟩
  · rw [hs, ht]
    rfl
  · rw [hs, ht]
    have hdir : e.dir = e'.dir := congrArg Slot.dir hslot
    refine congrArg (fun view => Except.ok (Action.get, view, none)) ?_
    apply view_of_slot hslot
    rw [hdir]
    split_ifs
    · exact hnodes depth _
    · rfl

/-! ## Writes and removals -/

theorem any_of_slots (h : s.contents.slots = t.contents.slots) (f : Bool → Bool) (k : Key) :
    s.contents[k]?.any (fun e => f e.dir) = t.contents[k]?.any fun e => f e.dir := by
  rcases lookup_of_slots h k with ⟨hs, ht⟩ | ⟨e, e', hs, ht, hslot⟩
  · rw [hs, ht]
  · have hdir : e.dir = e'.dir := congrArg Slot.dir hslot
    rw [hs, ht, Option.any_some, Option.any_some, hdir]

theorem unindexed_of_slots {action : Action} {key : Key} {index index' : Nat} {node node' : Node}
    (hnode : node.view = node'.view) {prev prev' : Option Entry}
    (hprev : prev.map Entry.slot = prev'.map Entry.slot) :
    Response.unindexed
        ⟨action, node, (prev.map (·.snapshot now)).map fun p => p.node key [], index⟩ =
      Response.unindexed
        ⟨action, node', (prev'.map (·.snapshot now)).map fun p => p.node key [], index'⟩ := by
  have hview : ∀ o : Option Entry, ((o.map (·.snapshot now)).map fun p => p.node key []).map
      Node.view = (o.map Entry.slot).map fun x => x.view now key [] := by
    intro o
    rw [Option.map_map, Option.map_map, Option.map_map]
    refine congrArg (Option.map · o) (funext fun e => ?_)
    exact Entry.view_snapshot e now key []
  unfold Response.unindexed
  rw [hnode, hview, hview, hprev]

theorem refresh_unindexed (key : Key) {e e' : Entry} (hslot : e.slot = e'.slot)
    (lifetime : Option Nat) : (s.refresh now key e lifetime).2.unindexed =
      (t.refresh now key e' lifetime).2.unindexed := by
  have hprev : (some e).map Entry.slot = (some e').map Entry.slot := congrArg some hslot
  refine unindexed_of_slots ?_ hprev
  apply view_of_slot
  · exact congrArg (fun x : Slot => { x with deadline := lifetime.map (now + ·) }) hslot
  · rfl

theorem put_unindexed (key : Key) (value : String) (options : SetOptions)
    {prev prev' : Option Entry} (hprev : prev.map Entry.slot = prev'.map Entry.slot) :
    (s.put now key prev value options).2.response.unindexed =
      (t.put now key prev' value options).2.response.unindexed := by
  refine unindexed_of_slots ?_ hprev
  apply view_of_slot <;> rfl

theorem drop_unindexed (action : Action) (key : Key) {e e' : Entry} (hslot : e.slot = e'.slot) :
    (s.drop now action key e).2.response.unindexed =
      (t.drop now action key e').2.response.unindexed := by
  have hprev : (some e).map Entry.slot = (some e').map Entry.slot := congrArg some hslot
  have hdir : e.dir = e'.dir := congrArg Slot.dir hslot
  refine unindexed_of_slots ?_ hprev
  exact congrArg (View.mk key.text none · none []) hdir

theorem write_unindexed (h : s.contents.slots = t.contents.slots) (now : Nat) (path value : String)
    (options : SetOptions) : unindexed ((s.write now path value options).map (·.2)) =
      unindexed ((t.write now path value options).map (·.2)) := by
  have hfile : (fun k : Key => s.contents[k]?.any (!·.dir)) =
      fun k => t.contents[k]?.any (!·.dir) := funext (any_of_slots h (! ·))
  have hdir := any_of_slots h (fun d => d) (.ofPath path)
  have hnone : s.contents[Key.ofPath path]? = none ↔ t.contents[Key.ofPath path]? = none := by
    rw [← Contents.lookup_slots_eq_none, h, Contents.lookup_slots_eq_none]
  unfold write
  dsimp only
  simp only [hfile, hdir, hnone, ne_eq]
  split_ifs
  · rfl
  · rfl
  · rfl
  · rcases lookup_of_slots h (.ofPath path) with ⟨hs, ht⟩ | ⟨e, e', hs, ht, hslot⟩
    · rw [hs, ht]
      rfl
    · rw [hs, ht]
      exact congrArg Except.ok (refresh_unindexed _ hslot _)
  · rfl
  · split
    · rfl
    · refine congrArg Except.ok (put_unindexed _ _ _ ?_)
      rw [← Contents.lookup_slots, ← Contents.lookup_slots, h]

theorem remove_unindexed (h : s.contents.slots = t.contents.slots) (now : Nat) (path : String)
    (options : DeleteOptions) : unindexed ((s.remove now path options).map (·.2)) =
      unindexed ((t.remove now path options).map (·.2)) := by
  have hchildren : ∀ key, s.contents.children key = [] ↔ t.contents.children key = [] := by
    intro key
    have hkeys : ∀ m : Contents, m.children key = [] ↔
        (m.slots.toList.filter fun p => p.1.IsChildOf key) = [] := by
      intro m
      rw [Contents.toList_slots, List.filter_map, List.map_eq_nil_iff]
      rfl
    rw [hkeys, hkeys, h]
  unfold remove
  dsimp only
  split_ifs with hroot
  · rfl
  rcases lookup_of_slots h (.ofPath path) with ⟨hs, ht⟩ | ⟨e, e', hs, ht, hslot⟩
  · rw [hs, ht]
    rfl
  · have hdir : e.dir = e'.dir := congrArg Slot.dir hslot
    rw [hs, ht]
    dsimp only
    simp only [hdir, hchildren, ne_eq]
    split_ifs
    · rfl
    · rfl
    · exact congrArg Except.ok (drop_unindexed _ _ hslot)

/-- **What is kept tells all answers to requests, but for indices.** -/
theorem perform_unindexed (h : s.contents.slots = t.contents.slots) (now : Nat) (q : Request) :
    unindexed ((s.perform now q).map (·.2)) = unindexed ((t.perform now q).map (·.2)) := by
  cases q with
  | get path options =>
    have hread : ∀ u : Store, (u.perform now (.get path options)).map (·.2) =
        u.read now path options := by
      intro u
      change ((u.read now path options).map (u, ·)).map (·.2) = u.read now path options
      cases u.read now path options <;> rfl
    rw [hread, hread, read_unindexed h]
  | set path value options => exact write_unindexed h now path value options
  | delete path options => exact remove_unindexed h now path options

theorem serve_snd (s : Store) (now : Nat) (q : Request) :
    (s.serve now q).2 = ((s.expire now).perform now q).map (·.2) := by
  unfold serve
  dsimp only
  cases (s.expire now).perform now q <;> rfl

end Store

end ClusterRegistry
