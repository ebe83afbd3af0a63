import ClusterRegistry.Proofs.Store.Eager
import ClusterRegistry.Proofs.Store.Ledger

/-!
# Late expiry does not show

A store removes what is due on the next access only. What is left after that is what an eager store
keeps, so no read tells the two apart.

* `Entry.slot`, `Contents.slots`: entries without their indices;
* `Store.settle_slots`: expiry is what an eager store does at once;
* `Eager.Mirrors`, `Eager.Mirrors.step`: an eager store that keeps up with a course;
* `Node.view`, **`Eager.run_get`**: reads of both stores agree.
-/

namespace ClusterRegistry

/-! ## Entries without indices -/

def Entry.slot (e : Entry) : Slot := ⟨e.dir, e.value, e.deadline⟩

namespace Contents

variable {m : Contents} {k key : Key} {e : Entry}

/-- What is kept, without the indices. -/
def slots (m : Contents) : Slots := m.map fun _ e => e.slot

theorem lookup_slots : m.slots[k]? = m[k]?.map Entry.slot := Std.ExtTreeMap.getElem?_map

theorem toList_slots : m.slots.toList = m.toList.map fun p => (p.1, p.2.slot) :=
  Std.ExtTreeMap.toList_map

theorem lookup_slots_eq_none : m.slots[k]? = none ↔ m[k]? = none := by
  rw [lookup_slots, Option.map_eq_none_iff]

theorem slots_insert : slots (m.insert key e) = m.slots.insert key e.slot := by
  ext1 k
  rw [lookup_slots, Key.lookup_insert, Key.lookup_insert, lookup_slots]
  split_ifs <;> rfl

theorem slots_prune : (m.prune key).slots = m.slots.cut key := by
  ext1 k
  rw [lookup_slots, lookup_prune, Slots.lookup_cut, lookup_slots]
  split_ifs <;> rfl

theorem slots_addParents {index : Nat} {keys : List Key} :
    (m.addParents index keys).slots = m.slots.withDirs keys := by
  induction keys generalizing m with
  | nil => rfl
  | cons a rest ih =>
    have hnew : slots (m.insertIfNew a (.parent index)) =
        m.slots.insertIfNew a ⟨true, "", none⟩ := by
      ext1 k
      rw [lookup_slots, Key.lookup_insertIfNew, Key.lookup_insertIfNew, lookup_slots, lookup_slots]
      split_ifs
      · cases m[a]? <;> rfl
      · rfl
    show slots (addParents (m.insertIfNew a (.parent index)) index rest) = _
    rw [ih, hnew]
    rfl

end Contents

/-! ## Expiry -/

namespace Store

variable {s : Store} {now : Nat}

theorem settle_slots
    (h : ∀ (k : Key) (e : Entry), s.contents[k]? = some e → ∀ d ∈ e.deadline, now ≤ d) :
    s.contents.slots.settle now = (s.expire now).contents.slots := by
  ext1 k
  rw [Slots.lookup_settle, Contents.lookup_slots, Contents.lookup_slots, lookup_expire]
  have hiff : (∃ (a : Key) (x : Slot), s.contents.slots[a]? = some x ∧ x.deadline = some now ∧
      k.IsWithin a) ↔ s.contents.IsDoomed now k := by
    constructor
    · rintro ⟨a, x, hx, hd, hin⟩
      rw [Contents.lookup_slots, Option.map_eq_some_iff] at hx
      obtain ⟨e, hmem, rfl⟩ := hx
      exact ⟨a, e, hmem, ⟨now, hd, Nat.le_refl now⟩, hin⟩
    · rintro ⟨a, e, hmem, ⟨d, hd, hle⟩, hin⟩
      obtain rfl := Nat.le_antisymm hle (h a e hmem d hd)
      exact ⟨a, e.slot, by rw [Contents.lookup_slots, hmem]; rfl, hd, hin⟩
  by_cases hdoomed : s.contents.IsDoomed now k
  · rw [if_pos (hiff.mpr hdoomed), if_pos hdoomed]
    rfl
  · rw [if_neg fun h => hdoomed (hiff.mp h), if_neg hdoomed]

end Store

/-! ## Keeping up -/

namespace Eager

variable {r : Eager} {s : Store} {c : Course} {now : Nat}

/-- An eager store keeps what is left in a store after expiry. -/
structure Mirrors (r : Eager) (s : Store) (now : Nat) : Prop where
  clock : r.now = now
  slots : r.slots = (s.expire now).contents.slots

theorem Mirrors.empty : Mirrors {} .empty 0 := by
  refine ⟨rfl, ?_⟩
  ext1 k
  rw [Contents.lookup_slots, Store.lookup_expire]
  have hnone : Store.empty.contents[k]? = none := Std.ExtTreeMap.getElem?_empty
  rw [hnone, ite_self]
  exact Std.ExtTreeMap.getElem?_empty

theorem Mirrors.expire (h : r.Mirrors s now) : r.Mirrors (s.expire now) now :=
  ⟨h.clock, by rw [Store.expire_expire]; exact h.slots⟩

theorem Mirrors.tick (h : r.Mirrors s now) : r.tick.Mirrors s (now + 1) := by
  refine ⟨congrArg (· + 1) h.clock, ?_⟩
  rw [← Store.expire_contents_expire s (Nat.le_succ now)]
  show r.slots.settle (r.now + 1) = _
  rw [h.clock, h.slots, Store.settle_slots]
  exact fun k e he d hd => Store.lt_of_expire he d hd

theorem Mirrors.pass (h : r.Mirrors s now) (millis : Nat) :
    (r.pass millis).Mirrors s (now + millis) := by
  induction millis with
  | zero => exact h
  | succ millis ih => exact ih.tick

/-! ## Writes and removals -/

section Requests

variable {path value : String}

theorem accepts_iff (h : r.slots = s.contents.slots) (now : Nat) (value : String)
    {options : SetOptions} :
    r.Accepts (.ofPath path) options ↔ ∃ answer, s.write now path value options = .ok answer := by
  have hnone : ∀ k, r.slots[k]? = none ↔ s.contents[k]? = none := fun k => by
    rw [h, Contents.lookup_slots_eq_none]
  have hall : ∀ (k : Key) (b : Bool), (∀ x ∈ r.slots[k]?, x.dir = b) ↔
      ∀ e, s.contents[k]? = some e → e.dir = b := fun k b => by
    rw [h, Contents.lookup_slots]
    cases s.contents[k]? <;> simp [Entry.slot]
  rw [Store.write_ok_iff, Accepts]
  simp only [ne_eq, hnone, hall]

theorem releases_iff (h : r.slots = s.contents.slots) (horder : s.InOrder) (now : Nat)
    {options : DeleteOptions} :
    r.Releases (.ofPath path) options ↔ ∃ answer, s.remove now path options = .ok answer := by
  have hbelow : (∀ p ∈ r.slots.toList, ¬ p.1.IsBelow (.ofPath path)) ↔
      s.contents.children (.ofPath path) = [] := by
    rw [horder.children_eq_nil, h, Contents.toList_slots]
    simp only [List.forall_mem_map, Prod.forall, Contents.mem_toList]
  rw [Store.remove_ok_iff, Releases, hbelow, h, Contents.lookup_slots]
  cases s.contents[Key.ofPath path]? <;> simp [Entry.slot]

theorem slots_refresh (h : r.slots = s.contents.slots) {e : Entry} {options : SetOptions}
    (present : s.contents[Key.ofPath path]? = some e) (asked : options.refresh = true) :
    (s.refresh r.now (.ofPath path) e options.lifetime).1.contents.slots =
      r.written (.ofPath path) value options := by
  rw [written, if_pos asked, Slots.withDeadline, h, Contents.lookup_slots, present]
  exact Contents.slots_insert

theorem slots_put (h : r.slots = s.contents.slots) {prev : Option Entry} {options : SetOptions}
    (asked : options.refresh = false) :
    (s.put r.now (.ofPath path) prev value options).1.contents.slots =
      r.written (.ofPath path) value options := by
  rw [written, if_neg (by simp [asked]), Store.put_contents, Contents.slots_insert,
    Contents.slots_addParents, h]
  rfl

theorem le_deadline_refresh (h : ∀ (k : Key) (e : Entry), s.contents[k]? = some e →
    ∀ d ∈ e.deadline, now ≤ d) (key : Key) (e : Entry) (lifetime : Option Nat) :
    ∀ (k : Key) (x : Entry), (s.refresh now key e lifetime).1.contents[k]? = some x →
      ∀ d ∈ x.deadline, now ≤ d := by
  intro k x hx d hd
  replace hx : (s.contents.insert key _)[k]? = some x := hx
  rw [Key.lookup_insert] at hx
  split_ifs at hx
  · obtain rfl := Option.some.inj hx
    obtain ⟨n, -, rfl⟩ := Option.map_eq_some_iff.mp hd
    exact Nat.le_add_right now n
  · exact h k x hx d hd

theorem le_deadline_put (h : ∀ (k : Key) (e : Entry), s.contents[k]? = some e →
    ∀ d ∈ e.deadline, now ≤ d) (key : Key) (prev : Option Entry) (options : SetOptions) :
    ∀ (k : Key) (x : Entry), (s.put now key prev value options).1.contents[k]? = some x →
      ∀ d ∈ x.deadline, now ≤ d := by
  intro k x hx d hd
  rw [Store.lookup_put] at hx
  split_ifs at hx
  · obtain rfl := Option.some.inj hx
    obtain ⟨n, -, rfl⟩ := Option.map_eq_some_iff.mp hd
    exact Nat.le_add_right now n
  · obtain rfl := Option.some.inj hx
    cases hk : s.contents[k]? with
    | none =>
      rw [hk] at hd
      cases hd
    | some e =>
      rw [hk] at hd
      exact h k e hk d hd
  · exact h k x hx d hd

end Requests

/-- **Both stores take a write or a removal alike.** -/
theorem Mirrors.serve (h : r.Mirrors s now) (horder : s.InOrder) (q : Request) :
    ((r.serve q).getD r).Mirrors (s.serve now q).1 now := by
  obtain ⟨rfl, hslots⟩ := h
  have hself : r.Mirrors (s.expire r.now) r.now := Mirrors.expire ⟨rfl, hslots⟩
  have hkept : ∀ (k : Key) (e : Entry), (s.expire r.now).contents[k]? = some e →
      ∀ d ∈ e.deadline, r.now ≤ d := fun k e he d hd => (Store.lt_of_expire he d hd).le
  have hout := Store.perform_outcome (s.expire r.now) r.now q
  cases hq : (s.expire r.now).perform r.now q with
  | error refusal =>
    rw [Store.serve_of_error hq]
    have hnone : (r.serve q).getD r = r := by
      cases q with
      | get path options => rfl
      | set path value options =>
        rw [Eager.serve, set, if_neg]
        · rfl
        · rw [accepts_iff hslots r.now value]
          rintro ⟨answer, hanswer⟩
          rw [show (s.expire r.now).write r.now path value options = .error refusal from hq]
            at hanswer
          cases hanswer
      | delete path options =>
        rw [Eager.serve, delete, if_neg]
        · rfl
        · rw [releases_iff hslots (horder.expire r.now) r.now]
          rintro ⟨answer, hanswer⟩
          rw [show (s.expire r.now).remove r.now path options = .error refusal from hq] at hanswer
          cases hanswer
    rwa [hnone]
  | ok answer =>
    rw [hq] at hout
    rw [Store.serve_of_ok hq]
    cases hout with
    | shown path options response => exact hself
    | @refreshed path value options e present asked =>
      have haccepts := (accepts_iff hslots r.now value).mpr ⟨_, hq⟩
      rw [Eager.serve, set, if_pos haccepts]
      refine ⟨rfl, ?_⟩
      show (r.written _ value options).settle r.now = _
      rw [← slots_refresh hslots present asked]
      exact Store.settle_slots (le_deadline_refresh hkept _ _ _)
    | @put path value options _ _ _ asked =>
      have haccepts := (accepts_iff hslots r.now value).mpr ⟨_, hq⟩
      rw [Eager.serve, set, if_pos haccepts]
      refine ⟨rfl, ?_⟩
      show (r.written _ value options).settle r.now = _
      rw [← slots_put hslots asked]
      exact Store.settle_slots (le_deadline_put hkept _ _ _)
    | @dropped path options e present =>
      have hreleases := (releases_iff hslots (horder.expire r.now) r.now).mpr ⟨_, hq⟩
      rw [Eager.serve, delete, if_pos hreleases]
      refine ⟨rfl, ?_⟩
      have hcontents : ((s.expire r.now).drop r.now .delete (.ofPath path) e).1.signal.contents =
          (s.expire r.now).contents.prune (.ofPath path) := Store.drop_contents _ _ _
      show r.slots.cut _ = _
      rw [Store.expire_eq_self, hcontents, Contents.slots_prune, hslots]
      -- what is left after a removal was left before
      intro k x hx hdue
      rw [hcontents, Contents.lookup_prune] at hx
      split_ifs at hx
      exact Store.not_isDue_of_expire hx hdue

/-- **An eager store keeps up with whatever happens.** -/
theorem Mirrors.step (h : r.Mirrors c.store c.now) (horder : c.store.InOrder) (st : Step) :
    (r.step st).Mirrors (c.step st).store (c.step st).now := by
  cases st with
  | request q => exact h.serve horder q
  | wait path options =>
    rw [Course.step_wait]
    exact h.expire
  | resume w =>
    rw [Course.step_resume]
    exact h.expire
  | look => exact h.expire
  | pass millis => exact h.pass millis

theorem run_mirrors (steps : List Step) :
    (run steps).Mirrors (Course.run steps).store (Course.run steps).now := by
  induction steps using List.reverseRecOn with
  | nil => exact .empty
  | append_singleton steps st ih =>
    rw [run_append, Course.run_append]
    exact ih.step (Course.run_inOrder steps) st

end Eager

/-! ## Reads -/

mutual

/-- A node without its indices. -/
def Node.view : Node → View
  | .mk key value dir nodes ttl _ _ _ => .mk key value dir ttl (Node.views nodes)

/-- Nodes without their indices. -/
def Node.views : List Node → List View
  | [] => []
  | n :: rest => n.view :: Node.views rest

end

/-- A refusal without its index. -/
def Refusal.unindexed (r : Refusal) : Refusal := { r with index := 0 }

theorem Node.views_eq_map (nodes : List Node) : Node.views nodes = nodes.map Node.view := by
  induction nodes with
  | nil => rfl
  | cons n rest ih => rw [Node.views, ih, List.map_cons]

theorem Entry.view_snapshot (e : Entry) (now : Nat) (key : Key) (nodes : List Node) :
    ((e.snapshot now).node key nodes).view = e.slot.view now key (Node.views nodes) := by
  have httl : (e.deadline.map fun t => (t - now + 999) / 1000).map Int.ofNat =
      e.deadline.map fun t => Int.ofNat ((t - now + 999) / 1000) := Option.map_map _ _ _
  exact congrArg (View.mk key.text (if e.dir then none else some e.value) e.dir · _) httl

theorem Contents.views_childNodes (c : Contents) (now depth : Nat) (key : Key) :
    Node.views (c.childNodes now depth key) = c.slots.views now depth key := by
  induction depth generalizing key with
  | zero =>
    rw [childNodes, Slots.views, toList_slots, List.filter_map, List.map_map, Node.views_eq_map,
      List.map_map]
    refine List.map_congr_left fun p _ => ?_
    exact Entry.view_snapshot p.2 now p.1 []
  | succ depth ih =>
    rw [childNodes, Slots.views, toList_slots, List.filter_map, List.map_map, Node.views_eq_map,
      List.map_map]
    refine List.map_congr_left fun p _ => ?_
    refine (Entry.view_snapshot p.2 now p.1 _).trans (congrArg (p.2.slot.view now p.1) ?_)
    show Node.views (if p.2.dir = true then c.childNodes now depth p.1 else []) =
      if p.2.dir = true then c.slots.views now depth p.1 else []
    split_ifs
    · exact ih p.1
    · rfl

namespace Eager

/-- What the answer to a read shows: a node without its indices, or the code of the refusal. -/
def shown (answer : Except Refusal Response) : Except Nat View :=
  match answer with
  | .ok response => .ok response.node.view
  | .error refusal => .error refusal.code

theorem shown_read {r : Eager} {s : Store} (h : r.slots = s.contents.slots) (path : String)
    (options : GetOptions) : shown (s.read r.now path options) = r.get path options.recursive := by
  have hsize : r.slots.size = s.contents.size := by rw [h]; exact Std.ExtTreeMap.size_map
  unfold Store.read get
  dsimp only
  rw [hsize, h, ← Contents.views_childNodes]
  generalize (if options.recursive then s.contents.size else 0) = depth
  by_cases hroot : Key.ofPath path = .root
  · rw [if_pos hroot, if_pos hroot]
    rfl
  · rw [if_neg hroot, if_neg hroot, Contents.lookup_slots]
    cases he : s.contents[Key.ofPath path]? with
    | none => rfl
    | some e =>
      refine congrArg Except.ok ((Entry.view_snapshot e r.now _ _).trans ?_)
      refine congrArg (e.slot.view r.now _) ?_
      show Node.views (if e.dir = true then _ else []) = if e.dir = true then _ else []
      split_ifs <;> rfl

/-- **A store that removes what is due on the next access answers every read as one that removes it
in the very millisecond of its deadline, and that deadline is the one last given.** -/
theorem run_get (steps : List Step) :
    (∀ (path : String) (options : GetOptions),
      shown ((Course.run steps).store.serve (Course.run steps).now (.get path options)).2 =
        (run steps).get path options.recursive) ∧
    (∀ (k : Key) (x : Slot), (run steps).slots[k]? = some x →
      x.deadline = (Ledger.run steps).given k ∧ ∀ d ∈ x.deadline, (run steps).now < d) := by
  obtain ⟨hclock, hslots⟩ := run_mirrors steps
  refine ⟨fun path options => ?_, fun k x hx => ?_⟩
  · rw [← hclock] at hslots ⊢
    rw [← shown_read hslots path options]
    unfold Store.serve Store.perform
    dsimp only
    cases Store.read _ (run steps).now path options <;> rfl
  · rw [hslots, Contents.lookup_slots, Option.map_eq_some_iff] at hx
    obtain ⟨e, he, rfl⟩ := hx
    have hgiven := Ledger.run_agrees steps k
    rw [Ledger.run_course, he] at hgiven
    refine ⟨hgiven, ?_⟩
    rw [hclock]
    exact Store.lt_of_expire he

end Eager

end ClusterRegistry
