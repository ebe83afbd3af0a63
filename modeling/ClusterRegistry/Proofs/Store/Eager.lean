import ClusterRegistry.Proofs.Store.Course

/-!
# An eager store

A store for comparison that knows neither indices nor a history. An entry goes, with everything
below it, in the very millisecond of its deadline.

* `Slot`, `Slots`, `Eager`: what an eager store keeps;
* `Slots.settle`, `Eager.tick`, `Eager.pass`: time goes by, one millisecond after the other;
* `Eager.set`, `Eager.delete`: writes and removals, unless they are refused;
* `View`, `Eager.get`: what a read shows;
* `Eager.run`: what happens to an eager store from the beginning.
-/

namespace ClusterRegistry

/-! ## Slots -/

/-- What an eager store keeps at a key. -/
structure Slot where
  dir : Bool
  value : String
  deadline : Option Nat
deriving DecidableEq

/-- Slots by key, in the order of their texts. -/
abbrev Slots := Std.ExtTreeMap Key Slot

namespace Slots

/-- The slots without a key and everything below it. -/
def cut (slots : Slots) (key : Key) : Slots := slots.filter fun k _ => ¬ k.IsWithin key

/-- The slots without those whose deadline is now, and without everything below them. -/
def settle (slots : Slots) (now : Nat) : Slots :=
  slots.filter fun k _ => ¬ ∃ p ∈ slots.toList, p.2.deadline = some now ∧ k.IsWithin p.1

/-- The slots with a directory at each of the keys where nothing is. -/
def withDirs (slots : Slots) (keys : List Key) : Slots :=
  keys.foldl (fun slots k => slots.insertIfNew k ⟨true, "", none⟩) slots

/-- The slots with another deadline at a key. -/
def withDeadline (slots : Slots) (key : Key) (deadline : Option Nat) : Slots :=
  match slots[key]? with
  | some x => slots.insert key { x with deadline := deadline }
  | none => slots

theorem lookup_cut {slots : Slots} {k key : Key} :
    (slots.cut key)[k]? = if k.IsWithin key then none else slots[k]? := Key.lookup_filter_not

open Classical in
theorem lookup_settle {slots : Slots} {now : Nat} {k : Key} : (slots.settle now)[k]? =
    if ∃ (a : Key) (x : Slot), slots[a]? = some x ∧ x.deadline = some now ∧ k.IsWithin a then none
    else slots[k]? := by
  rw [settle, Key.lookup_filter_not]
  refine if_congr ?_ rfl rfl
  simp only [Prod.exists, Std.ExtTreeMap.mem_toList_iff_getElem?_eq_some]

end Slots

/-! ## What a read shows -/

/-- A key as a read shows it: its path, its value, whether it is a directory, the seconds that are
left of its lifetime, and what is in it. -/
inductive View
  | mk (path : String) (value : Option String) (dir : Bool) (ttl : Option Int) (nodes : List View)

/-- A slot as a read shows it. What is left of a lifetime is rounded up to seconds. -/
def Slot.view (x : Slot) (now : Nat) (key : Key) (nodes : List View) : View :=
  .mk key.text (if x.dir then none else some x.value) x.dir
    (x.deadline.map fun t => Int.ofNat ((t - now + 999) / 1000)) nodes

/-- The children of a key as a read shows them, opened down to a depth. -/
def Slots.views (slots : Slots) (now : Nat) : Nat → Key → List View
  | 0, key => (slots.toList.filter fun (k, _) => k.IsChildOf key).map fun (k, x) => x.view now k []
  | depth + 1, key => (slots.toList.filter fun (k, _) => k.IsChildOf key).map fun (k, x) =>
      x.view now k (if x.dir then slots.views now depth k else [])

/-! ## The store -/

/-- An eager store at a time. -/
structure Eager where
  now : Nat := 0
  slots : Slots := ∅

namespace Eager

/-- A millisecond goes by. -/
def tick (r : Eager) : Eager := { now := r.now + 1, slots := r.slots.settle (r.now + 1) }

/-- Some milliseconds go by. -/
def pass (r : Eager) : Nat → Eager
  | 0 => r
  | millis + 1 => (r.pass millis).tick

/-- Whether a write is accepted: the root is never written, nor is a directory or anything below a
file, while a refresh asks for no more than a key that is there. -/
def Accepts (r : Eager) (key : Key) (options : SetOptions) : Prop :=
  key ≠ .root ∧ (options.presence = .mustExist → r.slots[key]? ≠ none) ∧
    (options.presence = .mustNotExist → r.slots[key]? = none) ∧
    if options.refresh then r.slots[key]? ≠ none
    else (∀ x ∈ r.slots[key]?, x.dir = false) ∧
      ∀ a ∈ key.ancestors, ∀ x ∈ r.slots[a]?, x.dir = true

instance (r : Eager) (key : Key) (options : SetOptions) : Decidable (r.Accepts key options) := by
  unfold Accepts
  infer_instance

/-- The slots after a write or a refresh. -/
def written (r : Eager) (key : Key) (value : String) (options : SetOptions) : Slots :=
  let deadline := options.lifetime.map (r.now + ·)
  if options.refresh then r.slots.withDeadline key deadline
  else (r.slots.withDirs key.ancestors).insert key
    ⟨options.dir, if options.dir then "" else value, deadline⟩

/-- A write or a refresh, unless it is refused. -/
def set (r : Eager) (path value : String) (options : SetOptions) : Option Eager :=
  let key := Key.ofPath path
  if r.Accepts key options then
    some { r with slots := (r.written key value options).settle r.now }
  else none

/-- Whether a removal is accepted: a directory goes if everything below it may go with it, or if it
is empty and asked for as a directory. -/
def Releases (r : Eager) (key : Key) (options : DeleteOptions) : Prop :=
  key ≠ .root ∧ r.slots[key]? ≠ none ∧
    ∀ x ∈ r.slots[key]?, x.dir = true → options.recursive = true ∨
      options.dir = true ∧ ∀ p ∈ r.slots.toList, ¬ p.1.IsBelow key

instance (r : Eager) (key : Key) (options : DeleteOptions) :
    Decidable (r.Releases key options) := by
  unfold Releases
  infer_instance

/-- A removal, unless it is refused. -/
def delete (r : Eager) (path : String) (options : DeleteOptions) : Option Eager :=
  let key := Key.ofPath path
  if r.Releases key options then some { r with slots := r.slots.cut key } else none

/-- A read: what is at a key, or the code for a key that is not there. -/
def get (r : Eager) (path : String) (recursive : Bool) : Except Nat View :=
  let key := Key.ofPath path
  let nodes := r.slots.views r.now (if recursive then r.slots.size else 0) key
  if key = .root then .ok (.mk "" none true none nodes)
  else match r.slots[key]? with
    | none => .error Refusal.keyNotFound
    | some x => .ok (x.view r.now key (if x.dir then nodes else []))

/-- The store after a request, unless it is refused. A read changes nothing. -/
def serve (r : Eager) : Request → Option Eager
  | .get _ _ => some r
  | .set path value options => r.set path value options
  | .delete path options => r.delete path options

/-- The next thing happens. Waits and looks do nothing. -/
def step (r : Eager) : Step → Eager
  | .request q => (r.serve q).getD r
  | .pass millis => r.pass millis
  | .wait _ _ | .resume _ | .look => r

/-- What happens to a new eager store. -/
def run (steps : List Step) : Eager := steps.foldl step {}

theorem run_append (steps : List Step) (st : Step) :
    run (steps ++ [st]) = (run steps).step st := by
  rw [run, List.foldl_append]
  rfl

end Eager

end ClusterRegistry
