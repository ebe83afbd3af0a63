import Mathlib.Data.List.Nodup
import ClusterRegistry.Tree

/-!
# Children that are kept

A tree names the parent of each item. While it is built, each item keeps the ids of its children
too, and a child is looked for among these. Both ways to the children are the same, and parents are
older than their children.

* `Arena`, `Arena.insertBelow`, `Arena.ofPairs`: building with lists of children;
* `Tree.parents`, `Tree.children_eq`: what the children depend on;
* `Arena.Keeps`, `Arena.Keeps.push`, `Arena.Keeps.adjust`: each step keeps the lists right;
* **`Arena.Keeps.insertBelow`**, **`Arena.keeps_ofPairs`**: and so does the whole building.
-/

namespace ClusterRegistry

/-- A tree, and the ids of the children of each item in the order in which they came. -/
structure Arena where
  tree : Tree
  lists : List (List Nat)

namespace Arena

/-- The children of an item. -/
def listed (a : Arena) (id : Nat) : List Nat := a.lists[id]?.getD []

/-- The first child in the list whose key it is. -/
def child? (a : Arena) (id : Nat) (key : String) : Option Nat :=
  (a.listed id).find? fun c => (a.tree.item? c).any (·.key = key)

/-- The root, without children. -/
def empty : Arena := ⟨.empty, [[]]⟩

/-- Adds an item, which comes last in the list of its parent. -/
def push (a : Arena) (parent : Nat) (fullKey value : String) (dir : Bool) : Arena :=
  ⟨a.tree.push parent fullKey value dir, a.lists.modify parent (· ++ [a.tree.size]) ++ [[]]⟩

/-- Changes the tree and leaves the lists. -/
def adjust (a : Arena) (f : Tree → Tree) : Arena := { a with tree := f a.tree }

/-- Puts a value at the end of the segments below `id`, whose full key is `above`. Each step goes to
a child, which is made if it is missing. -/
def insertBelow (value : String) : Arena → Nat → String → List Segment → Arena
  | a, _, _, [] => a
  | a, id, above, s :: rest =>
    let full := if above = "" then s.text else above ++ "/" ++ s.text
    let step := match a.child? id s.text with
      | some c => (if rest = [] then a else a.adjust (·.promote c), c)
      | none => (a.push id full "" (rest ≠ []), a.tree.size)
    if rest = [] then step.1.adjust (·.assign step.2 value)
    else insertBelow value step.1 step.2 full rest

/-- Builds from paths and values, in the order of the paths. -/
def ofPairs (pairs : List (String × String)) : Arena :=
  (pairs.mergeSort fun a b => a.1 ≤ b.1).foldl
    (fun a p => a.insertBelow p.2 Tree.root "" (Path.segments p.1)) empty

end Arena

/-! ## Parents -/

namespace Tree

variable {t : Tree} {id parent : Nat} {key : String}

/-- The parents of the items. -/
def parents (t : Tree) : List (Option Nat) := t.items.map (·.parent)

theorem children_eq (t : Tree) (id : Nat) :
    t.children id = (t.parents.zipIdx.filter fun q => q.1 = some id).map (·.2) := by
  rw [parents, List.zipIdx_map, List.filter_map, List.map_map]
  rfl

theorem nodup_children (t : Tree) (id : Nat) : (t.children id).Nodup := by
  have hsub : (t.children id).Sublist (t.items.zipIdx.map (·.2)) := List.filter_sublist.map _
  rw [List.zipIdx_map_snd] at hsub
  exact hsub.nodup List.nodup_range'

theorem mem_children_iff {i : Nat} : i ∈ t.children id ↔ t.parents[i]? = some (some id) := by
  rw [children_eq, List.mem_map]
  constructor
  · rintro ⟨⟨p, i⟩, hq, rfl⟩
    obtain ⟨hmem, hp⟩ := List.mem_filter.mp hq
    rw [List.mem_zipIdx_iff_getElem?.mp hmem]
    exact congrArg some (of_decide_eq_true hp)
  · intro h
    exact ⟨⟨some id, i⟩, List.mem_filter.mpr ⟨List.mem_zipIdx_iff_getElem?.mpr h, by simp⟩, rfl⟩

theorem count_children {i : Nat} (h : t.parents[i]? = some (some parent)) (id : Nat) :
    (t.children id).count i = if id = parent then 1 else 0 := by
  split_ifs with hid
  · subst hid
    exact List.count_eq_one_of_mem (t.nodup_children id) (mem_children_iff.mpr h)
  · refine List.count_eq_zero.mpr fun hmem => hid ?_
    rw [mem_children_iff, h] at hmem
    exact (Option.some.inj (Option.some.inj hmem)).symm

theorem parents_push (t : Tree) (parent : Nat) (fullKey value : String) (dir : Bool) :
    (t.push parent fullKey value dir).parents = t.parents ++ [some parent] := by
  rw [parents, push, List.map_append]
  rfl

theorem children_push (t : Tree) (parent : Nat) (fullKey value : String) (dir : Bool) (id : Nat) :
    (t.push parent fullKey value dir).children id =
      t.children id ++ if parent = id then [t.size] else [] := by
  have hsize : t.parents.length = t.size := List.length_map _
  rw [children_eq, children_eq, parents_push, List.zipIdx_append, List.filter_append,
    List.map_append, hsize, Nat.zero_add]
  by_cases h : parent = id
  · simp [h]
  · simp [h]

theorem children_congr {t' : Tree} (h : t'.parents = t.parents) : t'.children = t.children := by
  funext id
  rw [children_eq, children_eq, h]

theorem size_congr {t' : Tree} (h : t'.parents = t.parents) : t'.size = t.size := by
  have hlength := congrArg List.length h
  rwa [parents, parents, List.length_map, List.length_map] at hlength

theorem parents_modify {f : Item → Item} (hf : ∀ i, (f i).parent = i.parent) (t : Tree) (c : Nat) :
    (Tree.mk (t.items.modify c f)).parents = t.parents := by
  refine List.ext_getElem? fun i => ?_
  rw [parents, parents, List.getElem?_map, List.getElem?_map, List.getElem?_modify,
    Option.map_eq_map, Option.map_map]
  refine Option.map_congr fun item _ => ?_
  rw [Function.comp_apply]
  split_ifs
  · exact hf item
  · rfl

theorem parents_promote (t : Tree) (c : Nat) : (t.promote c).parents = t.parents := by
  refine parents_modify (f := fun i => { i with dir := true, value := "" }) (fun i => ?_) t c
  rfl

theorem parents_assign (t : Tree) (c : Nat) (value : String) :
    (t.assign c value).parents = t.parents := by
  refine parents_modify (f := fun i => if i.dir then i else { i with value := value })
    (fun i => ?_) t c
  split_ifs
  · rfl
  · rfl

theorem size_push (t : Tree) (parent : Nat) (fullKey value : String) (dir : Bool) :
    (t.push parent fullKey value dir).size = t.size + 1 := List.length_append

theorem modify_concat {α : Type} (f : α → α) (l : List α) (x : α) :
    (l ++ [x]).modify l.length f = l ++ [f x] := by
  induction l with
  | nil => rfl
  | cons y l ih => exact congrArg (y :: ·) ih

theorem assign_push (t : Tree) (parent : Nat) (fullKey value : String) :
    (t.push parent fullKey "" false).assign t.size value = t.push parent fullKey value false :=
  congrArg Tree.mk (modify_concat _ t.items _)

theorem child?_lt {c : Nat} (h : t.child? id key = some c) : c < t.size := by
  obtain ⟨q, hfind, rfl⟩ := Option.map_eq_some_iff.mp h
  have hmem := List.mem_zipIdx_iff_getElem?.mp (List.mem_of_find?_eq_some hfind)
  exact (List.getElem?_eq_some_iff.mp hmem).1

end Tree

namespace Arena

variable {a : Arena} {id parent : Nat} {key : String}

/-- The lists are those of the children, and every parent is older than its children. There is a
root. -/
structure Keeps (a : Arena) : Prop where
  inhabited : Tree.root < a.tree.size
  lists : a.lists = (List.range a.tree.size).map a.tree.children
  older : ∀ i j : Nat, a.tree.parents[i]? = some (some j) → j < i

theorem keeps_empty : empty.Keeps where
  inhabited := by decide
  lists := rfl
  older i j h := by
    cases i with
    | zero => cases h
    | succ i => cases h

theorem Keeps.children_of_le (h : a.Keeps) (hid : a.tree.size ≤ id) : a.tree.children id = [] := by
  rw [Tree.children_eq, List.map_eq_nil_iff, List.filter_eq_nil_iff]
  rintro ⟨p, i⟩ hq hp
  have hi := List.mem_zipIdx_iff_getElem?.mp hq
  have hlt : i < a.tree.parents.length := (List.getElem?_eq_some_iff.mp hi).1
  rw [of_decide_eq_true hp] at hi
  rw [Tree.parents, List.length_map] at hlt
  exact absurd (Nat.lt_trans (h.older i id hi) hlt) (Nat.not_lt_of_le hid)

theorem Keeps.listed_eq (h : a.Keeps) (id : Nat) : a.listed id = a.tree.children id := by
  rw [listed, h.lists, List.getElem?_map]
  by_cases hid : id < a.tree.size
  · rw [List.getElem?_range hid]
    rfl
  · rw [List.getElem?_eq_none (by simpa using hid), h.children_of_le (Nat.le_of_not_lt hid)]
    rfl

/-- **The first child in the list is the oldest one in the tree.** -/
theorem Keeps.child?_eq (h : a.Keeps) (id : Nat) (key : String) :
    a.child? id key = a.tree.child? id key := by
  rw [child?, h.listed_eq, Tree.children, List.find?_map, List.find?_filter, Tree.child?,
    ← List.head?_filter, ← List.head?_filter]
  refine congrArg (fun l => (List.head? l).map Prod.snd) (List.filter_congr fun q hq => ?_)
  obtain ⟨item, i⟩ := q
  have hitem : a.tree.item? i = some item := List.mem_zipIdx_iff_getElem?.mp hq
  simp [hitem]

theorem Keeps.push (h : a.Keeps) (hparent : parent < a.tree.size) (fullKey value : String)
    (dir : Bool) : (a.push parent fullKey value dir).Keeps where
  inhabited := by
    rw [Arena.push, Tree.size_push]
    exact Nat.lt_succ_of_lt h.inhabited
  lists := by
    have hlast : (a.tree.push parent fullKey value dir).children a.tree.size = [] := by
      rw [Tree.children_push, h.children_of_le (Nat.le_refl _), if_neg (Nat.ne_of_lt hparent)]
      rfl
    rw [Arena.push, Tree.size_push, List.range_succ, List.map_append, List.map_singleton, hlast,
      h.lists]
    refine congrArg (· ++ [[]]) (List.ext_getElem? fun i => ?_)
    rw [List.getElem?_modify, List.getElem?_map, List.getElem?_map, Option.map_eq_map,
      Option.map_map]
    by_cases hi : i < a.tree.size
    · rw [List.getElem?_range hi, Option.map_some, Option.map_some, Tree.children_push,
        Function.comp_apply]
      split_ifs
      · rfl
      · rw [List.append_nil]
    · rw [List.getElem?_eq_none (by simpa using hi)]
      rfl
  older i j hij := by
    have hsize : a.tree.parents.length = a.tree.size := List.length_map _
    rw [Arena.push, Tree.parents_push, List.getElem?_append] at hij
    split_ifs at hij with hi
    · exact h.older i j hij
    · rw [List.getElem?_singleton] at hij
      split_ifs at hij
      obtain rfl : parent = j := Option.some.inj (Option.some.inj hij)
      exact Nat.lt_of_lt_of_le hparent (hsize ▸ Nat.le_of_not_lt hi)

theorem Keeps.adjust (h : a.Keeps) {f : Tree → Tree} (hf : (f a.tree).parents = a.tree.parents) :
    (a.adjust f).Keeps where
  inhabited := (Tree.size_congr hf).symm ▸ h.inhabited
  lists := by
    rw [Arena.adjust, h.lists, Tree.children_congr hf, Tree.size_congr hf]
  older := by
    rw [Arena.adjust, hf]
    exact h.older

/-- **One pair more**: the tree is built as if there were no lists, and the lists stay right. -/
theorem Keeps.insertBelow (h : a.Keeps) (hid : id < a.tree.size) (value above : String)
    (segs : List Segment) : (a.insertBelow value id above segs).Keeps ∧
      (a.insertBelow value id above segs).tree = a.tree.insertBelow value id above segs := by
  induction segs generalizing a id above with
  | nil => exact ⟨h, rfl⟩
  | cons s rest ih =>
    rw [Arena.insertBelow, Tree.insertBelow, h.child?_eq]
    cases hchild : a.tree.child? id s.text with
    | some c =>
      dsimp only
      by_cases hrest : rest = []
      · rw [if_pos hrest, if_pos hrest, if_pos hrest]
        exact ⟨h.adjust (Tree.parents_assign _ c value), rfl⟩
      · rw [if_neg hrest, if_neg hrest, if_neg hrest]
        have hpromote := Tree.parents_promote a.tree c
        refine ih (h.adjust hpromote) ?_ _
        rw [Arena.adjust, Tree.size_congr hpromote]
        exact Tree.child?_lt hchild
    | none =>
      dsimp only
      by_cases hrest : rest = []
      · have hleaf : decide (rest ≠ []) = false := decide_eq_false (not_not.mpr hrest)
        rw [if_pos hrest, if_pos hrest, hleaf]
        exact ⟨(h.push hid _ "" false).adjust (Tree.parents_assign _ _ value),
          Tree.assign_push a.tree id _ value⟩
      · rw [if_neg hrest, if_neg hrest, decide_eq_true hrest]
        refine ih (h.push hid _ "" true) ?_ _
        rw [Arena.push, Tree.size_push]
        exact Nat.lt_succ_self _

theorem Keeps.foldl (h : a.Keeps) (pairs : List (String × String)) :
    (pairs.foldl (fun a p => a.insertBelow p.2 Tree.root "" (Path.segments p.1)) a).Keeps ∧
      (pairs.foldl (fun a p => a.insertBelow p.2 Tree.root "" (Path.segments p.1)) a).tree =
        pairs.foldl (fun t p => t.insertBelow p.2 Tree.root "" (Path.segments p.1)) a.tree := by
  induction pairs generalizing a with
  | nil => exact ⟨h, rfl⟩
  | cons p pairs ih =>
    obtain ⟨hkeeps, htree⟩ := h.insertBelow h.inhabited p.2 "" (Path.segments p.1)
    rw [List.foldl_cons, List.foldl_cons, ← htree]
    exact ih hkeeps

/-- **While a tree is built from pairs, the lists of children are right.** -/
theorem keeps_ofPairs (pairs : List (String × String)) :
    (ofPairs pairs).Keeps ∧ (ofPairs pairs).tree = Tree.ofPairs pairs :=
  keeps_empty.foldl _

end Arena

end ClusterRegistry
