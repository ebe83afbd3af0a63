import ClusterRegistry.Proofs.Text.Octets
import ClusterRegistry.Proofs.Tree.Arena
import ClusterRegistry.Proofs.Tree.Planting

/-!
# The places of a tree

A tree of pairs has one item for each place on the way to a path. What an item holds does not depend
on the order of the pairs, but for pairs with one path.

* `Tree.IsLast`, **`Tree.isLast_of_find?`**: the pair that counts among those with the same
  segments;
* `Tree.IsPlace`, **`Tree.ofPairs_places`**: what stands where in the tree of any pairs.
-/

namespace ClusterRegistry

namespace Tree

variable {pairs : List (String × String)} {segs : List Segment} {p : String × String}

/-! ## The pair that counts -/

/-- Among the pairs whose paths have the given segments, the pair at this place comes last when they
are put in the order of the bytes of the paths; pairs with the same path stay in their order. -/
structure IsLast (pairs : List (String × String)) (segs : List Segment) (i : Nat)
    (p : String × String) : Prop where
  pair : pairs[i]? = some p
  segments : Path.segments p.1 = segs
  last : ∀ j q, pairs[j]? = some q → Path.segments q.1 = segs →
    Text.octets q.1.toList < Text.octets p.1.toList ∨ q.1 = p.1 ∧ j ≤ i

theorem rel_of_find?_reverse {α : Type} {R : α → α → Prop} (hrefl : ∀ a, R a a) {l : List α}
    (hl : l.Pairwise R) {f : α → Bool} {a b : α} (h : l.reverse.find? f = some a) (hb : b ∈ l)
    (hf : f b = true) : R b a := by
  obtain ⟨-, later, earlier, hsplit, hlater⟩ := List.find?_eq_some_iff_append.mp h
  have hreverse := List.pairwise_reverse.mpr hl
  rw [hsplit, List.pairwise_append, List.pairwise_cons] at hreverse
  have hmem : b ∈ later ++ a :: earlier := hsplit ▸ List.mem_reverse.mpr hb
  rcases List.mem_append.mp hmem with hmem | hmem
  · have hnot := hlater b hmem
    rw [hf] at hnot
    exact absurd hnot Bool.false_ne_true
  · rcases List.mem_cons.mp hmem with rfl | hmem
    · exact hrefl b
    · exact hreverse.2.1.1 b hmem

/-- The order of pairs by their paths. -/
def pathLE (p q : String × String) : Bool := p.1 ≤ q.1

/-- **The last pair in the order of the paths**, in terms of the pairs as they were given. -/
theorem isLast_of_find? (h : (pairs.mergeSort pathLE).reverse.find?
    (fun p => Path.segments p.1 = segs) = some p) : ∃ i, IsLast pairs segs i p := by
  have htrans : ∀ p q r, pathLE p q = true → pathLE q r = true → pathLE p r = true :=
    fun p q r hpq hqr => decide_eq_true (le_trans (of_decide_eq_true hpq) (of_decide_eq_true hqr))
  have htotal : ∀ p q, (pathLE p q || pathLE q p) = true := fun p q => by
    simpa [pathLE] using le_total p.1 q.1
  have hsorted := List.pairwise_mergeSort (List.zipIdxLE_trans htrans)
    (List.zipIdxLE_total htotal) pairs.zipIdx
  have hmem : ∀ q : (String × String) × Nat,
      q ∈ pairs.zipIdx.mergeSort (List.zipIdxLE pathLE) ↔ pairs[q.2]? = some q.1 := fun q =>
    List.mem_mergeSort.trans List.mem_zipIdx_iff_getElem?
  rw [← List.mergeSort_zipIdx, ← List.map_reverse, List.find?_map, Option.map_eq_some_iff] at h
  obtain ⟨⟨p, i⟩, hfind, rfl⟩ := h
  have hsegments := List.find?_some hfind
  refine ⟨i, ?_, of_decide_eq_true hsegments, fun j q hj hq => ?_⟩
  · exact (hmem (p, i)).mp (List.mem_reverse.mp (List.mem_of_find?_eq_some hfind))
  · have hle : List.zipIdxLE pathLE (q, j) (p, i) = true :=
      rel_of_find?_reverse (fun a => by simp [List.zipIdxLE, pathLE]) hsorted hfind
        ((hmem (q, j)).mpr hj) (decide_eq_true hq)
    simp only [List.zipIdxLE, pathLE, decide_eq_true_eq] at hle
    split_ifs at hle with hqp hpq
    · exact .inr ⟨le_antisymm hqp hpq, of_decide_eq_true hle⟩
    · exact .inl (Text.octets_lt_iff.mpr (String.lt_iff_toList_lt.mp (lt_of_not_ge hpq)))

/-! ## Places -/

/-- The item that stands for the place that some segments lead to. It is a directory just if a path
leads on; otherwise it has the value of the last pair that leads there. It is listed by the item
above it, which is older, and by no other one. -/
structure IsPlace (t : Tree) (pairs : List (String × String)) (segs : List Segment) (id : Nat)
    (a : Item) : Prop where
  item : t.item? id = some a
  fullKey : a.fullKey = Path.spell segs
  dir : a.dir = true ↔ ∃ p ∈ pairs, segs <+: Path.segments p.1 ∧ segs ≠ Path.segments p.1
  empty : a.dir = true → a.value = ""
  value : a.dir = false → ∃ i p, IsLast pairs segs i p ∧ a.value = p.2
  parent : ∃ parent < id, a.parent = some parent ∧
    t.follow? root (segs.dropLast.map (·.text)) = some parent ∧
    ∀ other, (t.children other).count id = if other = parent then 1 else 0

theorem ofPairs_eq (pairs : List (String × String)) : ofPairs pairs =
    (pairs.mergeSort pathLE).foldl (fun t p => t.insertBelow p.2 root "" (Path.segments p.1))
      empty := rfl

theorem place_of_draws {keys : List Key} {id : Nat}
    (h : (ofPairs pairs).Draws (.planted (pairs.mergeSort pathLE)) keys)
    (older : ∀ i j : Nat, (ofPairs pairs).parents[i]? = some (some j) → j < i) (hsegs : segs ≠ [])
    (hid : (ofPairs pairs).follow? root (segs.map (·.text)) = some id) :
    ∃ a, (ofPairs pairs).IsPlace pairs segs id a := by
  have hroot : (⟨segs⟩ : Key) ≠ .root := fun heq => hsegs (congrArg Key.segments heq)
  obtain ⟨e, j, he, hj, hitem⟩ := h.item id _ (h.follow?_eq_some_iff.mp hid) hroot
  obtain ⟨hdir, hvalue⟩ := Contents.planted_entry hroot he
  have hparents : (ofPairs pairs).parents[id]? = some (some j) := by
    rw [parents, List.getElem?_map, hitem]
    rfl
  refine ⟨itemOf ⟨segs⟩ e j, hitem, rfl, hdir.trans ?_, fun hd => if_pos hd, fun hd => ?_, j,
    older id j hparents, rfl, h.follow?_eq_some_iff.mpr hj, count_children hparents⟩
  · simp only [List.mem_mergeSort, Key.IsBelow, Key.ofPath, ne_eq, Key.mk.injEq, eq_comm]
  · obtain ⟨p, -, -, hp, hfind⟩ := hvalue hd
    simp only [Key.ofPath, Key.mk.injEq] at hfind
    obtain ⟨i, hi⟩ := isLast_of_find? hfind
    exact ⟨i, p, hi, (if_neg (Bool.not_eq_true _ ▸ hd)).trans hp⟩

/-- **The tree of any pairs.** The lists of children that are kept while it is built show the same
children. There is one item for each place on the way to a path, and it is reached along the
segments. -/
theorem ofPairs_places (pairs : List (String × String)) :
    ((Arena.ofPairs pairs).tree = ofPairs pairs ∧
      ∀ id, (Arena.ofPairs pairs).listed id = (ofPairs pairs).children id ∧
        ∀ key, (Arena.ofPairs pairs).child? id key = (ofPairs pairs).child? id key) ∧
    (∀ segs : List Segment, ((ofPairs pairs).follow? root (segs.map (·.text))).isSome ↔
      segs = [] ∨ ∃ p ∈ pairs, segs <+: Path.segments p.1) ∧
    (∀ id < (ofPairs pairs).size,
      ∃! segs : List Segment, (ofPairs pairs).follow? root (segs.map (·.text)) = some id) ∧
    ∀ segs : List Segment, segs ≠ [] → ∀ id,
      (ofPairs pairs).follow? root (segs.map (·.text)) = some id →
      ∃ a, (ofPairs pairs).IsPlace pairs segs id a := by
  obtain ⟨hkeeps, htree⟩ := Arena.keeps_ofPairs pairs
  have hdraws := draws_planted (pairs.mergeSort pathLE)
  rw [← ofPairs_eq] at hdraws
  refine ⟨⟨htree, fun id => htree ▸ ⟨hkeeps.listed_eq id, hkeeps.child?_eq id⟩⟩, fun segs => ?_,
    fun id hid => ?_,
    fun segs hsegs id hid => place_of_draws hdraws (htree ▸ hkeeps.older) hsegs hid⟩
  · have hkeys : ((ofPairs pairs).follow? root (segs.map (·.text))).isSome ↔
        (⟨segs⟩ : Key) ∈ Key.onWays (pairs.mergeSort pathLE) := by
      rw [Option.isSome_iff_exists, List.mem_iff_getElem?]
      exact exists_congr fun j => hdraws.follow?_eq_some_iff
    rw [hkeys, Key.mem_onWays]
    simp only [List.mem_mergeSort]
    by_cases hnil : segs = []
    · exact iff_of_true (.inl (by rw [hnil]; rfl)) (.inl hnil)
    · have hroot : (⟨segs⟩ : Key) ≠ .root := fun heq => hnil (congrArg Key.segments heq)
      rw [or_iff_right hroot, or_iff_right hnil, and_iff_right hroot]
      rfl
  · rw [size, hdraws.length] at hid
    have hkey := List.getElem?_eq_getElem hid
    refine ⟨_, hdraws.follow?_eq_some_iff.mpr hkey, fun segs hsegs => ?_⟩
    exact congrArg Key.segments
      (Option.some.inj ((hdraws.follow?_eq_some_iff.mp hsegs).symm.trans hkey))

end Tree

end ClusterRegistry
