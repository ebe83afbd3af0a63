import ClusterRegistry.Tree
import ClusterRegistry.Proofs.Relative
import ClusterRegistry.Proofs.Store.Walk

/-!
# Trees and the store

The tree of a recursive read has one item for each entry and one for the root. Following a path in
it leads where the path leads in the store.

* `Tree.Draws`: a tree whose items stand for keys of the store, each below its parent;
* `Tree.Draws.push`, `Tree.Draws.addEach`, **`Tree.draws_addNodes`**: building such a tree;
* **`Tree.draws_ofNode`**: the tree of a recursive read from the root;
* `Tree.Draws.child?_eq_some_iff`, **`Tree.Draws.follow?_eq_some_iff`**: walking in it.
-/

namespace ClusterRegistry

namespace Tree

variable {t : Tree} {m : Contents} {keys : List Key} {key k : Key} {e : Entry} {i j parent : Nat}

/-- The item of an entry. A directory has no value. -/
def itemOf (k : Key) (e : Entry) (parent : Nat) : Item :=
  ⟨Path.spell k.segments, if e.dir then "" else e.value, e.dir, some parent⟩

theorem key_itemOf (segs : List Segment) (s : Segment) (e : Entry) (j : Nat) :
    (itemOf ⟨segs ++ [s]⟩ e j).key = s.text :=
  Path.lastSegment_spell segs s

/-- The items of the tree stand for the given keys, in order: first the root, then entries, each
with the key above it as its parent. -/
structure Draws (t : Tree) (m : Contents) (keys : List Key) : Prop where
  length : t.items.length = keys.length
  nodup : keys.Nodup
  first : keys[0]? = some .root
  root : t.items[0]? = some ⟨"", "", true, none⟩
  item : ∀ (i : Nat) (k : Key), keys[i]? = some k → k ≠ .root → ∃ (e : Entry) (j : Nat),
    m[k]? = some e ∧ keys[j]? = some ⟨k.segments.dropLast⟩ ∧ t.items[i]? = some (itemOf k e j)

/-! ## Building -/

theorem Draws.empty (m : Contents) : Tree.empty.Draws m [.root] where
  length := rfl
  nodup := List.nodup_singleton _
  first := rfl
  root := rfl
  item i k hk hroot := by
    cases i with
    | zero => exact absurd (Option.some.inj hk).symm hroot
    | succ i => cases hk

theorem Draws.push (h : t.Draws m keys) (hparent : keys[parent]? = some key)
    (he : m[k]? = some e) (hchild : k.IsChildOf key) (nodup : (keys ++ [k]).Nodup) :
    (t.push parent (Path.spell k.segments) (if e.dir then "" else e.value) e.dir).Draws m
      (keys ++ [k]) := by
  have hitems : (t.push parent (Path.spell k.segments) (if e.dir then "" else e.value)
      e.dir).items = t.items ++ [itemOf k e parent] := rfl
  have hkeep : ∀ {α : Type} {l : List α} {i : Nat} {a b : α}, l[i]? = some a →
      (l ++ [b])[i]? = some a := fun ha => by
    rw [List.getElem?_append_left (List.getElem?_eq_some_iff.mp ha).1, ha]
  -- what was there keeps its place, the new item comes last
  refine ⟨?_, nodup, hkeep h.first, hitems ▸ hkeep h.root, fun i l hl hroot => ?_⟩
  · rw [hitems, List.length_append, List.length_append, h.length]
    rfl
  · rw [hitems]
    by_cases hi : i < keys.length
    · rw [List.getElem?_append_left hi] at hl
      obtain ⟨e', j, he', hj, hitem⟩ := h.item i l hl hroot
      exact ⟨e', j, he', hkeep hj, hkeep hitem⟩
    · rw [List.getElem?_append_right (Nat.le_of_not_lt hi), List.getElem?_singleton] at hl
      split_ifs at hl with hlast
      obtain rfl := Option.some.inj hl
      have hi' : i = t.items.length := by
        rw [h.length]
        omega
      have hkey : (⟨k.segments.dropLast⟩ : Key) = key := Key.ext_segments hchild.2
      exact ⟨e, parent, he, hkeep (hkey ▸ hparent), by rw [hi', List.getElem?_concat_length]⟩

theorem addNode_snapshot (t : Tree) (parent now : Nat) (k : Key) (e : Entry) (nodes : List Node) :
    addNode "" t parent ((e.snapshot now).node k nodes) =
      addNodes "" (t.push parent (Path.spell k.segments) (if e.dir then "" else e.value) e.dir)
        t.size nodes := by
  have hkey : Path.relativeTo "" k.text = Path.spell k.segments :=
    Path.relativeTo_of_slashes (by decide) k.segments
  have hvalue : (e.snapshot now).value.getD "" = if e.dir then "" else e.value := by
    cases hdir : e.dir <;> simp [Entry.snapshot, hdir]
  rw [Snapshot.node, addNode, hkey, hvalue]
  rfl

theorem Draws.addEach (now : Nat) (nodes : Key × Entry → List Node)
    (below : Key × Entry → List (Key × Entry)) {entries : List (Key × Entry)}
    (inner : ∀ p ∈ entries, ∀ {t : Tree} {keys : List Key} {parent : Nat}, t.Draws m keys →
      keys[parent]? = some p.1 → (keys ++ (below p).map (·.1)).Nodup →
      (addNodes "" t parent (nodes p)).Draws m (keys ++ (below p).map (·.1)))
    (children : ∀ p ∈ entries, m[p.1]? = some p.2 ∧ p.1.IsChildOf key) (h : t.Draws m keys)
    (hparent : keys[parent]? = some key)
    (nodup : (keys ++ (entries.flatMap fun p => p :: below p).map (·.1)).Nodup) :
    (addNodes "" t parent (entries.map fun p => (p.2.snapshot now).node p.1 (nodes p))).Draws m
      (keys ++ (entries.flatMap fun p => p :: below p).map (·.1)) := by
  induction entries generalizing t keys with
  | nil =>
    rw [List.map_nil, addNodes, List.flatMap_nil, List.map_nil, List.append_nil]
    exact h
  | cons p rest ih =>
    have hkeys : keys ++ ((p :: rest).flatMap fun p => p :: below p).map (·.1) =
        keys ++ [p.1] ++ (below p).map (·.1) ++ (rest.flatMap fun p => p :: below p).map (·.1) := by
      simp
    rw [hkeys] at nodup ⊢
    rw [List.map_cons, addNodes, addNode_snapshot]
    have hbelow := (List.nodup_append.mp nodup).1
    obtain ⟨he, hchild⟩ := children p List.mem_cons_self
    have hpushed := h.push hparent he hchild (List.nodup_append.mp hbelow).1
    have hid : (keys ++ [p.1])[t.size]? = some p.1 := by
      rw [size, h.length, List.getElem?_concat_length]
    -- the new item is the parent of what is opened below it, the old parent of all that follow
    have hopened := inner p List.mem_cons_self hpushed hid hbelow
    refine ih (fun q hq => inner q (List.mem_cons_of_mem _ hq))
      (fun q hq => children q (List.mem_cons_of_mem _ hq)) hopened ?_ nodup
    rw [List.append_assoc, List.getElem?_append_left (List.getElem?_eq_some_iff.mp hparent).1,
      hparent]

/-- **The nodes below a key become items for the entries that a walk meets.** -/
theorem draws_addNodes (now depth : Nat) (h : t.Draws m keys) (hparent : keys[parent]? = some key)
    (nodup : (keys ++ (m.walk depth key).map (·.1)).Nodup) :
    (addNodes "" t parent (m.childNodes now depth key)).Draws m
      (keys ++ (m.walk depth key).map (·.1)) := by
  have hchildren : ∀ (key : Key), ∀ p ∈ m.children key, m[p.1]? = some p.2 ∧ p.1.IsChildOf key :=
    fun key p hp => Contents.mem_children.mp hp
  induction depth generalizing t keys key parent with
  | zero =>
    have hlist := List.flatMap_singleton' (m.children key)
    rw [Contents.walk, ← hlist] at nodup ⊢
    refine Draws.addEach now (fun _ => []) (fun _ => []) (fun p hp t keys parent h _ _ => ?_)
      (hchildren key) h hparent nodup
    rw [addNodes, List.map_nil, List.append_nil]
    exact h
  | succ depth ih =>
    refine Draws.addEach now (fun p => if p.2.dir then m.childNodes now depth p.1 else [])
      (fun p => if p.2.dir then m.walk depth p.1 else []) (fun p hp t keys parent h hp' nodup => ?_)
      (hchildren key) h hparent nodup
    split_ifs at nodup ⊢
    · exact ih h hp' nodup
    · rw [addNodes, List.map_nil, List.append_nil]
      exact h

/-- **The tree of a recursive read from the root has an item for each entry it meets.** -/
theorem draws_ofNode (now depth : Nat) {root : Node} (hkey : root.key = "")
    (hnodes : root.nodes = m.childNodes now depth .root) :
    (ofNode root).Draws m (.root :: (m.walk depth .root).map (·.1)) := by
  rw [ofNode, hkey, hnodes]
  refine draws_addNodes now depth (Draws.empty m) rfl ?_
  rw [List.singleton_append, List.nodup_cons]
  refine ⟨fun hmem => ?_, m.nodup_walk depth .root⟩
  obtain ⟨⟨k, e⟩, hwalk, rfl⟩ := List.mem_map.mp hmem
  exact (Contents.isBelow_of_mem_walk hwalk).2.2 rfl

/-! ## Walking -/

theorem child?_eq (t : Tree) (id : Nat) (key : String) : t.child? id key =
    (t.items.zipIdx.find? fun q => q.1.parent = some id ∧ q.1.key = key).map (·.2) := rfl

theorem follow?_append (t : Tree) (id : Nat) (path more : List String) :
    t.follow? id (path ++ more) = (t.follow? id path).bind fun c => t.follow? c more := by
  induction path generalizing id with
  | nil => rfl
  | cons key path ih =>
    rw [List.cons_append, follow?, follow?, Option.bind_assoc]
    exact Option.bind_congr fun c _ => ih c

section Walk

variable (h : t.Draws m keys) {id : Nat} {s : Segment} {segs : List Segment}

include h

theorem Draws.eq_of_getElem? (hi : keys[i]? = some k) (hj : keys[j]? = some k) : i = j :=
  (List.getElem?_inj (List.getElem?_eq_some_iff.mp hi).1 h.nodup).mp (hi.trans hj.symm)

theorem Draws.getElem?_items {a : Item} (ha : t.items[i]? = some a) :
    i = 0 ∧ a = ⟨"", "", true, none⟩ ∨ ∃ (k : Key) (e : Entry) (j : Nat), keys[i]? = some k ∧
      k ≠ .root ∧ m[k]? = some e ∧ keys[j]? = some ⟨k.segments.dropLast⟩ ∧ a = itemOf k e j := by
  have hi : i < keys.length := h.length ▸ (List.getElem?_eq_some_iff.mp ha).1
  have hk := List.getElem?_eq_getElem hi
  by_cases hroot : keys[i] = .root
  · obtain rfl := h.eq_of_getElem? (hroot ▸ hk) h.first
    exact .inl ⟨rfl, Option.some.inj (ha.symm.trans h.root)⟩
  · obtain ⟨e, j, he, hj, hitem⟩ := h.item i _ hk hroot
    exact .inr ⟨_, e, j, hk, hroot, he, hj, Option.some.inj (ha.symm.trans hitem)⟩

theorem Draws.isChild_iff (hid : keys[id]? = some k) {a : Item} (ha : t.items[i]? = some a) :
    a.parent = some id ∧ a.key = s.text ↔ keys[i]? = some ⟨k.segments ++ [s]⟩ := by
  rcases h.getElem?_items ha with ⟨rfl, rfl⟩ | ⟨l, e, j, hl, hroot, he, hj, rfl⟩
  · refine iff_of_false (fun hp => Option.some_ne_none _ hp.1.symm) fun hkey => ?_
    have heq := congrArg Key.segments (Option.some.inj (h.first.symm.trans hkey))
    exact List.append_ne_nil_of_right_ne_nil _ (List.cons_ne_nil _ _) heq.symm
  · obtain ⟨above, x, hsegs⟩ := (List.eq_nil_or_concat l.segments).resolve_left
      fun hnil => hroot (Key.ext_segments hnil)
    rw [List.concat_eq_append] at hsegs
    obtain rfl : l = ⟨above ++ [x]⟩ := Key.ext_segments hsegs
    rw [List.dropLast_concat] at hj
    rw [key_itemOf, hl]
    constructor
    · rintro ⟨hparent, hkey⟩
      obtain rfl : j = id := Option.some.inj hparent
      obtain rfl : k = ⟨above⟩ := Option.some.inj (hid.symm.trans hj)
      rw [Segment.ext_text hkey]
    · intro heq
      obtain ⟨rfl, hx⟩ := List.append_inj' (congrArg Key.segments (Option.some.inj heq)) rfl
      obtain rfl := List.singleton_inj.mp hx
      exact ⟨congrArg some (h.eq_of_getElem? hj hid), rfl⟩

/-- **The child of an item stands for the key with one more segment.** -/
theorem Draws.child?_eq_some_iff (hid : keys[id]? = some k) :
    t.child? id s.text = some j ↔ keys[j]? = some ⟨k.segments ++ [s]⟩ := by
  rw [child?_eq, Option.map_eq_some_iff]
  have hsound : ∀ q, (t.items.zipIdx.find? fun q => q.1.parent = some id ∧ q.1.key = s.text) =
      some q → keys[q.2]? = some ⟨k.segments ++ [s]⟩ := by
    intro q hfind
    have hitem := List.mem_zipIdx_iff_getElem?.mp (List.mem_of_find?_eq_some hfind)
    have hchild := List.find?_some hfind
    exact (h.isChild_iff hid hitem).mp (of_decide_eq_true hchild)
  constructor
  · rintro ⟨q, hfind, rfl⟩
    exact hsound q hfind
  · intro hkey
    have hj : j < t.items.length := h.length ▸ (List.getElem?_eq_some_iff.mp hkey).1
    have hitem := List.getElem?_eq_getElem hj
    have hchild := (h.isChild_iff hid hitem).mpr hkey
    -- no other item stands for the same key, so the oldest one is the one in question
    have hmem : (t.items[j], j) ∈ t.items.zipIdx := List.mem_zipIdx_iff_getElem?.mpr hitem
    have hfound : (t.items.zipIdx.find? fun q => q.1.parent = some id ∧ q.1.key = s.text).isSome :=
      List.find?_isSome.mpr ⟨_, hmem, decide_eq_true hchild⟩
    obtain ⟨q, hfind⟩ := Option.isSome_iff_exists.mp hfound
    exact ⟨q, hfind, h.eq_of_getElem? (hsound q hfind) hkey⟩

/-- **Following a path leads to the item of its key.** -/
theorem Draws.follow?_eq_some_iff :
    t.follow? Tree.root (segs.map (·.text)) = some j ↔ keys[j]? = some ⟨segs⟩ := by
  induction segs using List.reverseRecOn generalizing j with
  | nil =>
    rw [List.map_nil, follow?]
    refine ⟨?_, fun hj => congrArg some (h.eq_of_getElem? h.first hj)⟩
    rintro ⟨⟩
    exact h.first
  | append_singleton above s ih =>
    rw [List.map_append, List.map_singleton, follow?_append, Option.bind_eq_some_iff]
    simp only [follow?, Option.bind_fun_some]
    constructor
    · rintro ⟨id, hid, hchild⟩
      exact (h.child?_eq_some_iff (ih.mp hid)).mp hchild
    · intro hj
      obtain ⟨e, id, -, hid, -⟩ := h.item j _ hj
        fun hroot => List.append_ne_nil_of_right_ne_nil _ (List.cons_ne_nil _ _)
          (congrArg Key.segments hroot)
      rw [List.dropLast_concat] at hid
      exact ⟨id, ih.mpr hid, (h.child?_eq_some_iff hid).mpr hj⟩

end Walk

end Tree

end ClusterRegistry
