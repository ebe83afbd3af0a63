import Mathlib.Data.List.Pairwise
import ClusterRegistry.Proofs.Tree.Pairs

/-!
# Comparing trees

The tree of flat pairs and the tree of a store that holds their values agree in every item. Their
children come in the same order unless a name goes on behind the name of a directory beside it with
a character that comes before the slash.

* `Tree.face`, `Tree.family`: what a tree shows of a key, without ids;
* `Tree.Draws.face_congr`, `Tree.Draws.family_congr_iff`: two trees of the same entries;
* `Flat.Crossed`, `Flat.mark_lt_iff`: where the order of marks is not that of the texts;
* **`Flat.comparison`**: the two trees.
-/

namespace ClusterRegistry

namespace Tree

/-- What a tree shows of a key: full key, value, whether it is a directory, and the full key of its
parent. -/
def face (t : Tree) (k : Key) : Option (String × String × Bool × Option String) :=
  ((t.at? k).bind t.item?).map fun i =>
    (i.fullKey, i.value, i.dir, (i.parent.bind t.item?).map (·.fullKey))

/-- The full keys of the children of a key, in order. -/
def family (t : Tree) (k : Key) : Option (List String) := (t.at? k).map t.childKeys

/-- Every item stands for one key. -/
def IsNamed (t : Tree) : Prop := ∀ id < t.size, ∃! k : Key, t.at? k = some id

section Draws

variable {t u : Tree} {m : Contents} {keys keys' : List Key} {k : Key} {id : Nat}

theorem Draws.at?_eq_some_iff (h : t.Draws m keys) : t.at? k = some id ↔ keys[id]? = some k :=
  h.follow?_eq_some_iff

theorem Draws.isNamed (h : t.Draws m keys) : t.IsNamed := by
  intro id hid
  have hkey := List.getElem?_eq_getElem (hid.trans_eq h.length)
  refine ⟨_, h.at?_eq_some_iff.mpr hkey, fun k hk => ?_⟩
  exact Option.some.inj ((h.at?_eq_some_iff.mp hk).symm.trans hkey)

theorem Draws.at?_eq_none (h : t.Draws m keys) (hk : k ∉ keys) : t.at? k = none := by
  cases hat : t.at? k with
  | none => rfl
  | some id => exact absurd (List.mem_of_getElem? (h.at?_eq_some_iff.mp hat)) hk

theorem Draws.face_root (h : t.Draws m keys) : t.face .root = some ("", "", true, none) := by
  rw [face, h.at?_eq_some_iff.mpr h.first, Option.bind_some, item?, h.root]
  rfl

theorem Draws.face_entry (h : t.Draws m keys) (hk : k ∈ keys) (hroot : k ≠ .root) {e : Entry}
    (he : m[k]? = some e) : t.face k = some (Path.spell k.segments, if e.dir then "" else e.value,
      e.dir, some (Path.spell k.segments.dropLast)) := by
  obtain ⟨id, hid⟩ := List.mem_iff_getElem?.mp hk
  obtain ⟨e', parent, he', hparent, hitem⟩ := h.item id k hid hroot
  obtain rfl := Option.some.inj (he.symm.trans he')
  rw [face, h.at?_eq_some_iff.mpr hid, Option.bind_some, item?, hitem, Option.map_some]
  simp only [itemOf, Option.bind_some, h.fullKey hparent]

/-- **Trees of the same entries show the same at every key.** -/
theorem Draws.face_congr (h : t.Draws m keys) (h' : u.Draws m keys')
    (same : ∀ k, k ∈ keys ↔ k ∈ keys') (k : Key) : t.face k = u.face k := by
  by_cases hk : k ∈ keys
  · by_cases hroot : k = .root
    · rw [hroot, h.face_root, h'.face_root]
    · obtain ⟨id, hid⟩ := List.mem_iff_getElem?.mp hk
      obtain ⟨e, -, he, -⟩ := h.item id k hid hroot
      rw [h.face_entry hk hroot he, h'.face_entry ((same k).mp hk) hroot he]
  · rw [face, face, h.at?_eq_none hk, h'.at?_eq_none (mt (same k).mpr hk)]
    rfl

theorem Draws.family_eq (h : t.Draws m keys) (hk : k ∈ keys) :
    t.family k = some ((keys.filter (·.IsChildOf k)).map fun l => Path.spell l.segments) := by
  obtain ⟨id, hid⟩ := List.mem_iff_getElem?.mp hk
  rw [family, h.at?_eq_some_iff.mpr hid, Option.map_some, h.childKeys_eq hid]

theorem spell_injective {k l : Key} (h : Path.spell k.segments = Path.spell l.segments) :
    k = l := by
  apply Key.text_injective
  rw [Key.text, Key.text, Path.render_eq, Path.render_eq, h]

theorem Draws.family_congr_iff (h : t.Draws m keys) (h' : u.Draws m keys')
    (same : ∀ k, k ∈ keys ↔ k ∈ keys') : (∀ k, t.family k = u.family k) ↔
      ∀ k ∈ keys, keys.filter (·.IsChildOf k) = keys'.filter (·.IsChildOf k) := by
  have hinj : Function.Injective fun l : Key => Path.spell l.segments := fun _ _ => spell_injective
  constructor
  · intro hfamily k hk
    have hboth := hfamily k
    rw [h.family_eq hk, h'.family_eq ((same k).mp hk)] at hboth
    exact List.map_injective_iff.mpr hinj (Option.some.inj hboth)
  · intro hfilter k
    by_cases hk : k ∈ keys
    · rw [h.family_eq hk, h'.family_eq ((same k).mp hk), hfilter k hk]
    · rw [family, family, h.at?_eq_none hk, h'.at?_eq_none (mt (same k).mpr hk)]
      rfl

end Draws

end Tree

/-! ## Two orders -/

namespace Flat

variable {pairs : List (String × String)} {m : Contents} {keys keys' : List Key} {x y : Key}

/-- A directory has a sibling whose name goes on, behind the name of the directory, with a character
that comes before the slash. -/
def Crossed (pairs : List (String × String)) : Prop :=
  ∃ (above : List Segment) (s s' : Segment) (c : Char) (rest : List Char),
    (∃ p ∈ pairs, (Key.ofPath p.1).IsBelow ⟨above ++ [s]⟩) ∧
    (∃ p ∈ pairs, (Key.ofPath p.1).IsWithin ⟨above ++ [s']⟩) ∧
    s'.text.toList = s.text.toList ++ c :: rest ∧ c < '/'

theorem exists_slot (hm : m.Houses pairs) (hx : x ≠ .root) {p : String × String} (hp : p ∈ pairs)
    (hin : (Key.ofPath p.1).IsWithin x) : ∃ slot, m.slots[x]? = some slot ∧
      (slot.dir = true → ∃ p ∈ pairs, (Key.ofPath p.1).IsBelow x) := by
  rcases Key.isWithin_iff.mp hin with rfl | hbelow
  · exact ⟨_, hm.file p hp, fun h => absurd h Bool.false_ne_true⟩
  · exact ⟨_, hm.dir p hp x (Key.mem_ancestors.mpr ⟨hbelow, hx⟩), fun _ => ⟨p, hp, hbelow⟩⟩

/-- **The marks of siblings are in the order of the texts, unless the tree is crossed.** -/
theorem mark_lt_iff (hm : m.Houses pairs) (hkeys : Visits keys pairs) :
    (∀ x ∈ keys, ∀ y ∈ keys, x.IsSibling y → x.text < y.text → m.mark x < m.mark y) ↔
      ¬ Crossed pairs := by
  constructor
  · rintro hmark ⟨above, s, s', c, rest, ⟨p, hp, hbelow⟩, ⟨q, hq, hin⟩, hname, hc⟩
    have hx := Key.isChildOf_concat above s
    have hy := Key.isChildOf_concat above s'
    have hlt : (⟨above ++ [s]⟩ : Key).text < (⟨above ++ [s']⟩ : Key).text := by
      rw [Key.text_lt_iff, hname]
      exact lt_of_le_of_ne (not_lt.mp (List.not_lt_of_prefix (List.prefix_append _ _))) (by simp)
    have hmarks := hmark _ ((hkeys _).mpr (.inr ⟨hx.1, p, hp, hbelow.isWithin⟩)) _
      ((hkeys _).mpr (.inr ⟨hy.1, q, hq, hin⟩)) ⟨_, hx, hy⟩ hlt
    rw [Contents.mark_eq (hm.dir p hp _ (Key.mem_ancestors.mpr ⟨hbelow, hx.1⟩)), if_pos rfl,
      Contents.mark, Key.text_slash_lt_iff hlt] at hmarks
    exact hmarks ⟨c, rest, hname, hc⟩
  · intro hnot x hx y hy hsib hlt
    obtain ⟨l, hxl, hyl⟩ := hsib
    obtain ⟨-, p, hp, hpx⟩ := ((hkeys x).mp hx).resolve_left hxl.1
    obtain ⟨-, q, hq, hqy⟩ := ((hkeys y).mp hy).resolve_left hyl.1
    obtain ⟨slot, hslot, hdir⟩ := exists_slot hm hxl.1 hp hpx
    obtain ⟨above, s, s', rfl, rfl⟩ := Key.IsSibling.exists_segments ⟨l, hxl, hyl⟩
    rw [Contents.mark_eq hslot, Contents.mark]
    cases hd : slot.dir with
    | true =>
      rw [if_pos rfl, Key.text_slash_lt_iff hlt]
      rintro ⟨c, rest, hname, hc⟩
      exact hnot ⟨above, s, s', c, rest, hdir hd, ⟨q, hq, hqy⟩, hname, hc⟩
    | false =>
      rw [if_neg Bool.false_ne_true, String.append_empty]
      rw [String.lt_iff_toList_lt] at hlt ⊢
      refine lt_of_lt_of_le hlt (not_lt.mp (List.not_lt_of_prefix ?_))
      rw [String.toList_append]
      exact List.prefix_append _ _

theorem List.or_of_pairwise {α : Type} {R : α → α → Prop} {l : List α} (h : l.Pairwise R) {a b : α}
    (ha : a ∈ l) (hb : b ∈ l) (hne : a ≠ b) : R a b ∨ R b a := by
  have hsymm : Std.Symm fun a b => R a b ∨ R b a := ⟨fun _ _ => Or.symm⟩
  exact (h.imp Or.inl : l.Pairwise fun a b => R a b ∨ R b a).forall ha hb hne

/-- Two lists of the same keys, one with siblings in the order of their marks and one with siblings
in the order of their texts, have the same siblings in order exactly if the orders agree. -/
theorem filter_eq_iff (hkeys : Visits keys pairs) (hnodup : keys.Nodup) (hnodup' : keys'.Nodup)
    (same : ∀ k, k ∈ keys ↔ k ∈ keys')
    (hmark : keys.Pairwise fun x y => x.IsSibling y → m.mark x < m.mark y)
    (htext : keys'.Pairwise fun x y => x.IsSibling y → x.text < y.text) :
    (∀ k ∈ keys, keys.filter (·.IsChildOf k) = keys'.filter (·.IsChildOf k)) ↔
      ∀ x ∈ keys, ∀ y ∈ keys, x.IsSibling y → x.text < y.text → m.mark x < m.mark y := by
  have hin : ∀ {l : List Key} {k x : Key}, x ∈ l.filter (·.IsChildOf k) → x ∈ l ∧ x.IsChildOf k :=
    fun hx => (List.mem_filter.mp hx).imp_right of_decide_eq_true
  constructor
  · rintro hfilter x hx y hy ⟨l, hxl, hyl⟩ hlt
    have hl : l ∈ keys := by
      by_cases hroot : l = .root
      · exact (hkeys l).mpr (.inl hroot)
      · obtain ⟨-, p, hp, hpx⟩ := ((hkeys x).mp hx).resolve_left hxl.1
        exact (hkeys l).mpr (.inr ⟨hroot, p, hp, hpx.trans hxl.isBelow.isWithin⟩)
    -- the children of the key above are in both orders
    have hboth : (keys.filter (·.IsChildOf l)).Pairwise fun a b =>
        m.mark a < m.mark b ∧ a.text < b.text := by
      have htext' := htext.filter (·.IsChildOf l)
      rw [← hfilter l hl] at htext'
      refine ((hmark.filter _).and htext').imp_of_mem fun ha hb hab => ?_
      have hsib : Key.IsSibling _ _ := ⟨l, (hin ha).2, (hin hb).2⟩
      exact ⟨hab.1 hsib, hab.2 hsib⟩
    have hmem : ∀ {z : Key}, z ∈ keys → z.IsChildOf l → z ∈ keys.filter (·.IsChildOf l) :=
      fun hz hzl => List.mem_filter.mpr ⟨hz, decide_eq_true hzl⟩
    have hne : x ≠ y := fun e => (e ▸ hlt).ne rfl
    rcases List.or_of_pairwise hboth (hmem hx hxl) (hmem hy hyl) hne with h | h
    · exact h.1
    · exact absurd h.2 (lt_asymm hlt)
  · intro hagree k hk
    have htext' : (keys.filter (·.IsChildOf k)).Pairwise fun a b => a.text < b.text := by
      refine ((hmark.filter _).and (hnodup.filter _)).imp_of_mem fun ha hb hab => ?_
      obtain ⟨ha, hak⟩ := hin ha
      obtain ⟨hb, hbk⟩ := hin hb
      rcases lt_trichotomy (Key.text _) (Key.text _) with hlt | heq | hlt
      · exact hlt
      · exact absurd (Key.text_injective heq) hab.2
      · exact absurd (hagree _ hb _ ha ⟨k, hbk, hak⟩ hlt) (lt_asymm (hab.1 ⟨k, hak, hbk⟩))
    have htext'' : (keys'.filter (·.IsChildOf k)).Pairwise fun a b => a.text < b.text :=
      (htext.filter _).imp_of_mem fun ha hb hab => hab ⟨k, (hin ha).2, (hin hb).2⟩
    have hasymm : ∀ a b : Key, a.text < b.text → b.text < a.text → a = b :=
      fun a b hab hba => absurd hba (lt_asymm hab)
    refine List.Perm.eq_of_pairwise (fun a b _ _ => hasymm a b) htext' htext'' ?_
    refine (List.perm_ext_iff_of_nodup (hnodup.filter _) (hnodup'.filter _)).mpr fun a => ?_
    rw [List.mem_filter, List.mem_filter, same]

theorem visits_tour {s : Store} (hs : s.InOrder) (hm : s.contents.Houses pairs) :
    Visits s.tour pairs := by
  intro k
  rw [hs.mem_tour, Contents.Holds]
  refine or_congr_right ⟨fun hne => ?_, ?_⟩
  · exact hm.only k (mt Contents.lookup_slots_eq_none.mp hne)
  · rintro ⟨hroot, p, hp, hin⟩
    obtain ⟨slot, hslot, -⟩ := exists_slot hm hroot hp hin
    refine mt Contents.lookup_slots_eq_none.mpr ?_
    rw [hslot]
    exact Option.some_ne_none slot

theorem pairwise_tour (s : Store) :
    s.tour.Pairwise fun x y => x.IsSibling y → x.text < y.text := by
  rw [Store.tour, List.pairwise_cons, List.pairwise_map]
  refine ⟨?_, s.contents.walk_siblings _ _⟩
  rintro y - ⟨l, hroot, -⟩
  exact absurd rfl hroot.1

/-- **Flat pairs make the tree that a store makes of their values**, whatever the order of the
writes, with the same items at the same keys. All children are in the same order too unless a
directory has a sibling whose name goes on with a character that comes before the slash. -/
theorem comparison {writes : List (String × String)} (flat : Flat pairs)
    (order : writes.Perm pairs) (now : Nat) (sorted : Bool) :
    ∃ response, ((Store.ofPairs writes).serve now
        (.get "/" { recursive := true, sorted := sorted })).2 = .ok response ∧
      let t := Tree.ofPairs pairs
      let u := Tree.ofNode response.node
      (t.IsNamed ∧ u.IsNamed ∧ t.size = u.size ∧ ∀ k, t.face k = u.face k) ∧
        ((∀ k, t.family k = u.family k) ↔ ¬ Crossed pairs) := by
  obtain ⟨hlasting, hwritten⟩ := (flat.perm order).houses
  have hm := hwritten.of_perm order
  have hread := hlasting.inOrder.read_nodes now "/" { recursive := true, sorted := sorted }
  have hroot : Key.ofPath "/" = .root := by decide
  rw [Store.serve_get, hlasting.expire]
  cases hanswer : (Store.ofPairs writes).read now "/" { recursive := true, sorted := sorted } with
  | error refusal =>
    rw [hanswer] at hread
    exact absurd (.inl hroot) hread.1
  | ok response =>
    rw [hanswer] at hread
    obtain ⟨-, hkey, hnodes⟩ := hread
    refine ⟨response, rfl, ?_⟩
    -- both trees draw the same entries
    obtain ⟨keys, hpairs, hkeys, hmark⟩ := flat.draws_ofPairs hm
    have hstore : (Tree.ofNode response.node).Draws (Store.ofPairs writes).contents
        (Store.ofPairs writes).tour := Tree.draws_ofNode now _ (hkey hroot) (hroot ▸ hnodes)
    have hsame : ∀ k, k ∈ keys ↔ k ∈ (Store.ofPairs writes).tour := fun k =>
      (hkeys k).trans (visits_tour hlasting.inOrder hm k).symm
    have hperm := (List.perm_ext_iff_of_nodup hpairs.nodup hstore.nodup).mpr hsame
    refine ⟨⟨hpairs.isNamed, hstore.isNamed, ?_, hpairs.face_congr hstore hsame⟩, ?_⟩
    · exact hpairs.length.trans (hperm.length_eq.trans hstore.length.symm)
    · rw [hpairs.family_congr_iff hstore hsame, filter_eq_iff hkeys hpairs.nodup hstore.nodup hsame
        hmark (pairwise_tour _), mark_lt_iff hm hkeys]

/-- Names of one letter never cross. -/
theorem comparison_letters :
    let pairs := [("/d", "3"), ("/a/c", "2"), ("/a/b", "1")]
    let writes := [("/a/c", "2"), ("/d", "3"), ("/a/b", "1")]
    Flat pairs ∧ writes.Perm pairs ∧ ∃ response,
      ((Store.ofPairs writes).serve 0 (.get "/" { recursive := true, sorted := true })).2 =
        .ok response ∧
      (∀ k, (Tree.ofPairs pairs).face k = (Tree.ofNode response.node).face k) ∧
      ∀ k, (Tree.ofPairs pairs).family k = (Tree.ofNode response.node).family k := by
  intro pairs writes
  have hflat : Flat pairs := by constructor <;> decide +kernel
  have hperm : writes.Perm pairs := by decide +kernel
  have hletters : ∀ p ∈ pairs, ∀ s ∈ Path.segments p.1, s.text.toList.length = 1 := by
    decide +kernel
  have huncrossed : ¬ Crossed pairs := by
    rintro ⟨above, s, s', c, rest, -, ⟨q, hq, hin⟩, hname, -⟩
    have hlast : s' ∈ above ++ [s'] := List.mem_append_right _ (List.mem_singleton_self s')
    have hone := hletters q hq s' (hin.subset hlast)
    have hpos := List.length_pos_iff.mpr s.nonempty
    rw [hname, List.length_append, List.length_cons] at hone
    omega
  obtain ⟨response, hanswer, ⟨-, -, -, hface⟩, hfamily⟩ := comparison hflat hperm 0 true
  exact ⟨hflat, hperm, response, hanswer, hface, hfamily.mpr huncrossed⟩

/-- A hyphen comes before the slash: the pairs put a file before the directory that a read puts
before the file. -/
theorem hyphen_crossed : ¬ ∀ pairs writes : List (String × String), Flat pairs →
    writes.Perm pairs → ∀ response, ((Store.ofPairs writes).serve 0
      (.get "/" { recursive := true, sorted := true })).2 = .ok response →
    ∀ k, (Tree.ofPairs pairs).family k = (Tree.ofNode response.node).family k := by
  intro h
  let pairs := [("/a-b", "2"), ("/a/b", "1")]
  have hflat : Flat pairs := by constructor <;> decide +kernel
  have hpairs : (Tree.ofPairs pairs).family .root = some ["a-b", "a"] := by
    rw [Tree.ofPairs, List.mergeSort_of_pairwise (by decide +kernel)]
    decide +kernel
  have hstore : ((Store.ofPairs pairs).serve 0
      (.get "/" { recursive := true, sorted := true })).2.map
        (fun response => (Tree.ofNode response.node).family .root) = .ok (some ["a", "a-b"]) := by
    decide +kernel
  cases hanswer : ((Store.ofPairs pairs).serve 0
      (.get "/" { recursive := true, sorted := true })).2 with
  | error refusal =>
    rw [hanswer] at hstore
    cases hstore
  | ok response =>
    rw [hanswer] at hstore
    have hread : (Tree.ofNode response.node).family .root = some ["a", "a-b"] :=
      Except.ok.inj hstore
    have hfamily := h pairs pairs hflat (.refl _) response hanswer .root
    rw [hpairs, hread] at hfamily
    exact absurd hfamily (by decide)

end Flat

end ClusterRegistry
