import ClusterRegistry.Proofs.Store.Scan
import ClusterRegistry.Proofs.Tree

/-!
# The order of siblings

The children of an item stand in the order in which they were added. A recursive read adds them in
the order of their texts. Whoever takes paths in order adds a directory with the first path that
leads on below it, as if its text ended with a slash.

* `Key.IsSibling`: keys with the same key above them;
* `List.lt_of_prefixes`, `List.lt_concat_slash`: how the ends of texts bear on their order;
* `Tree.Draws.map_children`: the children of an item, by their keys;
* **`Contents.walk_siblings`**: siblings in a recursive read.
-/

namespace ClusterRegistry

/-! ## Texts in order -/

/-- What begins two lists in order is in order, unless the second beginning begins the first. -/
theorem List.lt_of_prefixes {a a' b b' : List Char} (h : a' < b') (ha : a <+: a') (hb : b <+: b')
    (hab : ¬ b <+: a) : a < b := by
  induction a generalizing a' b b' with
  | nil =>
    cases b with
    | nil => exact absurd List.nil_prefix hab
    | cons d b => exact List.nil_lt_cons d b
  | cons c a ih =>
    cases b with
    | nil => exact absurd List.nil_prefix hab
    | cons d b =>
      obtain ⟨x, rfl⟩ := ha
      obtain ⟨y, rfl⟩ := hb
      rw [List.cons_append, List.cons_append, List.cons_lt_cons_iff] at h
      rw [List.cons_lt_cons_iff]
      refine h.imp_right fun ⟨hcd, hlt⟩ => ⟨hcd, ?_⟩
      refine ih hlt (List.prefix_append a x) (List.prefix_append b y) fun hpre => hab ?_
      rw [hcd, List.prefix_cons_inj]
      exact hpre

theorem List.not_lt_of_prefix {a b : List Char} (h : a <+: b) : ¬ b < a := by
  induction a generalizing b with
  | nil => exact List.not_lt_nil b
  | cons c a ih =>
    obtain ⟨x, rfl⟩ := h
    rw [List.cons_append, List.cons_lt_cons_iff, not_or, not_and]
    exact ⟨lt_irrefl c, fun _ => ih (List.prefix_append a x)⟩

theorem List.append_lt_append_iff {a b c : List Char} : a ++ b < a ++ c ↔ b < c := by
  induction a with
  | nil => rfl
  | cons d a ih =>
    rw [List.cons_append, List.cons_append, List.cons_lt_cons_iff, ih]
    exact ⟨fun h => h.elim (fun hlt => absurd hlt (lt_irrefl d)) (·.2), fun h => .inr ⟨rfl, h⟩⟩

/-- A slash behind the first of two names in order, with anything behind the second, keeps the
order, unless the second name goes on with a character before the slash. -/
theorem List.concat_slash_lt_iff {a b x : List Char} (h : a < b) (hb : '/' ∉ b) :
    a ++ ['/'] < b ++ x ↔ ¬ ∃ c rest, b = a ++ c :: rest ∧ c < '/' := by
  induction a generalizing b with
  | nil =>
    cases b with
    | nil => exact absurd h (List.not_lt_nil _)
    | cons d b =>
      have hne : '/' ≠ d := fun e => hb (e ▸ List.mem_cons_self)
      rw [List.nil_append, List.cons_append, List.cons_lt_cons_iff]
      constructor
      · rintro (hlt | ⟨heq, -⟩) ⟨c, rest, hcons, hc⟩
        · obtain ⟨rfl, -⟩ := List.cons.inj hcons
          exact lt_asymm hlt hc
        · exact hne heq
      · intro hnot
        exact .inl (lt_of_le_of_ne (not_lt.mp fun hd => hnot ⟨d, b, rfl, hd⟩) hne)
  | cons d a ih =>
    cases b with
    | nil => exact absurd h (List.not_lt_nil _)
    | cons e b =>
      rw [List.cons_lt_cons_iff] at h
      rw [List.cons_append, List.cons_append, List.cons_lt_cons_iff]
      rcases h with hlt | ⟨rfl, htail⟩
      · refine iff_of_true (.inl hlt) ?_
        rintro ⟨c, rest, hcons, -⟩
        exact hlt.ne (List.cons.inj hcons).1.symm
      · have hnext := ih htail fun hmem => hb (List.mem_cons_of_mem d hmem)
        constructor
        · rintro (hlt | ⟨-, hlt⟩)
          · exact absurd hlt (lt_irrefl d)
          · rintro ⟨c, rest, hcons, hc⟩
            exact hnext.mp hlt ⟨c, rest, (List.cons.inj hcons).2, hc⟩
        · intro hnot
          refine .inr ⟨rfl, hnext.mpr ?_⟩
          rintro ⟨c, rest, rfl, hc⟩
          exact hnot ⟨c, rest, rfl, hc⟩

/-! ## Siblings -/

namespace Key

variable {k l : Key} {above : List Segment} {s s' : Segment}

/-- Two keys are children of the same key. -/
def IsSibling (k l : Key) : Prop := ∃ above, k.IsChildOf above ∧ l.IsChildOf above

theorem isChildOf_concat (above : List Segment) (s : Segment) :
    IsChildOf ⟨above ++ [s]⟩ ⟨above⟩ :=
  ⟨fun h => List.append_ne_nil_of_right_ne_nil _ (List.cons_ne_nil _ _) (congrArg segments h),
    List.dropLast_concat⟩

theorem IsSibling.exists_segments (h : k.IsSibling l) :
    ∃ above s s', k = ⟨above ++ [s]⟩ ∧ l = ⟨above ++ [s']⟩ := by
  obtain ⟨⟨above⟩, hk, hl⟩ := h
  obtain ⟨s, rfl⟩ := hk.exists_segment
  obtain ⟨s', rfl⟩ := hl.exists_segment
  exact ⟨above, s, s', rfl, rfl⟩

theorem IsBelow.above_isWithin {above : Key} (h : k.IsBelow l) (hk : k.IsChildOf above) :
    above.IsWithin l := by
  have hlt := h.length_lt
  have hlength := hk.length
  exact List.prefix_of_prefix_length_le h.isWithin hk.isBelow.isWithin (by omega)

theorem toList_text_concat (above : List Segment) (s : Segment) :
    (text ⟨above ++ [s]⟩).toList = (lead ⟨above⟩).toList ++ s.text.toList := by
  rw [text_append ⟨above⟩ (List.cons_ne_nil s []), String.toList_append, Path.spell,
    String.toList_ofList]
  simp [Path.spellChars]

theorem text_lt_iff :
    text ⟨above ++ [s]⟩ < text ⟨above ++ [s']⟩ ↔ s.text.toList < s'.text.toList := by
  rw [String.lt_iff_toList_lt, toList_text_concat, toList_text_concat, List.append_lt_append_iff]

/-- The first of two siblings in order keeps its place with a slash behind it, unless the name of
the second one goes on with a character before the slash. -/
theorem text_slash_lt_iff (h : text ⟨above ++ [s]⟩ < text ⟨above ++ [s']⟩) (x : String) :
    text ⟨above ++ [s]⟩ ++ "/" < text ⟨above ++ [s']⟩ ++ x ↔
      ¬ ∃ c rest, s'.text.toList = s.text.toList ++ c :: rest ∧ c < '/' := by
  rw [← List.concat_slash_lt_iff (x := x.toList) (text_lt_iff.mp h) s'.slashless,
    String.lt_iff_toList_lt, String.toList_append, String.toList_append, toList_text_concat,
    toList_text_concat, List.append_assoc, List.append_assoc, List.append_lt_append_iff]
  rfl

end Key

/-! ## Children -/

theorem List.filter_zipIdx_congr {α β : Type} {l : List α} {l' : List β} {p : α → Bool}
    {q : β → Bool} (n : Nat) (length : l.length = l'.length)
    (same : ∀ (i : Nat) a b, l[i]? = some a → l'[i]? = some b → p a = q b) :
    ((l.zipIdx n).filter (p ·.1)).map (·.2) = ((l'.zipIdx n).filter (q ·.1)).map (·.2) := by
  induction l generalizing l' n with
  | nil =>
    obtain rfl := List.eq_nil_of_length_eq_zero length.symm
    rfl
  | cons a l ih =>
    cases l' with
    | nil => cases length
    | cons b l' =>
      have hrest : ((l.zipIdx (n + 1)).filter (p ·.1)).map (·.2) =
          ((l'.zipIdx (n + 1)).filter (q ·.1)).map (·.2) :=
        ih (n + 1) (Nat.succ.inj length) fun i a b ha hb => same (i + 1) a b ha hb
      have hhead : p a = q b := same 0 a b rfl rfl
      rw [List.zipIdx_cons, List.zipIdx_cons, List.filter_cons, List.filter_cons]
      dsimp only
      rw [hhead]
      cases q b
      · exact hrest
      · exact congrArg (n :: ·) hrest

namespace Tree

variable {t : Tree} {m : Contents} {keys : List Key} {k l : Key} {id i : Nat}

/-- The full keys of the children of an item, oldest first. -/
def childKeys (t : Tree) (id : Nat) : List String :=
  (t.children id).filterMap fun c => (t.item? c).map (·.fullKey)

section Draws

variable (h : t.Draws m keys)

include h

theorem Draws.fullKey (hi : keys[i]? = some l) :
    (t.item? i).map (·.fullKey) = some (Path.spell l.segments) := by
  by_cases hroot : l = .root
  · subst hroot
    obtain rfl := h.eq_of_getElem? hi h.first
    rw [item?, h.root]
    rfl
  · obtain ⟨e, j, -, -, hitem⟩ := h.item i l hi hroot
    rw [item?, hitem]
    rfl

theorem Draws.children_eq (hid : keys[id]? = some k) :
    t.children id = (keys.zipIdx.filter fun p => p.1.IsChildOf k).map (·.2) := by
  have hchildren : t.children id =
      (t.items.zipIdx.filter fun p => p.1.parent = some id).map (·.2) := rfl
  rw [hchildren]
  refine List.filter_zipIdx_congr (p := fun a : Item => decide (a.parent = some id))
    (q := fun l : Key => decide (l.IsChildOf k)) 0 h.length fun i a l ha hl => ?_
  refine decide_eq_decide.mpr ?_
  rcases h.getElem?_items ha with ⟨rfl, rfl⟩ | ⟨l', e, j, hl', hroot, -, hj, rfl⟩
  · obtain rfl := Option.some.inj (hl.symm.trans h.first)
    exact iff_of_false (Option.some_ne_none _ ·.symm) fun hchild => hchild.1 rfl
  · obtain rfl := Option.some.inj (hl.symm.trans hl')
    constructor
    · intro hparent
      obtain rfl : j = id := Option.some.inj hparent
      exact ⟨hroot, congrArg Key.segments (Option.some.inj (hj.symm.trans hid))⟩
    · rintro ⟨-, hdrop⟩
      obtain rfl : k = ⟨l.segments.dropLast⟩ := Key.ext_segments hdrop.symm
      exact congrArg some (h.eq_of_getElem? hj hid)

/-- **The children of an item stand for the children of its key, in the same order.** -/
theorem Draws.childKeys_eq (hid : keys[id]? = some k) :
    t.childKeys id = (keys.filter (·.IsChildOf k)).map fun l => Path.spell l.segments := by
  have hfull : ∀ p ∈ keys.zipIdx.filter fun p => p.1.IsChildOf k,
      (t.item? p.2).map (·.fullKey) = some (Path.spell p.1.segments) := fun p hp =>
    h.fullKey (List.mem_zipIdx_iff_getElem?.mp (List.mem_filter.mp hp).1)
  have hkeys : keys.filter (·.IsChildOf k) =
      (keys.zipIdx.filter fun p => p.1.IsChildOf k).map (·.1) := by
    conv_lhs => rw [← List.zipIdx_map_fst 0 keys, List.filter_map]
    rfl
  rw [childKeys, h.children_eq hid, List.filterMap_map, hkeys, List.map_map]
  exact (List.filterMap_congr hfull).trans (congrFun List.filterMap_eq_map' _)

end Draws

end Tree

/-! ## Recursive reads -/

namespace Contents

variable {m : Contents} {k l : Key} {e : Entry} {depth : Nat}

theorem isWithin_of_mem_block {p q : Key × Entry}
    (h : q ∈ p :: if p.2.dir then m.walk depth p.1 else []) : q = p ∨ q.1.IsBelow p.1 := by
  rcases List.mem_cons.mp h with rfl | h
  · exact .inl rfl
  · split_ifs at h
    · exact .inr (isBelow_of_mem_walk h).2
    · cases h

/-- **Siblings are met in the order of their texts.** -/
theorem walk_siblings (m : Contents) (depth : Nat) (key : Key) :
    (m.walk depth key).Pairwise fun p q => p.1.IsSibling q.1 → p.1.text < q.1.text := by
  induction depth generalizing key with
  | zero =>
    refine (m.children_pairwise key).imp ?_
    intro p q h _
    exact h
  | succ depth ih =>
    rw [walk, List.pairwise_flatMap]
    constructor
    · rintro p -
      rw [List.pairwise_cons]
      constructor
      · rintro q hq ⟨above, hp, hq'⟩
        rcases isWithin_of_mem_block (List.mem_cons_of_mem p hq) with rfl | hbelow
        · split_ifs at hq
          · exact absurd rfl (isBelow_of_mem_walk hq).2.2
          · cases hq
        · exact absurd (hp.length.trans hq'.length.symm) hbelow.length_lt.ne
      · split_ifs
        · exact ih p.1
        · exact .nil
    · refine (m.children_pairwise key).imp_of_mem ?_
      rintro p q hp hq hlt x hx y hy ⟨above, hxa, hya⟩
      have hp' := (mem_children.mp hp).2
      have hq' := (mem_children.mp hq).2
      have hy' : y.1.IsWithin q.1 := by
        rcases isWithin_of_mem_block hy with rfl | hbelow
        · exact .refl _
        · exact hbelow.isWithin
      rcases isWithin_of_mem_block hx with rfl | hbelow
      · -- the first one is a child of the key, and so is the second one
        obtain rfl : above = key := Key.ext_segments (hxa.2.symm.trans hp'.2)
        rwa [hya.eq_of_within hq' (.refl _) hy']
      · -- otherwise both stand below the same child
        have habove := (hbelow.above_isWithin hxa)
        have heq := hp'.eq_of_within hq' (hya.isBelow.isWithin.trans habove) hy'
        exact absurd hlt (heq ▸ lt_irrefl _)

end Contents

end ClusterRegistry
