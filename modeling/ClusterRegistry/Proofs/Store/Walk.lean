import Mathlib.Data.List.Flatten
import Mathlib.Data.List.Nodup
import Mathlib.Data.List.Perm.Subperm
import Mathlib.Data.String.Basic
import ClusterRegistry.Proofs.Store.History

/-!
# Walks through a store

A recursive read opens the directories below a key one after the other. That leads to every entry
below the key once, since no entry lies deeper than there are entries.

* `Contents.walk`: the entries below a key, in the order of a recursive read;
* `Contents.sorted`: entries come in the order of their texts;
* `Contents.nodup_walk`: no entry is met twice;
* `Store.InOrder.mem_walk`: every entry is met that does not lie too deep;
* `Store.InOrder.length_le_size`: how deep entries may lie;
* **`Store.InOrder.mem_walk_size`**, **`Store.InOrder.walk_perm`**: a walk meets exactly the entries
  below its key.
-/

namespace ClusterRegistry

namespace Key

variable {k l c d : Key}

theorem IsChildOf.length (h : k.IsChildOf l) : k.segments.length = l.segments.length + 1 := by
  obtain ⟨s, rfl⟩ := h.exists_segment
  exact List.length_append

theorem IsBelow.exists_rest (h : k.IsBelow l) : ∃ rest ≠ [], k = ⟨l.segments ++ rest⟩ := by
  obtain ⟨⟨rest, hrest⟩, hne⟩ := h
  refine ⟨rest, ?_, ext_segments hrest.symm⟩
  rintro rfl
  rw [List.append_nil] at hrest
  exact hne (ext_segments hrest.symm)

theorem isChildOf_iff : k.IsChildOf l ↔
    k.IsBelow l ∧ k.segments.length ≤ l.segments.length + 1 := by
  refine ⟨fun h => ⟨h.isBelow, h.length.le⟩, fun ⟨hbelow, hlength⟩ => ?_⟩
  obtain ⟨c, hchild, hwithin⟩ := hbelow.exists_child
  have heq := List.IsPrefix.eq_of_length_le hwithin (hchild.length ▸ hlength)
  exact ext_segments heq ▸ hchild

theorem IsChildOf.eq_of_within (hc : c.IsChildOf l) (hd : d.IsChildOf l) (hkc : k.IsWithin c)
    (hkd : k.IsWithin d) : c = d := by
  have hlength := hc.length.trans hd.length.symm
  have hcd := List.prefix_of_prefix_length_le hkc hkd hlength.le
  exact ext_segments (hcd.eq_of_length hlength)

end Key

namespace Contents

variable {m : Contents} {k key : Key} {e : Entry} {depth : Nat}

/-- The entries below a key, down to a depth, each before those below it. -/
def walk (m : Contents) : Nat → Key → List (Key × Entry)
  | 0, key => m.children key
  | depth + 1, key =>
    (m.children key).flatMap fun p => p :: if p.2.dir then m.walk depth p.1 else []

theorem sorted (m : Contents) : m.toList.Pairwise fun p q => p.1.text < q.1.text := by
  refine Std.ExtTreeMap.ordered_keys_toList.imp fun {p q} h => ?_
  exact compare_lt_iff_lt.mp h

theorem children_pairwise (m : Contents) (key : Key) :
    (m.children key).Pairwise fun p q => p.1.text < q.1.text :=
  m.sorted.filter _

theorem nodup_children (m : Contents) (key : Key) : ((m.children key).map (·.1)).Nodup := by
  rw [List.Nodup, List.pairwise_map]
  exact (m.children_pairwise key).imp fun h heq => absurd (congrArg Key.text heq) (ne_of_lt h)

theorem mem_walk_zero : (k, e) ∈ m.walk 0 key ↔ m[k]? = some e ∧ k.IsChildOf key := mem_children

theorem mem_walk_succ : (k, e) ∈ m.walk (depth + 1) key ↔ ∃ c x, m[c]? = some x ∧
    c.IsChildOf key ∧ (k = c ∧ e = x ∨ x.dir = true ∧ (k, e) ∈ m.walk depth c) := by
  rw [walk, List.mem_flatMap]
  constructor
  · rintro ⟨⟨c, x⟩, hc, hmem⟩
    obtain ⟨hx, hchild⟩ := mem_children.mp hc
    refine ⟨c, x, hx, hchild, ?_⟩
    rcases List.mem_cons.mp hmem with heq | hmem
    · exact .inl (Prod.mk.inj heq)
    · split_ifs at hmem with hdir
      · exact .inr ⟨hdir, hmem⟩
      · cases hmem
  · rintro ⟨c, x, hx, hchild, hmem⟩
    refine ⟨(c, x), mem_children.mpr ⟨hx, hchild⟩, ?_⟩
    rcases hmem with ⟨rfl, rfl⟩ | ⟨hdir, hmem⟩
    · exact List.mem_cons_self
    · rw [if_pos hdir]
      exact List.mem_cons_of_mem _ hmem

theorem isBelow_of_mem_walk (h : (k, e) ∈ m.walk depth key) : m[k]? = some e ∧ k.IsBelow key := by
  induction depth generalizing key with
  | zero =>
    obtain ⟨he, hchild⟩ := mem_walk_zero.mp h
    exact ⟨he, hchild.isBelow⟩
  | succ depth ih =>
    obtain ⟨c, x, hx, hchild, ⟨rfl, rfl⟩ | ⟨-, hmem⟩⟩ := mem_walk_succ.mp h
    · exact ⟨hx, hchild.isBelow⟩
    · obtain ⟨he, hbelow⟩ := ih hmem
      exact ⟨he, hbelow.trans_isWithin hchild.isBelow.isWithin⟩

/-- **No entry is met twice.** -/
theorem nodup_walk (m : Contents) (depth : Nat) (key : Key) :
    ((m.walk depth key).map (·.1)).Nodup := by
  induction depth generalizing key with
  | zero => exact m.nodup_children key
  | succ depth ih =>
    rw [walk, List.map_flatMap, List.nodup_flatMap]
    constructor
    · rintro ⟨c, x⟩ -
      rw [List.map_cons, List.nodup_cons]
      split_ifs
      · refine ⟨fun hmem => ?_, ih c⟩
        obtain ⟨⟨k, e⟩, hwalk, rfl⟩ := List.mem_map.mp hmem
        exact (isBelow_of_mem_walk hwalk).2.2 rfl
      · exact ⟨List.not_mem_nil, List.nodup_nil⟩
    · -- two children have nothing in common
      have hwithin : ∀ p : Key × Entry, ∀ k ∈ (p :: if p.2.dir then m.walk depth p.1 else []).map
          (·.1), k.IsWithin p.1 := by
        intro p k hk
        rcases List.mem_cons.mp hk with rfl | hk
        · exact .refl _
        · split_ifs at hk
          · obtain ⟨⟨k, e⟩, hwalk, rfl⟩ := List.mem_map.mp hk
            exact (isBelow_of_mem_walk hwalk).2.isWithin
          · cases hk
      refine (List.pairwise_map.mp (m.nodup_children key)).imp_of_mem ?_
      intro p q hp hq hne k hkp hkq
      have hchild := (mem_children.mp hp).2
      have hchild' := (mem_children.mp hq).2
      exact hne (hchild.eq_of_within hchild' (hwithin p k hkp) (hwithin q k hkq))

end Contents

namespace Store

variable {s : Store} {k key : Key} {e : Entry} {depth : Nat}

/-- **Every entry below a key is met that does not lie too deep.** -/
theorem InOrder.mem_walk (h : s.InOrder) : (k, e) ∈ s.contents.walk depth key ↔
    s.contents[k]? = some e ∧ k.IsBelow key ∧
      k.segments.length ≤ key.segments.length + depth + 1 := by
  induction depth generalizing key with
  | zero =>
    rw [Contents.mem_walk_zero, Key.isChildOf_iff]
  | succ depth ih =>
    rw [Contents.mem_walk_succ]
    constructor
    · rintro ⟨c, x, hx, hchild, ⟨rfl, rfl⟩ | ⟨-, hmem⟩⟩
      · have := hchild.length
        exact ⟨hx, hchild.isBelow, by omega⟩
      · obtain ⟨he, hbelow, hlength⟩ := ih.mp hmem
        have := hchild.length
        exact ⟨he, hbelow.trans_isWithin hchild.isBelow.isWithin, by omega⟩
    · rintro ⟨he, hbelow, hlength⟩
      obtain ⟨c, hchild, hwithin⟩ := hbelow.exists_child
      rcases Key.isWithin_iff.mp hwithin with rfl | hbelow'
      · exact ⟨k, e, he, hchild, .inl ⟨rfl, rfl⟩⟩
      · -- what is above an entry is a directory
        obtain ⟨x, hx, hdir⟩ := h.parents k e he c (Key.mem_ancestors.mpr ⟨hbelow', hchild.1⟩)
        have := hchild.length
        exact ⟨c, x, hx, hchild, .inr ⟨hdir, ih.mpr ⟨he, hbelow', by omega⟩⟩⟩

theorem InOrder.length_le_size (h : s.InOrder) (he : s.contents[k]? = some e) :
    k.segments.length ≤ s.contents.size := by
  have hnodup : (k :: k.ancestors).Nodup := by
    rw [List.nodup_cons, Key.ancestors]
    refine ⟨fun hmem => (Key.mem_ancestors.mp hmem).1.2 rfl, ?_⟩
    refine List.Nodup.map_on (fun i hi j hj heq => ?_) List.nodup_range
    have hlength := congrArg (·.segments.length) heq
    simp only [List.length_take, List.mem_range] at hlength hi hj
    omega
  have hsub : k :: k.ancestors ⊆ s.contents.toList.map (·.1) := by
    intro a ha
    rcases List.mem_cons.mp ha with rfl | ha
    · exact List.mem_map.mpr ⟨(_, e), Contents.mem_toList.mpr he, rfl⟩
    · obtain ⟨d, hd, -⟩ := h.parents k e he a ha
      exact List.mem_map.mpr ⟨(a, d), Contents.mem_toList.mpr hd, rfl⟩
  have hle := (hnodup.subperm hsub).length_le
  rw [List.length_cons, Key.ancestors, List.length_map, List.length_range, List.length_map,
    Std.ExtTreeMap.length_toList] at hle
  omega

/-- **A recursive read meets every entry below its key.** -/
theorem InOrder.mem_walk_size (h : s.InOrder) : (k, e) ∈ s.contents.walk s.contents.size key ↔
    s.contents[k]? = some e ∧ k.IsBelow key := by
  rw [h.mem_walk]
  refine and_congr_right fun he => and_iff_left ?_
  have := h.length_le_size he
  omega

/-- **A recursive read meets the entries below its key once each.** -/
theorem InOrder.walk_perm (h : s.InOrder) (key : Key) :
    (s.contents.walk s.contents.size key).Perm
      (s.contents.toList.filter fun p => p.1.IsBelow key) := by
  have hnodup : s.contents.toList.Nodup :=
    s.contents.sorted.imp fun hlt heq => hlt.ne (congrArg (·.1.text) heq)
  refine (List.perm_ext_iff_of_nodup (s.contents.nodup_walk _ _).of_map (hnodup.filter _)).mpr ?_
  rintro ⟨k, e⟩
  rw [h.mem_walk_size, List.mem_filter, Contents.mem_toList, decide_eq_true_eq]

end Store

end ClusterRegistry
