import Mathlib.Data.List.Infix
import ClusterRegistry.Key

/-!
# The hierarchy of keys

Keys are lists of segments, and a key lies within another one if it continues it.

* `Key.IsWithin.trans`, `Key.IsWithin.antisymm`: being within is an order;
* **`Key.mem_ancestors`**: the ancestors are the keys above, but for the root;
* `Key.IsBelow.exists_child`: the way down to a key begins with a child.
-/

namespace ClusterRegistry.Key

variable {k l m : Key}

theorem ext_segments (h : k.segments = l.segments) : k = l := by
  cases k
  cases l
  exact congrArg mk h

/-! ## Being within -/

theorem IsWithin.refl (k : Key) : k.IsWithin k := List.prefix_rfl

theorem IsWithin.trans (h : k.IsWithin l) (h' : l.IsWithin m) : k.IsWithin m :=
  List.IsPrefix.trans h' h

theorem IsWithin.antisymm (h : k.IsWithin l) (h' : l.IsWithin k) : k = l :=
  ext_segments (h'.eq_of_length (Nat.le_antisymm h'.length_le h.length_le))

theorem IsBelow.isWithin (h : k.IsBelow l) : k.IsWithin l := h.1

theorem isWithin_iff : k.IsWithin l ↔ k = l ∨ k.IsBelow l := by
  constructor
  · intro h
    by_cases e : k = l
    · exact Or.inl e
    · exact Or.inr ⟨h, e⟩
  · rintro (rfl | h)
    · exact .refl k
    · exact h.isWithin

theorem IsBelow.trans_isWithin (h : k.IsBelow l) (h' : l.IsWithin m) : k.IsBelow m := by
  refine ⟨h.isWithin.trans h', ?_⟩
  rintro rfl
  exact h.2 (h.isWithin.antisymm h')

theorem IsBelow.length_lt (h : k.IsBelow l) : l.segments.length < k.segments.length := by
  have hle : l.segments.length ≤ k.segments.length := List.IsPrefix.length_le h.1
  refine Nat.lt_of_le_of_ne hle fun e => h.2 ?_
  exact (ext_segments (List.IsPrefix.eq_of_length h.1 e)).symm

/-! ## Ancestors and children -/

/-- **The ancestors of a key are the keys above it, without the root.** -/
theorem mem_ancestors : l ∈ k.ancestors ↔ k.IsBelow l ∧ l ≠ root := by
  rw [ancestors, List.mem_map]
  constructor
  · rintro ⟨i, hi, rfl⟩
    rw [List.mem_range] at hi
    refine ⟨⟨List.take_prefix _ _, fun e => ?_⟩, fun e => ?_⟩
    · have := congrArg (·.segments.length) e
      simp only [List.length_take] at this
      omega
    · have := congrArg (·.segments.length) e
      simp only [List.length_take, root, List.length_nil] at this
      omega
  · rintro ⟨h, hroot⟩
    have hlt := h.length_lt
    have hpos : 0 < l.segments.length :=
      List.length_pos_iff.mpr fun e => hroot (ext_segments e)
    refine ⟨l.segments.length - 1, List.mem_range.mpr (by omega), ext_segments ?_⟩
    have htake := List.prefix_iff_eq_take.mp h.1
    rw [show l.segments.length - 1 + 1 = l.segments.length by omega]
    exact htake.symm

theorem IsChildOf.isBelow (h : k.IsChildOf l) : k.IsBelow l := by
  obtain ⟨hroot, hdrop⟩ := h
  refine ⟨hdrop ▸ List.dropLast_prefix k.segments, ?_⟩
  rintro rfl
  have hne : k.segments ≠ [] := fun e => hroot (ext_segments e)
  have hlen := congrArg List.length hdrop
  rw [List.length_dropLast] at hlen
  have := List.length_pos_iff.mpr hne
  omega

theorem IsChildOf.exists_segment (h : k.IsChildOf l) : ∃ s, k = ⟨l.segments ++ [s]⟩ := by
  obtain ⟨hroot, hdrop⟩ := h
  have hne : k.segments ≠ [] := fun e => hroot (ext_segments e)
  refine ⟨k.segments.getLast hne, ext_segments ?_⟩
  rw [← hdrop]
  exact (List.dropLast_append_getLast hne).symm

theorem IsBelow.exists_child (h : k.IsBelow l) : ∃ c, c.IsChildOf l ∧ k.IsWithin c := by
  have hlt := h.length_lt
  have htake := List.prefix_iff_eq_take.mp h.1
  refine ⟨⟨k.segments.take (l.segments.length + 1)⟩, ⟨fun e => ?_, ?_⟩, List.take_prefix _ _⟩
  · have := congrArg (·.segments.length) e
    simp only [List.length_take, root, List.length_nil] at this
    omega
  · change (k.segments.take (l.segments.length + 1)).dropLast = l.segments
    rw [List.dropLast_eq_take, List.length_take, List.take_take, Nat.min_eq_left (by omega)]
    rw [Nat.min_eq_left (by omega), Nat.add_sub_cancel]
    exact htake.symm

end ClusterRegistry.Key
