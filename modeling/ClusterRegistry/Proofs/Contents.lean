import Mathlib.Data.List.MinMax
import ClusterRegistry.Store
import ClusterRegistry.Proofs.Hierarchy

/-!
# Looking up entries

What stands at a key after each change of the contents, and what the listings of the contents say
about single keys.

* `Key.lookup_insert`, `Contents.lookup_prune`, `Contents.lookup_addParents`;
* `Contents.mem_toList`, `Contents.mem_children`;
* `Contents.nextDeadline?_le`: no deadline comes before the first one.
-/

namespace ClusterRegistry

namespace Key

variable {α : Type} {m : Std.ExtTreeMap Key α} {k key : Key} {a : α}

theorem lookup_insert : (m.insert key a)[k]? = if k = key then some a else m[k]? := by
  rw [Std.ExtTreeMap.getElem?_insert]
  refine if_congr ?_ rfl rfl
  rw [Std.LawfulEqOrd.compare_eq_iff_eq, eq_comm]

theorem lookup_insertIfNew :
    (m.insertIfNew key a)[k]? = if k = key then some (m[key]?.getD a) else m[k]? := by
  rw [Std.ExtTreeMap.getElem?_insertIfNew]
  by_cases h : k = key
  · subst h
    cases hk : m[k]? <;> simp [Std.ExtTreeMap.mem_iff_isSome_getElem?, hk]
  · have hne : compare key k ≠ .eq := fun h' => h (Std.LawfulEqOrd.eq_of_compare h').symm
    simp [h, hne]

theorem lookup_filter_not {p : Key → Prop} [DecidablePred p] :
    (m.filter fun k _ => ¬ p k)[k]? = if p k then none else m[k]? := by
  rw [Std.ExtTreeMap.getElem?_filter']
  by_cases h : p k
  · rw [if_pos h]
    cases m[k]? <;> simp [h]
  · rw [if_neg h]
    cases m[k]? <;> simp [h]

end Key

namespace Contents

variable {m : Contents} {k key : Key} {e : Entry}

theorem lookup_prune : (m.prune key)[k]? = if k.IsWithin key then none else m[k]? :=
  Key.lookup_filter_not

theorem lookup_addParents {index : Nat} {keys : List Key} :
    (m.addParents index keys)[k]? =
      if k ∈ keys then some (m[k]?.getD (.parent index)) else m[k]? := by
  induction keys generalizing m with
  | nil => simp [addParents]
  | cons a rest ih =>
    have hcons : m.addParents index (a :: rest) =
        addParents (m.insertIfNew a (.parent index)) index rest := rfl
    rw [hcons, ih, Key.lookup_insertIfNew]
    by_cases ha : k = a
    · subst ha
      by_cases hr : k ∈ rest <;> simp [hr]
    · by_cases hr : k ∈ rest <;> simp [hr, ha]

theorem lookup_addParents_cases {index : Nat} {keys : List Key} {e : Entry}
    (h : (m.addParents index keys)[k]? = some e) :
    m[k]? = some e ∨ m[k]? = none ∧ e = .parent index ∧ k ∈ keys := by
  rw [lookup_addParents] at h
  split_ifs at h with hk
  · cases hm : m[k]? with
    | none =>
      rw [hm] at h
      exact Or.inr ⟨rfl, (Option.some.inj h).symm, hk⟩
    | some d =>
      rw [hm] at h
      exact Or.inl h
  · exact Or.inl h

theorem addParents_ne_none {index : Nat} {keys : List Key} (h : m[k]? ≠ none) :
    (m.addParents index keys)[k]? ≠ none := by
  rw [lookup_addParents]
  split_ifs
  · exact Option.some_ne_none _
  · exact h

/-! ## Listings -/

theorem mem_toList : (k, e) ∈ m.toList ↔ m[k]? = some e :=
  Std.ExtTreeMap.mem_toList_iff_getElem?_eq_some

theorem mem_children : (k, e) ∈ m.children key ↔ m[k]? = some e ∧ k.IsChildOf key := by
  simp [children]

/-- **No deadline comes before the first one.** -/
theorem nextDeadline?_le {d : Nat} (h : m[k]? = some e) (hd : e.deadline = some d) :
    ∃ t ∈ m.nextDeadline?, t ≤ d := by
  have hmem : d ∈ m.toList.filterMap (·.2.deadline) :=
    List.mem_filterMap.mpr ⟨(k, e), mem_toList.mpr h, hd⟩
  cases hmin : m.nextDeadline? with
  | none =>
    rw [nextDeadline?, List.min?_eq_none_iff] at hmin
    rw [hmin] at hmem
    cases hmem
  | some t =>
    rw [nextDeadline?, List.min?_eq_some_iff] at hmin
    exact ⟨t, rfl, hmin.2 d hmem⟩

end Contents

end ClusterRegistry
