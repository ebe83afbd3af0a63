import Mathlib.Data.List.Nodup
import ClusterRegistry.Json.Record

/-!
# Reading back records

A record is read as the fields that it was made of, provided that no name comes twice.

* **`Doc.record?_record`**: the record reading keeps all fields that it knows;
* **`Doc.generic?_record`**: the generic reading keeps a record whose values it keeps.
-/

namespace ClusterRegistry.Json

theorem mapM_eq_some_map {α β : Type} {f : α → Option β} {g : α → β} {l : List α}
    (h : ∀ a ∈ l, f a = some (g a)) : l.mapM f = some (l.map g) := by
  induction l with
  | nil => rfl
  | cons a rest ih =>
    rw [List.mapM_cons, h a List.mem_cons_self, ih fun b hb => h b (List.mem_cons_of_mem a hb)]
    rfl

theorem mapM_map_eq_some {α β : Type} {f : α → β} {g : β → Option α} {l : List α}
    (h : ∀ a ∈ l, g (f a) = some a) : (l.map f).mapM g = some l := by
  rw [List.mapM_map, mapM_eq_some_map (f := g ∘ f) (g := id) h, List.map_id]

namespace Doc

variable {fields : List (String × Doc)} {names order : List String}

/-- **A record whose names come in an order without repetitions is read as its fields.** -/
theorem record?_record (ordered : (fields.map (·.1)).Sublist order) (nodup : order.Nodup)
    (known : ∀ n ∈ order, n ∈ names) : (record fields).record? names = some fields := by
  have hknown : fields.filter (·.1 ∈ names) = fields := by
    refine List.filter_eq_self.mpr fun p hp => decide_eq_true (known _ ?_)
    exact ordered.subset (List.mem_map_of_mem hp)
  have hnodup : (fields.map (·.1)).Nodup := nodup.sublist ordered
  rw [record, record?, mapM_map_eq_some]
  · simp only [Option.bind_eq_bind, Option.bind_some, hknown, if_pos hnodup]
  · exact fun p _ => rfl

theorem lastFields_eq_self {fs : List (Option String × Doc)} (nodup : (fs.map (·.1)).Nodup) :
    lastFields fs = fs := by
  induction fs with
  | nil => rfl
  | cons f rest ih =>
    obtain ⟨hf, hrest⟩ := List.nodup_cons.mp nodup
    simp [lastFields, ih hrest, hf]

/-- **A record whose values can be kept is kept.** -/
theorem generic?_record {levels : Nat} (kept : ∀ p ∈ fields, generic? levels p.2 = some p.2)
    (nodup : (fields.map (·.1)).Nodup) :
    generic? (levels + 1) (record fields) = some (record fields) := by
  rw [record, generic?, mapM_eq_some_map (g := id), List.map_id]
  · refine congrArg (fun fs => some (object fs)) (lastFields_eq_self ?_)
    rw [List.map_map]
    change (fields.map (some ∘ (·.1))).Nodup
    rw [← List.map_map]
    exact List.Nodup.map (fun _ _ h => Option.some.inj h) nodup
  · intro p hp
    obtain ⟨q, hq, rfl⟩ := List.mem_map.mp hp
    simp [kept q hq]

theorem generic?_texts (levels : Nat) (texts : List String) :
    generic? (levels + 1) (.array (texts.map .str)) = some (.array (texts.map .str)) := by
  have hkept : (texts.map str).mapM (generic? levels) = some (texts.map str) := by
    rw [mapM_eq_some_map (g := id), List.map_id]
    intro d hd
    obtain ⟨t, -, rfl⟩ := List.mem_map.mp hd
    cases levels <;> rfl
  simp only [generic?, hkept, Option.bind_eq_bind, Option.bind_some]

end Doc

end ClusterRegistry.Json
