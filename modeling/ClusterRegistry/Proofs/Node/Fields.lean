import ClusterRegistry.Node.Document
import ClusterRegistry.Proofs.Json.Doc
import ClusterRegistry.Proofs.Json.Record

/-!
# Fields that may be left out

A record leaves out what is absent or empty, and whoever reads it puts that back.

* `optionField_names`, `lookup_optionField_of_ne`, `fieldD?_optionField`: a field without a value;
* `listField_names`, `lookup_listField_of_ne`, `fieldD?_listField`: a field with an empty list;
* `Doc.legible_record`, `listField_legible`: their numbers.
-/

namespace ClusterRegistry

open Json

section Fields

variable {α : Type} {fields : List (String × Doc)} {name other : String} {ds : List Doc}
  {f : α → Doc} {o : Option α}

theorem optionField_names (name : String) (f : α → Doc) (o : Option α) :
    ((optionField name f o).map (·.1)).Sublist [name] := by
  cases o with
  | none => exact List.nil_sublist _
  | some a => exact List.Sublist.refl _

theorem listField_names (name : String) (ds : List Doc) :
    ((listField name ds).map (·.1)).Sublist [name] := by
  cases ds with
  | nil => exact List.nil_sublist _
  | cons d rest => exact List.Sublist.refl _

@[simp] theorem lookup_optionField_of_ne (h : other ≠ name) :
    (optionField name f o).lookup other = none := by
  cases o with
  | none => rfl
  | some a => simp [optionField, List.lookup_cons, beq_false_of_ne h]

@[simp] theorem lookup_listField_of_ne (h : other ≠ name) :
    (listField name ds).lookup other = none := by
  cases ds with
  | nil => rfl
  | cons d rest => simp [listField, List.lookup_cons, beq_false_of_ne h]

theorem fieldD?_optionField {read : Doc → Option α}
    (h : fields.lookup name = (optionField name f o).lookup name)
    (notNull : ∀ a, f a ≠ .null) : fieldD? fields name none (Doc.optional? read) =
      o.elim (some none) fun a => (read (f a)).map some := by
  have hread : ∀ a, Doc.optional? read (f a) = (read (f a)).map some := by
    intro a
    unfold Doc.optional?
    split
    · rename_i hnull
      exact absurd hnull (notNull a)
    · rfl
  rw [fieldD?, h]
  cases o with
  | none => rfl
  | some a => simp [optionField, hread]

theorem fieldD?_listField {read : Doc → Option α}
    (h : fields.lookup name = (listField name ds).lookup name) :
    (fieldD? fields name [] fun d => d.items?.bind fun items => items.mapM read) =
      ds.mapM read := by
  rw [fieldD?, h]
  cases ds with
  | nil => rfl
  | cons d rest => simp [listField, Doc.items?]

end Fields

/-! ## Numbers -/

namespace Json.Doc

theorem itemsLegible_of_forall {ds : List Doc} (h : ∀ d ∈ ds, d.Legible) : ItemsLegible ds := by
  induction ds with
  | nil => trivial
  | cons d rest ih =>
    exact ⟨h d List.mem_cons_self, ih fun e he => h e (List.mem_cons_of_mem d he)⟩

theorem fieldsLegible_of_forall {fields : List (Option String × Doc)}
    (h : ∀ p ∈ fields, p.2.Legible) : FieldsLegible fields := by
  induction fields with
  | nil => trivial
  | cons p rest ih =>
    exact ⟨h p List.mem_cons_self, ih fun q hq => h q (List.mem_cons_of_mem p hq)⟩

theorem legible_record {fields : List (String × Doc)} (h : ∀ p ∈ fields, p.2.Legible) :
    (record fields).Legible := by
  rw [record, Legible]
  refine fieldsLegible_of_forall fun p hp => ?_
  obtain ⟨q, hq, rfl⟩ := List.mem_map.mp hp
  exact h q hq

end Json.Doc

theorem listField_legible {name : String} {ds : List Doc} (h : ∀ d ∈ ds, d.Legible) :
    ∀ p ∈ listField name ds, p.2.Legible := by
  cases ds with
  | nil => simp [listField]
  | cons d rest =>
    intro p hp
    rw [List.mem_singleton.mp hp]
    exact Doc.itemsLegible_of_forall h

end ClusterRegistry
