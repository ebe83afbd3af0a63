import Mathlib.Data.List.Induction
import ClusterRegistry.Proofs.Settings.Field

/-!
# What a layer gives to a field

Layers are laid over a tree one value after the other. If they leave sections tables and fields
whole, what becomes of a field can be told without the tree.

* `Setting.valuesAt`, `Layer.values`: the values that a layer has for a field, in order;
* `Setting.laid`, `Layer.given?`: what these come to;
* `Layer.IsLeafwise`: all that a layer does to a field is to give it values;
* **`Layer.leaf?_laidOver`**: what stands under a field of a tree over which a layer has been laid;
* **`Setting.foldl_laid`**: values that are given win over what was there before.
-/

namespace ClusterRegistry

open Settings (Field)

variable {k : Field}

namespace Setting

/-! ## Values -/

/-- It is a table. -/
def IsTable : Setting → Prop
  | table _ => True
  | _ => False

instance (v : Setting) : Decidable v.IsTable := by unfold IsTable; split <;> infer_instance

/-- A table without entries says nothing. -/
def IsBare : Setting → Prop
  | table [] => True
  | _ => False

instance (v : Setting) : Decidable v.IsBare := by unfold IsBare; split <;> infer_instance

/-- What stands under a name that had `x` once it is given a value: the value itself, or, if it is a
table, its entries with those that were there. -/
def laid (v : Setting) (x : Option Setting) : Option Setting :=
  match v with
  | table [] => x
  | table sub => some (table (mergeAll sub (x.getD (table [])).entries))
  | v => some v

/-- The values that the entries of a table have for a name, which goes in lower case. -/
def valuesOf (name : String) (es : List (String × Setting)) : List Setting :=
  es.filterMap fun (n, v) => if n.toLower = name then some v else none

/-- What stands under a name, tables without entries aside. -/
def leafOf? (name : String) (es : List (String × Setting)) : Option Setting :=
  (es.lookup name).filter (¬·.IsBare)

theorem put_ne_nil (name : String) (v : Setting) (es : List (String × Setting)) :
    Entries.put name v es ≠ [] := by
  cases es with
  | nil => exact List.cons_ne_nil _ _
  | cons e rest =>
    rw [Entries.put]
    split <;> exact List.cons_ne_nil _ _

theorem mergeInto_ne_nil (name : String) (v : Setting) (es : List (String × Setting)) :
    mergeInto name v es ≠ [] := by
  cases v <;> exact put_ne_nil _ _ _

theorem mergeAll_ne_nil {sub : List (String × Setting)} (h : sub ≠ [])
    (es : List (String × Setting)) : mergeAll sub es ≠ [] := by
  induction sub generalizing es with
  | nil => exact absurd rfl h
  | cons e rest ih =>
    rw [mergeAll]
    by_cases hrest : rest = []
    · rw [hrest, mergeAll]
      exact mergeInto_ne_nil _ _ _
    · exact ih hrest _

theorem valuesOf_cons (name n : String) (v : Setting) (rest : List (String × Setting)) :
    valuesOf name ((n, v) :: rest) =
      if n.toLower = name then v :: valuesOf name rest else valuesOf name rest := by
  rw [valuesOf, List.filterMap_cons]
  by_cases h : n.toLower = name
  · simp only [if_pos h]
    rfl
  · simp only [if_neg h]
    rfl

theorem laid_of_not_table {v : Setting} (h : ¬v.IsTable) (x : Option Setting) :
    v.laid x = some v := by
  cases v with
  | table sub => exact absurd trivial h
  | _ => rfl

theorem entries_of_not_table {v : Setting} (h : ¬v.IsTable) : v.entries = [] := by
  cases v with
  | table sub => exact absurd trivial h
  | _ => rfl

theorem laid_table {sub : List (String × Setting)} (h : sub ≠ []) (x : Option Setting) :
    (table sub).laid x = some (table (mergeAll sub (x.getD (table [])).entries)) := by
  obtain ⟨e, rest, rfl⟩ := List.exists_cons_of_ne_nil h
  rfl

theorem not_isBare_of_ne_nil {es : List (String × Setting)} (h : es ≠ []) : ¬(table es).IsBare := by
  obtain ⟨e, rest, rfl⟩ := List.exists_cons_of_ne_nil h
  exact id

/-- What is merged into a table does not depend on whether one without entries is left out. -/
theorem entries_leafOf? (name : String) (es : List (String × Setting)) :
    ((leafOf? name es).getD (table [])).entries = ((es.lookup name).getD (table [])).entries := by
  rw [leafOf?]
  cases es.lookup name with
  | none => rfl
  | some x =>
    by_cases hx : x.IsBare
    · rw [Option.filter_some, if_neg (by simpa using hx)]
      unfold IsBare at hx
      split at hx
      · rfl
      · exact absurd hx id
    · rw [Option.filter_some, if_pos (by simpa using hx)]

theorem leafOf?_mergeInto (name : String) (v : Setting) (es : List (String × Setting)) :
    leafOf? name.toLower (mergeInto name v es) = v.laid (leafOf? name.toLower es) := by
  by_cases hv : v.IsTable
  · cases v with
    | table sub =>
      rw [leafOf?, mergeInto, Entries.lookup_put, if_pos rfl]
      by_cases hsub : sub = []
      · subst hsub
        rw [laid, leafOf?]
        cases es.lookup name.toLower <;> rfl
      · have hbare := not_isBare_of_ne_nil
          (mergeAll_ne_nil hsub ((es.lookup name.toLower).getD (table [])).entries)
        rw [laid_table hsub, entries_leafOf?, if_neg (by simpa using hsub), Option.filter_some,
          if_pos (decide_eq_true hbare)]
    | _ => exact absurd hv id
  · have hbare : ¬v.IsBare := by
      cases v with
      | table sub => exact absurd trivial hv
      | _ => exact id
    rw [laid_of_not_table hv, leafOf?, mergeInto, Entries.lookup_put, if_pos rfl,
      Option.filter_some, if_pos (decide_eq_true hbare)]
    rintro sub rfl
    exact hv trivial

/-- **Merging a table** lays its values for a name over what stood there, one after the other. -/
theorem leafOf?_mergeAll (name : String) (sub es : List (String × Setting)) :
    leafOf? name (mergeAll sub es) =
      (valuesOf name sub).foldl (fun x v => v.laid x) (leafOf? name es) := by
  induction sub generalizing es with
  | nil =>
    rw [mergeAll]
    rfl
  | cons e rest ih =>
    obtain ⟨n, v⟩ := e
    rw [mergeAll, ih, valuesOf_cons]
    split_ifs with hn
    · subst hn
      rw [leafOf?_mergeInto, List.foldl_cons]
    · rw [leafOf?, lookup_mergeInto_of_ne (Ne.symm hn), leafOf?]

theorem foldl_laid {x : Option Setting} (hx : (x.getD (table [])).entries = [])
    (vs : List Setting) :
    vs.foldl (fun x v => v.laid x) x = (vs.foldl (fun x v => v.laid x) none).or x := by
  suffices h : ∀ y : Option Setting, vs.foldl (fun x v => v.laid x) (y.or x) =
      (vs.foldl (fun x v => v.laid x) y).or x from h none
  have hlaid : ∀ (v : Setting) (y : Option Setting), v.laid (y.or x) = (v.laid y).or x := by
    intro v y
    by_cases hv : v.IsTable
    · cases v with
      | table sub =>
        by_cases hsub : sub = []
        · subst hsub
          rfl
        · rw [laid_table hsub, laid_table hsub, Option.some_or]
          cases y with
          | none => rw [Option.none_or, hx]; rfl
          | some y => rfl
      | _ => exact absurd hv id
    · rw [laid_of_not_table hv, laid_of_not_table hv, Option.some_or]
  induction vs with
  | nil => exact fun y => rfl
  | cons v rest ih =>
    intro y
    rw [List.foldl_cons, List.foldl_cons, hlaid, ih]

/-- Of values among which there is no table the last one counts. -/
theorem foldl_laid_of_not_table {vs : List Setting} (h : ∀ v ∈ vs, ¬v.IsTable)
    (x : Option Setting) : vs.foldl (fun x v => v.laid x) x = vs.getLast?.or x := by
  induction vs using List.reverseRecOn with
  | nil => rfl
  | append_singleton front v ih =>
    rw [List.foldl_concat, List.getLast?_concat, laid_of_not_table (h v (by simp))]
    rfl

/-! ## Places -/

/-- What stands under a field of a tree, tables without entries aside. -/
def leaf? (k : Field) (t : Setting) : Option Setting := leafOf? k.name (t.within k.group)

theorem found?_of_leaf? {k : Field} {t v : Setting} (h : t.leaf? k = some v) :
    t.found? k = some v := (Option.filter_eq_some_iff.mp h).1

/-- The values that a field gets when a value is given to a place. -/
def valuesAt (k : Field) (v : Setting) : Place → List Setting
  | [.name g] => if g.toLower = k.group then valuesOf k.name v.entries else []
  | [.name g, .name n] => if g.toLower = k.group ∧ n.toLower = k.name then [v] else []
  | _ => []

/-- A value for a place leaves the section of a field a table, and the field whole. -/
def IsLeafwise (k : Field) (v : Setting) : Place → Prop
  | [] | .index _ :: _ => False
  | [.name g] => g.toLower = k.group → v.IsTable
  | .name g :: .index _ :: _ => g.toLower ≠ k.group
  | .name g :: .name n :: rest => g.toLower = k.group → n.toLower = k.name → rest = []

instance (k : Field) (v : Setting) (place : Place) : Decidable (v.IsLeafwise k place) := by
  unfold IsLeafwise; split <;> infer_instance

variable {v t : Setting}

theorem within_put (g : String) (x : Setting) (es : List (String × Setting)) :
    (table (Entries.put g x es)).within g = x.entries := by
  rw [within, entries, Entries.lookup_put, if_pos rfl, Option.getD_some]

theorem within_put_of_ne {g group : String} (h : group ≠ g) (x t : Setting) :
    (table (Entries.put g x t.entries)).within group = t.within group := by
  rw [within, entries, Entries.lookup_put, if_neg h, within]

theorem within_mergeInto (g : String) (sub : List (String × Setting)) (t : Setting) :
    (table (mergeInto g (.table sub) t.entries)).within g.toLower =
      mergeAll sub (t.within g.toLower) := by
  rw [mergeInto, within_put, within]
  by_cases hsub : sub = []
  · subst hsub
    rw [mergeAll]
    cases t.entries.lookup g.toLower <;> rfl
  · rw [if_neg (by simpa using hsub)]
    cases t.entries.lookup g.toLower <;> rfl

theorem within_mergeInto_of_ne {g group : String} (h : group ≠ g.toLower) (v t : Setting) :
    (table (mergeInto g v t.entries)).within group = t.within group := by
  rw [within, entries, lookup_mergeInto_of_ne h, within]

theorem leafOf?_assign {n name : String} {rest : Place} (h : n.toLower = name → rest = [])
    (v there : Setting) : leafOf? name (v.assign (.name n :: rest) there).entries =
      if n.toLower = name then v.laid (leafOf? name there.entries)
      else leafOf? name there.entries := by
  split_ifs with hn
  · obtain rfl := h hn
    subst hn
    exact leafOf?_mergeInto n v there.entries
  · cases rest with
    | nil => rw [assign, entries, leafOf?, lookup_mergeInto_of_ne (Ne.symm hn), leafOf?]
    | cons step rest =>
      rw [assign, entries, leafOf?, Entries.lookup_put, if_neg (Ne.symm hn), leafOf?]
      exact List.cons_ne_nil step rest

theorem assign_name_name (v t : Setting) (g n : String) (rest : Place) :
    v.assign (.name g :: .name n :: rest) t =
      table (Entries.put g.toLower
        (v.assign (.name n :: rest) ((t.entries.lookup g.toLower).getD .absent)) t.entries) := rfl

theorem valuesAt_name_name {g n : String} {rest : Place}
    (h : v.IsLeafwise k (.name g :: .name n :: rest)) : v.valuesAt k (.name g :: .name n :: rest) =
      if g.toLower = k.group ∧ n.toLower = k.name then [v] else [] := by
  cases rest with
  | nil => rfl
  | cons step rest =>
    rw [if_neg fun hplace => List.cons_ne_nil step rest (h hplace.1 hplace.2)]
    rfl

/-- **What becomes of a field when a value is given to a place.** -/
theorem leaf?_assign {place : Place} (h : v.IsLeafwise k place) (t : Setting) :
    (v.assign place t).leaf? k = (v.valuesAt k place).foldl (fun x v => v.laid x) (t.leaf? k) := by
  match place, h with
  | [.name g], h =>
    rw [assign, valuesAt, leaf?]
    split_ifs with hg
    · cases v with
      | table sub =>
        rw [← hg, within_mergeInto, leafOf?_mergeAll, hg]
        rfl
      | _ => exact absurd (h hg) id
    · rw [within_mergeInto_of_ne (Ne.symm hg)]
      rfl
  | .name g :: .index i :: rest, h =>
    rw [assign, leaf?, within_put_of_ne (Ne.symm h)]
    · rfl
    · exact List.cons_ne_nil _ _
  | .name g :: .name n :: rest, h =>
    rw [assign_name_name, valuesAt_name_name h, leaf?]
    by_cases hg : g.toLower = k.group
    · rw [← hg, within_put, leafOf?_assign (h hg), hg]
      by_cases hn : n.toLower = k.name
      · rw [if_pos hn, if_pos ⟨rfl, hn⟩]
        rfl
      · rw [if_neg hn, if_neg fun hplace => hn hplace.2]
        rfl
    · rw [within_put_of_ne (Ne.symm hg), if_neg fun hplace => hg hplace.1]
      rfl

theorem hasSection_assign {place : Place} (h : v.IsLeafwise k place) (ht : t.HasSection k) :
    (v.assign place t).HasSection k := by
  obtain ⟨es, hes⟩ := ht
  match place, h with
  | [.name g], h =>
    rw [assign, HasSection, entries]
    by_cases hg : g.toLower = k.group
    · cases v with
      | table sub =>
        rw [mergeInto, Entries.lookup_put, if_pos hg.symm, hg, hes]
        by_cases hsub : sub.isEmpty
        · exact ⟨es, by rw [if_pos hsub]; rfl⟩
        · exact ⟨_, by rw [if_neg hsub]⟩
      | _ => exact absurd (h hg) id
    · rw [lookup_mergeInto_of_ne (Ne.symm hg)]
      exact ⟨es, hes⟩
  | .name g :: .index i :: rest, h =>
    refine ⟨es, ?_⟩
    rw [assign, entries, Entries.lookup_put, if_neg (Ne.symm h), hes]
    exact List.cons_ne_nil _ _
  | .name g :: .name n :: rest, h =>
    rw [assign_name_name, HasSection, entries, Entries.lookup_put]
    by_cases hg : k.group = g.toLower
    · rw [if_pos hg]
      cases rest with
      | nil => exact ⟨_, rfl⟩
      | cons step rest => exact ⟨_, rfl⟩
    · rw [if_neg hg]
      exact ⟨es, hes⟩

end Setting

theorem Settings.Field.of?_leaf? {t : Setting} {x : k.Value} (h : k.of? (t.found? k) = some x) :
    k.of? (t.leaf? k) = some x := by
  rw [Setting.leaf?, Setting.leafOf?]
  change k.of? ((t.found? k).filter _) = some x
  cases hfound : t.found? k with
  | none => rwa [hfound] at h
  | some v =>
    rw [hfound] at h
    by_cases hbare : v.IsBare
    · have hnone : k.read? v = none := by
        unfold Setting.IsBare at hbare
        split at hbare
        · exact k.read?_bare
        · exact absurd hbare id
      cases hnone.symm.trans h
    · rwa [Option.filter_some, if_pos (by simpa using hbare)]

/-! ## Layers -/

namespace Layer

/-- The values that a layer has for a field, in order. -/
def values (k : Field) (l : Layer) : List Setting :=
  l.flatMap fun (name, v) => v.valuesAt k (Place.ofName name)

/-- What the values of a layer for a field come to, if there are any. -/
def given? (k : Field) (l : Layer) : Option Setting := (l.values k).foldl (fun x v => v.laid x) none

/-- All that the layer does to the field is to give it values as a whole. -/
def IsLeafwise (k : Field) (l : Layer) : Prop := ∀ e ∈ l, e.2.IsLeafwise k (Place.ofName e.1)

instance (k : Field) (l : Layer) : Decidable (l.IsLeafwise k) :=
  inferInstanceAs (Decidable (∀ e ∈ l, e.2.IsLeafwise k (Place.ofName e.1)))

/-- A layer of whole sections gives their fields whole. -/
theorem isLeafwise_of_sections {l : Layer}
    (h : ∀ e ∈ l, e.2.IsTable ∧ Place.ofName e.1 = [.name e.1]) (k : Field) : l.IsLeafwise k := by
  intro e he
  rw [(h e he).2]
  exact fun _ => (h e he).1

theorem values_cons (k : Field) (name : String) (v : Setting) (l : Layer) :
    values k ((name, v) :: l) = v.valuesAt k (Place.ofName name) ++ values k l := rfl

variable {l : Layer}

/-- **A layer that is laid over a tree** lays its values over what stands under a field. -/
theorem leaf?_laidOver (h : l.IsLeafwise k) (t : Setting) :
    (l.laidOver t).leaf? k = (l.values k).foldl (fun x v => v.laid x) (t.leaf? k) := by
  rw [laidOver, values]
  induction l generalizing t with
  | nil => rfl
  | cons e rest ih =>
    rw [List.foldl_cons, ih (fun f hf => h f (List.mem_cons_of_mem e hf)),
      Setting.leaf?_assign (h e List.mem_cons_self), List.flatMap_cons, List.foldl_append]

theorem hasSection_laidOver (h : l.IsLeafwise k) {t : Setting} (ht : t.HasSection k) :
    (l.laidOver t).HasSection k := by
  rw [laidOver]
  induction l generalizing t with
  | nil => exact ht
  | cons e rest ih =>
    exact ih (fun f hf => h f (List.mem_cons_of_mem e hf))
      (Setting.hasSection_assign (h e List.mem_cons_self) ht)

end Layer

end ClusterRegistry
