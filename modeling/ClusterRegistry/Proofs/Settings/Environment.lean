import ClusterRegistry.Proofs.Json.Agreement
import ClusterRegistry.Proofs.Settings.Given
import ClusterRegistry.Settings.Source

/-!
# Variables and fields

A variable gives a value to a field if its name is that of the field, whatever its case.

* `Place.eq_of_ofName`: one name for a place of two names;
* `Layer.toLower_of_nameOfVariable?`: names of variables go in lower case;
* `Settings.Field.variableValue?`, **`Layer.foldl_values_ofEnvironment`**: the environment gives a
  field the value of the last variable that names it.
-/

namespace ClusterRegistry

open Settings (Field)

/-! ## Names of places -/

namespace Place

variable {cs : List Char} {p : Place} {name g n : String}

theorem eq_index_of_index? {step : PlaceStep} (h : index? cs = some step) : ∃ i, step = .index i := by
  unfold index? at h
  extract_lets digits at h
  split_ifs at h
  obtain ⟨i, -, rfl⟩ := Option.map_eq_some_iff.mp h
  exact ⟨i, rfl⟩

theorem part?_eq_some (h : part? cs = some p) : ∃ name indices,
    p = .name (String.ofList name) :: indices ∧ (∀ step ∈ indices, ∃ i, step = .index i) ∧
      (indices = [] → cs = name) := by
  rw [part?] at h
  split at h
  · rename_i name pieces hsplit
    split_ifs at h
    obtain ⟨indices, hindices, rfl⟩ := Option.map_eq_some_iff.mp h
    have hforall := Json.mapM_eq_some_iff.mp hindices
    have hindex := (List.forall₂_and_left indices pieces).mp
      (hforall.flip.imp fun step piece hpiece => ⟨eq_index_of_index? hpiece, hpiece⟩)
    refine ⟨name, indices, rfl, hindex.1, ?_⟩
    rintro rfl
    rw [List.forall₂_nil_right_iff.mp hforall] at hsplit
    rw [← @List.intercalate_splitOn _ cs _ _ '[', hsplit, List.intercalate_singleton]
  · cases h

theorem part?_eq_name (h : part? cs = some p) {more rest : Place}
    (happend : p ++ more = .name n :: rest) (hrest : ∀ i, rest.head? ≠ some (.index i)) :
    cs = n.toList ∧ more = rest := by
  obtain ⟨name, indices, rfl, hindices, hcs⟩ := part?_eq_some h
  obtain ⟨⟨rfl⟩, hmore⟩ := List.cons_eq_cons.mp happend
  cases indices with
  | nil => exact ⟨(hcs rfl).trans String.toList_ofList.symm, hmore⟩
  | cons step indices =>
    obtain ⟨i, rfl⟩ := hindices step List.mem_cons_self
    exact absurd (by rw [← hmore]; rfl) (hrest i)

theorem eq_of_ofName (h : ofName name = [.name g, .name n]) : name = g ++ "." ++ n := by
  rw [ofName] at h
  cases hparts : ofName? name with
  | none =>
    rw [hparts] at h
    cases h
  | some place =>
    rw [hparts, Option.getD_some] at h
    subst h
    obtain ⟨parts, hmapM, hflatten⟩ := Option.map_eq_some_iff.mp hparts
    have hforall := Json.mapM_eq_some_iff.mp hmapM
    have hpieces : name.toList.splitOn '.' = [g.toList, n.toList] := by
      generalize name.toList.splitOn '.' = pieces at hforall
      cases hforall with
      | nil => cases hflatten
      | cons hfirst hforall =>
        obtain ⟨rfl, hflatten⟩ := part?_eq_name hfirst hflatten (by simp)
        cases hforall with
        | nil => cases hflatten
        | cons hsecond hforall =>
          obtain ⟨rfl, hflatten⟩ := part?_eq_name hsecond hflatten (by simp)
          cases hforall with
          | nil => rfl
          | cons hthird _ =>
            obtain ⟨_, _, rfl, -⟩ := part?_eq_some hthird
            cases hflatten
    rw [← String.toList_inj, ← @List.intercalate_splitOn _ name.toList _ _ '.', hpieces]
    simp

end Place

/-! ## Names of variables -/

namespace Layer

theorem toLower_toLower (c : Char) : c.toLower.toLower = c.toLower := by
  by_cases h : c.val ≥ 'A'.val ∧ c.val ≤ 'Z'.val
  · have hlower : c.toLower.val = c.val + ('a'.val - 'A'.val) := congrArg Char.val (dif_pos h)
    have hupper : ¬(c.toLower.val ≥ 'A'.val ∧ c.toLower.val ≤ 'Z'.val) := by
      rw [hlower]
      simp only [ge_iff_le, UInt32.le_iff_toNat_le, UInt32.toNat_add, Char.reduceVal,
        UInt32.reduceToNat, UInt32.reduceSub] at h ⊢
      omega
    exact dif_neg hupper
  · have hself : c.toLower = c := dif_neg h
    rw [hself, hself]

theorem toList_toLower (s : String) : s.toLower.toList = s.toList.map Char.toLower :=
  String.toList_map

theorem mem_dotted {c : Char} {cs : List Char} (h : c ∈ dotted cs) : c = '.' ∨ c ∈ cs := by
  fun_induction dotted cs with
  | case1 rest ih =>
    rcases List.mem_cons.mp h with rfl | h
    · exact .inl rfl
    · exact (ih h).imp id fun hmem => List.mem_cons_of_mem _ (List.mem_cons_of_mem _ hmem)
  | case2 c' rest _ ih =>
    rcases List.mem_cons.mp h with rfl | h
    · exact .inr List.mem_cons_self
    · exact (ih h).imp id (List.mem_cons_of_mem _)
  | case3 => exact .inr h

theorem toLower_of_nameOfVariable? {variableName name : String}
    (h : nameOfVariable? variableName = some name) : ∀ c ∈ name.toList, c.toLower = c := by
  unfold nameOfVariable? at h
  extract_lets cs at h
  split_ifs at h
  cases h
  intro c hc
  rw [String.toList_ofList] at hc
  rcases mem_dotted hc with rfl | hc
  · decide
  · have hmem : c ∈ variableName.toLower.toList := List.mem_of_mem_drop hc
    rw [toList_toLower, List.mem_map] at hmem
    obtain ⟨b, -, rfl⟩ := hmem
    exact toLower_toLower b

theorem toLower_eq_self {name : String} (h : ∀ c ∈ name.toList, c.toLower = c) :
    name.toLower = name := by
  rw [← String.toList_inj, toList_toLower, List.map_congr_left h, List.map_id']

theorem not_isTable_valueOfVariable (name value : String) :
    ¬(valueOfVariable name value).IsTable := by
  unfold valueOfVariable
  extract_lets cs
  split
  · exact id
  · split
    · exact id
    · split
      · exact id
      · exact id
      · split <;> exact id

end Layer

/-! ## The environment -/

namespace Settings.Field

/-- The name of a field in all of the settings. -/
def path (k : Field) : String := k.group ++ "." ++ k.name

/-- The value of the last variable that names a field. Empty variables do not count. -/
def variableValue? (k : Field) (env : List (String × String)) : Option Setting :=
  env.reverse.findSome? fun (variableName, value) =>
    if value ≠ "" ∧ Layer.nameOfVariable? variableName = some k.path then
      some (Layer.valueOfVariable k.path value)
    else none

theorem ofName_path (k : Field) : Place.ofName k.path = [.name k.group, .name k.name] := by
  cases k <;> decide

theorem toLower_group (k : Field) : k.group.toLower = k.group := by
  cases k <;> decide +kernel

theorem toLower_name (k : Field) : k.name.toLower = k.name := by
  cases k <;> decide +kernel

end Settings.Field

namespace Layer

variable {k : Field}

/-- A value that is no table is for the field of just this name. -/
theorem valuesAt_ofName {v : Setting} (hv : ¬v.IsTable) {name : String}
    (hname : ∀ c ∈ name.toList, c.toLower = c) :
    v.valuesAt k (Place.ofName name) = if name = k.path then [v] else [] := by
  split_ifs with h
  · rw [h, k.ofName_path, Setting.valuesAt, if_pos ⟨k.toLower_group, k.toLower_name⟩]
  · unfold Setting.valuesAt
    split
    · rw [Setting.entries_of_not_table hv]
      exact ite_self _
    · rename_i g n hplace
      rw [if_neg]
      rintro ⟨hg, hn⟩
      -- the parts of a name in lower case are in lower case as well
      obtain rfl := Place.eq_of_ofName hplace
      simp only [String.toList_append, List.mem_append] at hname
      rw [toLower_eq_self fun c hc => hname c (.inl (.inl hc))] at hg
      rw [toLower_eq_self fun c hc => hname c (.inr hc)] at hn
      exact h (by rw [hg, hn]; rfl)
    · rfl

theorem values_ofEnvironment (k : Field) (env : List (String × String)) :
    (ofEnvironment env).values k = env.filterMap fun (variableName, value) =>
      if value ≠ "" ∧ nameOfVariable? variableName = some k.path then
        some (valueOfVariable k.path value)
      else none := by
  induction env with
  | nil => rfl
  | cons e rest ih =>
    obtain ⟨variableName, value⟩ := e
    cases hname : nameOfVariable? variableName with
    | none =>
      rw [ofEnvironment, List.filterMap_cons_none (by simp [hname]),
        List.filterMap_cons_none (by simp [hname])]
      exact ih
    | some name =>
      by_cases hvalue : value = ""
      · rw [ofEnvironment, List.filterMap_cons_none (by simp [hname, hvalue]),
          List.filterMap_cons_none (by simp [hvalue])]
        exact ih
      · have hlayer : ofEnvironment ((variableName, value) :: rest) =
            (name, valueOfVariable name value) :: ofEnvironment rest := by
          rw [ofEnvironment, List.filterMap_cons_some]
          · rfl
          · simp [hname, hvalue]
        rw [hlayer, values_cons, valuesAt_ofName
          (not_isTable_valueOfVariable name value) (toLower_of_nameOfVariable? hname)]
        split_ifs with hpath
        · rw [List.filterMap_cons_some (by simp [hname, hvalue, hpath]; rfl), ← ih, hpath]
          rfl
        · rw [List.filterMap_cons_none (by simp [hname, hpath]), ← ih]
          rfl

/-- **The environment gives a field the value of the last variable that names it**, and otherwise
leaves what was there. -/
theorem foldl_values_ofEnvironment (k : Field) (env : List (String × String)) (x : Option Setting) :
    ((ofEnvironment env).values k).foldl (fun x v => v.laid x) x =
      (k.variableValue? env).or x := by
  rw [values_ofEnvironment, Setting.foldl_laid_of_not_table, List.getLast?_eq_head?_reverse,
    ← List.filterMap_reverse, List.head?_filterMap]
  · rfl
  · intro v hv
    obtain ⟨⟨variableName, value⟩, -, hvalue⟩ := List.mem_filterMap.mp hv
    dsimp only at hvalue
    split_ifs at hvalue
    cases hvalue
    exact not_isTable_valueOfVariable _ _

end Layer

end ClusterRegistry
