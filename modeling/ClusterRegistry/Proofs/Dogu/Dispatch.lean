import ClusterRegistry.Proofs.Dogu.Document
import ClusterRegistry.Proofs.Json.Agreement

/-!
# Which schema reads a text

The readers of the two schemas take different ways. The older schema wants a name where the newer
one wants a record, so they meet only in texts without a dependency, and there they agree. The order
in which schemas are tried does not matter.

* `Dogu.ofDoc?_lasts`: a description is read alike before and after the generic reading;
* `Dogu.recordsOfNames_of_records`: where there are records, there are no names;
* `Dogu.readV1_readV2`: what both readers accept;
* `Dogu.readFirst_eq_ok_iff`: a text is read if one of the schemas reads it;
* **`Dogu.readFirst_swap`**: no text is read in two ways;
* **`Dogu.read_write_cross`**: what either schema makes of the texts of both.
-/

namespace ClusterRegistry

open Json

/-! ## Readers that last -/

theorem Dependency.ofDoc?_lasts : Doc.Lasts Dependency.ofDoc? :=
  .ofFields <| .bind (.fieldD .text? _ _) fun _ => .bind (.field .text? _) fun _ =>
    .bind (.fieldD .text? _ _) fun _ => .pure _

namespace Dogu

/-- **A description is read alike before and after the generic reading.** -/
theorem ofDoc?_lasts : Doc.Lasts ofDoc? :=
  .ofFields <| .bind (.field .text? _) fun _ => .bind (.field .text? _) fun _ =>
    .bind (.fieldD .text? _ _) fun _ => .bind (.fieldD .text? _ _) fun _ =>
    .bind (.fieldD .text? _ _) fun _ => .bind (.fieldD (.list .text?) _ _) fun _ =>
    .bind (.fieldD .text? _ _) fun _ => .bind (.fieldD .text? _ _) fun _ =>
    .bind (.fieldD .text? _ _) fun _ => .bind (.fieldD (.list Dependency.ofDoc?_lasts) _ _) fun _ =>
    .bind (.fieldD (.list Dependency.ofDoc?_lasts) _ _) fun _ => .pure _

/-! ## Records where names may stand -/

section Lists

variable {list : String} {fields changed : List (Option String × Doc)} {deps : List Dependency}

/-- The dependencies in a list of records. -/
def dependencies? (d : Doc) : Option (List Dependency) :=
  d.items?.bind fun items => items.mapM Dependency.ofDoc?

theorem eq_nil_of_names {items records : List Doc}
    (hnames : items.mapM recordOfName? = some records)
    (hdeps : items.mapM Dependency.ofDoc? = some deps) : items = [] := by
  cases items with
  | nil => rfl
  | cons item rest =>
    obtain ⟨record, -, hrecord, -⟩ := List.forall₂_cons_left_iff.mp (mapM_eq_some_iff.mp hnames)
    obtain ⟨dep, -, hdep, -⟩ := List.forall₂_cons_left_iff.mp (mapM_eq_some_iff.mp hdeps)
    -- A text is no record of a dependency, and nothing else is a name.
    cases item with
    | string text => cases hdep
    | null => cases hrecord
    | bool b => cases hrecord
    | number n => cases hrecord
    | array items => cases hrecord
    | object fields => cases hrecord

theorem recordsOfNames_cons_of_ne {name : Option String} {d : Doc} (h : name ≠ some list) :
    recordsOfNames list ((name, d) :: fields) =
      (recordsOfNames list fields).map ((name, d) :: ·) := by
  cases name with
  | none => cases d <;> rfl
  | some n =>
    have hn : n ≠ list := fun e => h (congrArg some e)
    cases d <;> simp [recordsOfNames, hn]

/-- **Where the list holds records, it is accepted as one of names only if it is empty; nothing
changes then.** -/
theorem recordsOfNames_of_records (h : recordsOfNames list fields = .ok changed)
    (hdeps : ∀ d, (some list, d) ∈ fields → dependencies? d = some deps) :
    changed = fields ∧ ((∃ d, (some list, d) ∈ fields) → deps = []) := by
  induction fields generalizing changed with
  | nil =>
    cases h
    refine ⟨rfl, ?_⟩
    rintro ⟨_, hd⟩
    exact absurd hd List.not_mem_nil
  | cons p rest ih =>
    obtain ⟨name, d⟩ := p
    by_cases hname : name = some list
    · subst hname
      have hd := hdeps d List.mem_cons_self
      obtain ⟨items, hitems, hread⟩ := Option.bind_eq_some_iff.mp hd
      cases d with
      | array items' =>
        obtain rfl : items' = items := Option.some.inj hitems
        rw [recordsOfNames, if_pos rfl] at h
        split at h
        case h_2 => cases h
        case h_1 records hrecords =>
          obtain rfl := eq_nil_of_names hrecords hread
          cases h
          obtain rfl := Option.some.inj hrecords
          exact ⟨rfl, fun _ => (Option.some.inj hread).symm⟩
      | null => cases hitems
      | bool b => cases hitems
      | number n => cases hitems
      | string t => cases hitems
      | object fields => cases hitems
    · rw [recordsOfNames_cons_of_ne hname] at h
      cases hrest : recordsOfNames list rest with
      | error e =>
        rw [hrest] at h
        cases h
      | ok changed' =>
        rw [hrest] at h
        cases h
        obtain ⟨rfl, hnil⟩ := ih hrest fun e he => hdeps e (List.mem_cons_of_mem _ he)
        refine ⟨rfl, ?_⟩
        rintro ⟨e, he⟩
        have hrest := (List.mem_cons.mp he).resolve_left fun h => hname (congrArg Prod.fst h).symm
        exact hnil ⟨e, hrest⟩

end Lists

/-! ## Texts that both schemas read -/

theorem readV1_eq_ok_iff {raw : String} {d : Dogu} : readV1 raw = .ok d ↔
    ∃ fields first second,
      (Doc.ofText? raw).bind (Doc.generic? Doc.maxLevels) = some (.object fields) ∧
      recordsOfNames "Dependencies" fields = .ok first ∧
      recordsOfNames "OptionalDependencies" first = .ok second ∧
      ofDoc? (.object second) = some d := by
  constructor
  · intro h
    unfold readV1 at h
    split at h
    case h_2 => cases h
    case h_1 fields hfields =>
      simp only [bind, Except.bind] at h
      split at h
      case h_1 => cases h
      case h_2 first hfirst =>
        split at h
        case h_1 => cases h
        case h_2 second hsecond =>
          split at h
          case h_2 => cases h
          case h_1 d' hd =>
            cases h
            exact ⟨fields, first, second, hfields, hfirst, hsecond, hd⟩
  · rintro ⟨fields, first, second, hfields, hfirst, hsecond, hd⟩
    exact readV1_of_fields hfields hfirst hsecond hd

/-- What the fields of a record say about the list under one name. -/
def HasList (fields : List (Option String × Doc)) (list : String) (deps : List Dependency) : Prop :=
  (∀ d, (some list, d) ∈ fields → dependencies? d = some deps) ∧
    ((∀ d, (some list, d) ∉ fields) → deps = [])

/-- **What the reader of names does not refuse where there are records, it leaves as it is.** -/
theorem HasList.recordsOfNames {fields changed : List (Option String × Doc)} {list : String}
    {deps : List Dependency} (hlist : HasList fields list deps)
    (h : recordsOfNames list fields = .ok changed) : changed = fields ∧ deps = [] := by
  obtain ⟨hsame, hnil⟩ := recordsOfNames_of_records h hlist.1
  refine ⟨hsame, ?_⟩
  by_cases hd : ∃ d, (some list, d) ∈ fields
  · exact hnil hd
  · exact hlist.2 (not_exists.mp hd)

theorem hasList_of_ofDoc? {fields : List (Option String × Doc)} {d : Dogu}
    (h : ofDoc? (.object fields) = some d) : HasList fields "Dependencies" d.dependencies ∧
      HasList fields "OptionalDependencies" d.optionalDependencies := by
  simp only [ofDoc?, Option.bind_eq_bind, Option.bind_eq_some_iff] at h
  obtain ⟨known, hknown, _, _, _, _, _, _, _, _, _, _, _, _, _, _, _, _, _, _, _, hdeps, _, hopts,
    hd⟩ := h
  cases hd
  exact ⟨Doc.fieldD?_record? hknown (by decide) hdeps, Doc.fieldD?_record? hknown (by decide) hopts⟩

/-- **What both readers accept, they read alike, and it has no dependencies.** -/
theorem readV1_readV2 {raw : String} {d d' : Dogu} (h₁ : readV1 raw = .ok d)
    (h₂ : readV2 raw = .ok d') :
    d = d' ∧ d.dependencies = [] ∧ d.optionalDependencies = [] := by
  obtain ⟨fields, first, second, hfields, hfirst, hsecond, hd⟩ := readV1_eq_ok_iff.mp h₁
  obtain ⟨doc, hdoc, hkept⟩ := Option.bind_eq_some_iff.mp hfields
  have hd' : ofDoc? doc = some d' := by
    rw [readV2, hdoc, Option.bind_some] at h₂
    split at h₂
    case h_2 => cases h₂
    case h_1 e he =>
      cases h₂
      exact he
  obtain ⟨hdeps, hopts⟩ := hasList_of_ofDoc? (ofDoc?_lasts hkept hd')
  obtain ⟨rfl, hnoDeps⟩ := hdeps.recordsOfNames hfirst
  obtain ⟨rfl, hnoOpts⟩ := hopts.recordsOfNames hsecond
  obtain rfl := Option.some.inj (hd.symm.trans (ofDoc?_lasts hkept hd'))
  exact ⟨rfl, hnoDeps, hnoOpts⟩

theorem read_v1_eq_ok_iff {raw : String} {d : Dogu} :
    read .v1 raw = .ok d ↔ readV1 raw = .ok d := by
  rw [read]
  cases readV1 raw <;> simp [Except.mapError]

theorem read_v2_eq_ok_iff {raw : String} {d : Dogu} :
    read .v2 raw = .ok d ↔ readV2 raw = .ok d := by
  rw [read]
  cases readV2 raw <;> simp [Except.mapError]

theorem read_unique {raw : String} {schema schema' : Schema} {d d' : Dogu}
    (h : read schema raw = .ok d) (h' : read schema' raw = .ok d') : d = d' := by
  cases schema with
  | v1 =>
    cases schema' with
    | v1 => exact Except.ok.inj (h.symm.trans h')
    | v2 => exact (readV1_readV2 (read_v1_eq_ok_iff.mp h) (read_v2_eq_ok_iff.mp h')).1
  | v2 =>
    cases schema' with
    | v1 => exact (readV1_readV2 (read_v1_eq_ok_iff.mp h') (read_v2_eq_ok_iff.mp h)).1.symm
    | v2 => exact Except.ok.inj (h.symm.trans h')

/-- **The schemas read a text together if one of them does, in whatever order.** -/
theorem readFirst_eq_ok_iff {schemas : List Schema} {raw : String} {d : Dogu} :
    readFirst schemas raw = .ok d ↔ ∃ schema ∈ schemas, read schema raw = .ok d := by
  induction schemas with
  | nil => simp [readFirst]
  | cons schema rest ih =>
    rw [readFirst, List.exists_mem_cons_iff, ← ih]
    cases hread : read schema raw with
    | ok d' =>
      refine ⟨Or.inl, fun h => h.elim id fun hrest => ?_⟩
      obtain ⟨other, -, hother⟩ := ih.mp hrest
      exact congrArg Except.ok (read_unique hread hother)
    | error e =>
      cases readFirst rest raw <;> simp

/-- **No text is read in two ways**: what both schemas accept they read alike, so the order in which
they are tried changes nothing. -/
theorem readFirst_swap (raw : String) :
    (∀ d d', read .v1 raw = .ok d → read .v2 raw = .ok d' → d = d') ∧
      ∀ d, readFirst [.v1, .v2] raw = .ok d ↔ readFirst [.v2, .v1] raw = .ok d := by
  refine ⟨fun d d' => read_unique, fun d => ?_⟩
  simp only [readFirst_eq_ok_iff, List.exists_mem_cons_iff, List.not_mem_nil, false_and,
    exists_false, or_false]
  exact or_comm

/-- A text in which a field comes twice that neither schema knows. -/
def strangeText : String :=
  "\x7b\"Name\":\"a/b\",\"X\":[1],\"Version\":\"1\",\"Dependencies\":[],\"X\":null\x7d"

theorem readFirst_swap_strangeText : ∃ d, read .v1 strangeText = .ok d ∧
    read .v2 strangeText = .ok d ∧ readFirst [.v2, .v1] strangeText = .ok d := by
  have h₁ : read .v1 strangeText = .ok { name := "a/b", version := "1" } := by decide +kernel
  have h₂ : read .v2 strangeText = .ok { name := "a/b", version := "1" } := by decide +kernel
  have hfirst : readFirst [.v1, .v2] strangeText = .ok { name := "a/b", version := "1" } := by
    rw [readFirst, h₁]
  have hsame := (readFirst_swap strangeText).1 _ _ h₁ h₂
  exact ⟨_, h₁, hsame ▸ h₂, ((readFirst_swap strangeText).2 _).mp hfirst⟩

/-! ## Texts that are written -/

section Write

variable (d : Dogu)

theorem textField_kept (name text : String) : ∀ p ∈ textField name text,
    Doc.generic? (Doc.maxLevels - 1) p.2 = some p.2 := by
  unfold textField
  split
  · exact fun p hp => absurd hp List.not_mem_nil
  · intro p hp
    rw [List.mem_singleton.mp hp]
    rfl

theorem generic?_doc (hdeps : d.dependencies = []) (hopts : d.optionalDependencies = []) :
    Doc.generic? Doc.maxLevels d.doc = some d.doc := by
  obtain ⟨fields, hdoc, -, hnames, -⟩ := d.exists_fields
  rw [hdoc]
  refine Doc.generic?_record ?_ (hnames.nodup (by decide))
  obtain rfl := List.map_injective_iff.mpr Doc.nameField_injective (Doc.object.inj hdoc)
  rw [hdeps, hopts]
  simp only [List.forall_mem_append]
  have hnone : ∀ name, ∀ p ∈ listField name [], Doc.generic? (Doc.maxLevels - 1) p.2 = some p.2 :=
    fun _ p hp => absurd hp List.not_mem_nil
  refine ⟨⟨⟨⟨⟨⟨⟨⟨⟨?_, textField_kept _ _⟩, textField_kept _ _⟩, textField_kept _ _⟩,
    fun p hp => (listField_texts p hp).2⟩, textField_kept _ _⟩, textField_kept _ _⟩,
    textField_kept _ _⟩, hnone _⟩, hnone _⟩
  exact List.forall_mem_cons.mpr ⟨rfl, List.forall_mem_singleton.mpr rfl⟩

theorem readV1_write_v2 (hdeps : d.dependencies = []) (hopts : d.optionalDependencies = []) :
    readV1 (d.write .v2) = .ok d := by
  obtain ⟨fields, hdoc, hdescribes, -, -⟩ := d.exists_fields
  have hraw : (Doc.ofText? (d.write .v2)).bind (Doc.generic? Doc.maxLevels) =
      some (.object (named fields)) := by
    rw [write, Doc.ofText?_text d.doc_legible, Option.bind_some, d.generic?_doc hdeps hopts, hdoc]
    rfl
  have hnone : ∀ list, fields.lookup list = none →
      recordsOfNames list (named fields) = .ok (named fields) := by
    intro list hlist
    refine recordsOfNames_of_notMem fun hmem => ?_
    obtain ⟨p, hp, rfl⟩ := List.mem_map.mp hmem
    simpa using List.lookup_eq_none_iff.mp hlist p hp
  have hread : ofDoc? (.object (named fields)) = some d := by
    have h := d.ofDoc?_doc
    rwa [hdoc] at h
  refine readV1_of_fields hraw (hnone _ ?_) (hnone _ ?_) hread
  · rw [hdescribes.dependencies, hdeps]
    rfl
  · rw [hdescribes.optionalDependencies, hopts]
    rfl

/-- **The older schema reads a text of the newer one only if there is no dependency in it.** -/
theorem read_v1_write_v2_eq_error_iff : (∃ e, read .v1 (d.write .v2) = .error e) ↔
    d.dependencies ≠ [] ∨ d.optionalDependencies ≠ [] := by
  rw [← not_and_or]
  constructor
  · rintro ⟨e, he⟩ ⟨hdeps, hopts⟩
    rw [read_v1_eq_ok_iff.mpr (d.readV1_write_v2 hdeps hopts)] at he
    cases he
  · intro hsome
    cases h : read .v1 (d.write .v2) with
    | error e => exact ⟨e, rfl⟩
    | ok d' =>
      obtain ⟨rfl, hnone⟩ := readV1_readV2 (read_v1_eq_ok_iff.mp h) d.readV2_write
      exact absurd hnone hsome

theorem read_v2_write_v1_eq_error_iff : (∃ e, read .v2 (d.write .v1) = .error e) ↔
    d.dependencies ≠ [] ∨ d.optionalDependencies ≠ [] := by
  rw [← not_and_or, read, readV2_write_v1]
  by_cases h : d.dependencies = [] ∧ d.optionalDependencies = []
  · simp [Except.mapError, h]
  · simp [Except.mapError, h]

/-- **Both schemas read what they write**, the older one as far as it goes; each refuses the text of
the other exactly if there is a dependency; tried one after the other, in either order, they read
both texts as their own schema does. -/
theorem read_write_cross :
    read .v2 (d.write .v2) = .ok d ∧ read .v1 (d.write .v1) = .ok d.reduced ∧
    ((∃ e, read .v1 (d.write .v2) = .error e) ↔
      d.dependencies ≠ [] ∨ d.optionalDependencies ≠ []) ∧
    ((∃ e, read .v2 (d.write .v1) = .error e) ↔
      d.dependencies ≠ [] ∨ d.optionalDependencies ≠ []) ∧
    readFirst [.v1, .v2] (d.write .v2) = .ok d ∧ readFirst [.v2, .v1] (d.write .v2) = .ok d ∧
    readFirst [.v1, .v2] (d.write .v1) = .ok d.reduced ∧
    readFirst [.v2, .v1] (d.write .v1) = .ok d.reduced := by
  have hv2 : read .v2 (d.write .v2) = .ok d := read_v2_eq_ok_iff.mpr d.readV2_write
  have hv1 : read .v1 (d.write .v1) = .ok d.reduced := read_v1_eq_ok_iff.mpr d.readV1_write
  have hfirst : ∀ {schema raw} {d' : Dogu}, read schema raw = .ok d' →
      readFirst [.v1, .v2] raw = .ok d' ∧ readFirst [.v2, .v1] raw = .ok d' := by
    intro schema raw d' h
    constructor
    · exact readFirst_eq_ok_iff.mpr ⟨schema, by cases schema <;> decide, h⟩
    · exact readFirst_eq_ok_iff.mpr ⟨schema, by cases schema <;> decide, h⟩
  exact ⟨hv2, hv1, d.read_v1_write_v2_eq_error_iff, d.read_v2_write_v1_eq_error_iff,
    (hfirst hv2).1, (hfirst hv2).2, (hfirst hv1).1, (hfirst hv1).2⟩

end Write

end Dogu

end ClusterRegistry
