import ClusterRegistry.Dogu.Document
import ClusterRegistry.Proofs.Node.Fields

/-!
# Reading back descriptions

A description that is written in the newer schema is read as it was. The older schema keeps of each
dependency no more than its name.

* `Dogu.reduced`: a dogu as the older schema knows it;
* `Dogu.Describes`, `Dogu.ofDoc?_eq`: fields in any order, and the dogu that they describe;
* `Dogu.recordsOfNames_listField`: names that become records;
* **`Dogu.readFirst_write`**: what is written in either schema is read back as far as it goes.
-/

namespace ClusterRegistry

open Json

/-! ## Fields that may be left out -/

section Fields

variable {fields : List (String × Doc)} {name other text : String}

theorem textField_names (name text : String) :
    ((textField name text).map (·.1)).Sublist [name] := by
  unfold textField
  split
  · exact List.nil_sublist _
  · exact List.Sublist.refl _

theorem notMem_of_names {names : List String}
    (h : (fields.map (·.1)).Sublist names) (hname : name ∉ names) : name ∉ fields.map (·.1) :=
  fun hmem => hname (h.subset hmem)

@[simp] theorem lookup_textField_of_ne (h : other ≠ name) :
    (textField name text).lookup other = none := by
  unfold textField
  split
  · rfl
  · simp [List.lookup_cons, beq_false_of_ne h]

theorem fieldD?_textField (h : fields.lookup name = (textField name text).lookup name) :
    fieldD? fields name "" Doc.text? = some text := by
  rw [fieldD?, h]
  by_cases hempty : text = ""
  · simp [textField, hempty]
  · simp [textField, hempty, Doc.text?, Doc.str]

end Fields

theorem textField_legible {name text : String} : ∀ p ∈ textField name text, p.2.Legible := by
  unfold textField
  split <;> simp [Doc.str, Doc.Legible]

/-! ## Dependencies -/

namespace Dependency

theorem ofDoc?_doc (d : Dependency) : ofDoc? d.doc = some d := by
  have hread : d.doc.record? ["type", "name", "version"] =
      some [("type", .str d.kind), ("name", .str d.name), ("version", .str d.version)] :=
    Doc.record?_record (List.Sublist.refl ["type", "name", "version"]) (by decide) fun _ h => h
  simp [ofDoc?, hread, field?, fieldD?, List.lookup_cons, Doc.text?, Doc.str]

theorem doc_legible (d : Dependency) : d.doc.Legible :=
  Doc.legible_record (by simp [Doc.str, Doc.Legible])

theorem ofDoc?_str (name : String) : ofDoc? (.str name) = none := rfl

end Dependency

namespace Dogu

/-- The dogu with no more than the names of its dependencies. -/
def reduced (d : Dogu) : Dogu :=
  { d with
    dependencies := d.dependencies.map fun e => .dogu e.name ""
    optionalDependencies := d.optionalDependencies.map fun e => .dogu e.name "" }

/-! ## Fields in any order -/

/-- Fields that describe a dogu whose dependencies are written somehow. -/
structure Describes (fields : List (String × Doc)) (d : Dogu) (deps opts : List Doc) : Prop where
  name : fields.lookup "Name" = some (.str d.name)
  version : fields.lookup "Version" = some (.str d.version)
  displayName : fields.lookup "DisplayName" =
    (textField "DisplayName" d.displayName).lookup "DisplayName"
  description : fields.lookup "Description" =
    (textField "Description" d.description).lookup "Description"
  category : fields.lookup "Category" = (textField "Category" d.category).lookup "Category"
  tags : fields.lookup "Tags" = (listField "Tags" (d.tags.map .str)).lookup "Tags"
  logo : fields.lookup "Logo" = (textField "Logo" d.logo).lookup "Logo"
  url : fields.lookup "URL" = (textField "URL" d.url).lookup "URL"
  image : fields.lookup "Image" = (textField "Image" d.image).lookup "Image"
  dependencies : fields.lookup "Dependencies" =
    (listField "Dependencies" deps).lookup "Dependencies"
  optionalDependencies : fields.lookup "OptionalDependencies" =
    (listField "OptionalDependencies" opts).lookup "OptionalDependencies"

/-- **Fields in any order describe the dogu, if the dependencies can be read.** -/
theorem ofDoc?_eq {doc : Doc} {fields : List (String × Doc)} {d : Dogu} {deps opts : List Doc}
    (h : Describes fields d deps opts) (hread : doc.record? fieldNames = some fields) :
    ofDoc? doc = (deps.mapM Dependency.ofDoc?).bind fun ds =>
      (opts.mapM Dependency.ofDoc?).bind fun os =>
        some { d with dependencies := ds, optionalDependencies := os } := by
  have htags : (d.tags.map Doc.str).mapM Doc.text? = some d.tags :=
    mapM_map_eq_some fun _ _ => rfl
  have hname : field? fields "Name" Doc.text? = some d.name := by
    rw [field?, h.name]
    rfl
  have hversion : field? fields "Version" Doc.text? = some d.version := by
    rw [field?, h.version]
    rfl
  simp only [ofDoc?, Option.bind_eq_bind, hread, hname, hversion,
    fieldD?_textField h.displayName, fieldD?_textField h.description,
    fieldD?_textField h.category, fieldD?_listField h.tags, htags, fieldD?_textField h.logo,
    fieldD?_textField h.url, fieldD?_textField h.image, fieldD?_listField h.dependencies,
    fieldD?_listField h.optionalDependencies, Option.bind_some]

/-! ## Descriptions with dependencies as records -/

theorem exists_fields (d : Dogu) : ∃ fields, d.doc = .record fields ∧
    Describes fields d (d.dependencies.map Dependency.doc)
      (d.optionalDependencies.map Dependency.doc) ∧
    (fields.map (·.1)).Sublist fieldNames ∧ ∀ p ∈ fields, p.2.Legible := by
  refine ⟨_, rfl, ?_, ?_, ?_⟩
  · constructor <;> simp [List.lookup_append, List.lookup_cons]
  · simp only [List.map_append]
    exact ((((((((((List.Sublist.refl ["Name", "Version"]).append (textField_names _ _)).append
      (textField_names _ _)).append (textField_names _ _)).append (listField_names _ _)).append
      (textField_names _ _)).append (textField_names _ _)).append (textField_names _ _)).append
      (listField_names _ _)).append (listField_names _ _))
  · have hlegible : ∀ l : List Dependency, ∀ e ∈ l.map Dependency.doc, e.Legible := by
      intro l e he
      obtain ⟨x, -, rfl⟩ := List.mem_map.mp he
      exact x.doc_legible
    simp only [List.forall_mem_append]
    refine ⟨⟨⟨⟨⟨⟨⟨⟨⟨?_, textField_legible⟩, textField_legible⟩, textField_legible⟩,
      listField_legible ?_⟩, textField_legible⟩, textField_legible⟩, textField_legible⟩,
      listField_legible (hlegible _)⟩, listField_legible (hlegible _)⟩
    · simp [Doc.str, Doc.Legible]
    · simp [Doc.str, Doc.Legible]

theorem mapM_ofDoc?_doc (l : List Dependency) :
    (l.map Dependency.doc).mapM Dependency.ofDoc? = some l :=
  mapM_map_eq_some fun e _ => e.ofDoc?_doc

theorem ofDoc?_doc (d : Dogu) : ofDoc? d.doc = some d := by
  obtain ⟨fields, hdoc, hdescribes, hnames, -⟩ := d.exists_fields
  have hread : d.doc.record? fieldNames = some fields := by
    rw [hdoc]
    exact Doc.record?_record hnames (by decide) fun _ h => h
  rw [ofDoc?_eq hdescribes hread, mapM_ofDoc?_doc, mapM_ofDoc?_doc]
  rfl

theorem doc_legible (d : Dogu) : d.doc.Legible := by
  obtain ⟨fields, hdoc, -, -, hlegible⟩ := d.exists_fields
  rw [hdoc]
  exact Doc.legible_record hlegible

/-- **A description in the newer schema is read as it was written.** -/
theorem readV2_write (d : Dogu) : readV2 (d.write .v2) = .ok d := by
  rw [readV2, write, Doc.ofText?_text d.doc_legible, Option.bind_some, ofDoc?_doc]

/-! ## Descriptions with dependencies as names -/

/-- The fields between the two lists of dependencies, in the order of their names. -/
def middleFields (d : Dogu) : List (String × Doc) :=
  textField "Description" d.description ++ textField "DisplayName" d.displayName ++
  textField "Image" d.image ++ textField "Logo" d.logo ++ [("Name", .str d.name)]

/-- The fields behind the lists of dependencies. -/
def lastFields (d : Dogu) : List (String × Doc) :=
  listField "Tags" (d.tags.map .str) ++ textField "URL" d.url ++ [("Version", .str d.version)]

/-- The fields of a description in the order of their names. -/
def sortedFields (d : Dogu) (deps opts : List Doc) : List (String × Doc) :=
  textField "Category" d.category ++ listField "Dependencies" deps ++ d.middleFields ++
  listField "OptionalDependencies" opts ++ d.lastFields

/-- The names of all fields, in order. -/
def sortedNames : List String :=
  ["Category", "Dependencies", "Description", "DisplayName", "Image", "Logo", "Name",
    "OptionalDependencies", "Tags", "URL", "Version"]

section Sorted

variable (d : Dogu) (deps opts : List Doc)

theorem doc1_eq : d.doc1 = .record (d.sortedFields (d.dependencies.map fun e => .str e.name)
    (d.optionalDependencies.map fun e => .str e.name)) := by
  simp only [doc1, sortedFields, middleFields, lastFields, List.append_assoc]

theorem middleFields_names : (d.middleFields.map (·.1)).Sublist
    ["Description", "DisplayName", "Image", "Logo", "Name"] := by
  simp only [middleFields, List.map_append]
  exact ((((textField_names _ _).append (textField_names _ _)).append
    (textField_names _ _)).append (textField_names _ _)).append (List.Sublist.refl ["Name"])

theorem lastFields_names : (d.lastFields.map (·.1)).Sublist ["Tags", "URL", "Version"] := by
  simp only [lastFields, List.map_append]
  exact ((listField_names _ _).append (textField_names _ _)).append
    (List.Sublist.refl ["Version"])

theorem sortedFields_names : ((d.sortedFields deps opts).map (·.1)).Sublist sortedNames := by
  simp only [sortedFields, List.map_append]
  exact ((((textField_names _ _).append (listField_names _ _)).append
    d.middleFields_names).append (listField_names _ _)).append d.lastFields_names

theorem describes_sortedFields : Describes (d.sortedFields deps opts) d deps opts := by
  constructor <;> simp [sortedFields, middleFields, lastFields, List.lookup_append,
    List.lookup_cons]

theorem record?_sortedFields :
    (Doc.record (d.sortedFields deps opts)).record? fieldNames = some (d.sortedFields deps opts) :=
  Doc.record?_record (d.sortedFields_names deps opts) (by decide) (by decide)

variable {deps opts}

theorem forall_mem_sortedFields {P : Doc → Prop} (text : ∀ t, P (.str t))
    (tags : ∀ p ∈ listField "Tags" (d.tags.map .str), P p.2)
    (dependencies : ∀ p ∈ listField "Dependencies" deps, P p.2)
    (optionalDependencies : ∀ p ∈ listField "OptionalDependencies" opts, P p.2) :
    ∀ p ∈ d.sortedFields deps opts, P p.2 := by
  have hsingle : ∀ name t : String, ∀ p ∈ [(name, Doc.str t)], P p.2 := by
    intro name t p hp
    rw [List.mem_singleton.mp hp]
    exact text t
  have htext : ∀ name t, ∀ p ∈ textField name t, P p.2 := by
    intro name t
    unfold textField
    split
    · exact fun p hp => absurd hp List.not_mem_nil
    · exact hsingle name t
  simp only [sortedFields, middleFields, lastFields, List.forall_mem_append]
  exact ⟨⟨⟨⟨htext _ _, dependencies⟩, ⟨⟨⟨htext _ _, htext _ _⟩, htext _ _⟩, htext _ _⟩,
    hsingle _ _⟩, optionalDependencies⟩, ⟨tags, htext _ _⟩, hsingle _ _⟩

end Sorted

theorem listField_texts {name : String} {texts : List String} :
    ∀ p ∈ listField name (texts.map Doc.str),
      p.2.Legible ∧ Doc.generic? (Doc.maxLevels - 1) p.2 = some p.2 := by
  intro p hp
  cases texts with
  | nil => cases hp
  | cons t rest =>
    rw [List.mem_singleton.mp hp]
    refine ⟨Doc.itemsLegible_of_forall ?_, Doc.generic?_texts (Doc.maxLevels - 2) (t :: rest)⟩
    intro e he
    obtain ⟨_, -, rfl⟩ := List.mem_map.mp he
    trivial

theorem doc1_values (d : Dogu) : ∀ p ∈ d.sortedFields (d.dependencies.map fun e => .str e.name)
    (d.optionalDependencies.map fun e => .str e.name),
      p.2.Legible ∧ Doc.generic? (Doc.maxLevels - 1) p.2 = some p.2 := by
  have hnames : ∀ l : List Dependency,
      l.map (fun e => Doc.str e.name) = (l.map (·.name)).map Doc.str := by
    intro l
    rw [List.map_map]
    rfl
  rw [hnames, hnames]
  exact d.forall_mem_sortedFields
    (P := fun e => e.Legible ∧ Doc.generic? (Doc.maxLevels - 1) e = some e)
    (fun t => ⟨trivial, rfl⟩) listField_texts listField_texts listField_texts

theorem ofText?_write_v1 (d : Dogu) : Doc.ofText? (d.write .v1) = some d.doc1 := by
  refine Doc.ofText?_text ?_
  rw [doc1_eq]
  exact Doc.legible_record fun p hp => (d.doc1_values p hp).1

theorem generic?_doc1 (d : Dogu) : Doc.generic? Doc.maxLevels d.doc1 = some d.doc1 := by
  rw [doc1_eq]
  exact Doc.generic?_record (fun p hp => (d.doc1_values p hp).2)
    (List.Nodup.sublist (d.sortedFields_names _ _) (by decide))

/-! ## Names that become records -/

/-- Fields with their names given. -/
def named (fields : List (String × Doc)) : List (Option String × Doc) :=
  fields.map fun (n, d) => (some n, d)

theorem recordsOfNames_of_notMem {list : String} {fields : List (String × Doc)}
    (h : list ∉ fields.map (·.1)) : recordsOfNames list (named fields) = .ok (named fields) := by
  induction fields with
  | nil => rfl
  | cons p rest ih =>
    obtain ⟨n, d⟩ := p
    have hn : n ≠ list := fun e => h (by simp [e])
    have hrest : list ∉ rest.map (·.1) := fun hmem => h (List.mem_cons_of_mem _ hmem)
    change recordsOfNames list ((some n, d) :: named rest) = .ok ((some n, d) :: named rest)
    cases d <;> simp [recordsOfNames, hn, ih hrest, Except.map]

theorem recordsOfNames_append {list : String} {before : List (String × Doc)}
    (h : list ∉ before.map (·.1)) (rest : List (Option String × Doc)) :
    recordsOfNames list (named before ++ rest) =
      (recordsOfNames list rest).map (named before ++ ·) := by
  induction before with
  | nil =>
    change recordsOfNames list rest = _
    cases recordsOfNames list rest <;> rfl
  | cons p before ih =>
    obtain ⟨n, d⟩ := p
    have hn : n ≠ list := fun e => h (by simp [e])
    have hbefore : list ∉ before.map (·.1) := fun hmem => h (List.mem_cons_of_mem _ hmem)
    have hcons : recordsOfNames list ((some n, d) :: (named before ++ rest)) =
        (recordsOfNames list (named before ++ rest)).map ((some n, d) :: ·) := by
      cases d <;> simp [recordsOfNames, hn]
    change recordsOfNames list ((some n, d) :: (named before ++ rest)) = _
    rw [hcons, ih hbefore]
    cases recordsOfNames list rest <;> rfl

/-- The records that stand for the names of dependencies. -/
def nameRecords (l : List Dependency) : List Doc := l.map fun e => (Dependency.dogu e.name "").doc

/-- **The names in a list of dependencies become records, and nothing else changes.** -/
theorem recordsOfNames_listField {list : String} {before after : List (String × Doc)}
    (l : List Dependency) (hbefore : list ∉ before.map (·.1)) (hafter : list ∉ after.map (·.1)) :
    recordsOfNames list (named (before ++ listField list (l.map fun e => .str e.name) ++ after)) =
      .ok (named (before ++ listField list (nameRecords l) ++ after)) := by
  have hsplit : ∀ ds : List Doc, named (before ++ listField list ds ++ after) =
      named before ++ (named (listField list ds) ++ named after) := by
    intro ds
    simp [named]
  have hlist : recordsOfNames list
      (named (listField list (l.map fun e => .str e.name)) ++ named after) =
      .ok (named (listField list (nameRecords l)) ++ named after) := by
    cases l with
    | nil => exact recordsOfNames_of_notMem hafter
    | cons e rest =>
      have hrecords : ((e :: rest).map fun e => Doc.str e.name).mapM recordOfName? =
          some (nameRecords (e :: rest)) := by
        rw [List.mapM_map]
        exact mapM_eq_some_map fun _ _ => rfl
      change recordsOfNames list
        ((some list, .array ((e :: rest).map fun e => Doc.str e.name)) :: named after) = _
      rw [recordsOfNames, if_pos rfl, hrecords]
      rfl
  rw [hsplit, hsplit, recordsOfNames_append hbefore, hlist]
  rfl

theorem readV1_of_fields {raw : String} {fields first second : List (Option String × Doc)}
    {d : Dogu} (hraw : (Doc.ofText? raw).bind (Doc.generic? Doc.maxLevels) = some (.object fields))
    (hfirst : recordsOfNames "Dependencies" fields = .ok first)
    (hsecond : recordsOfNames "OptionalDependencies" first = .ok second)
    (hread : ofDoc? (.object second) = some d) : readV1 raw = .ok d := by
  simp [readV1, hraw, hfirst, hsecond, hread, bind, Except.bind]

section Read

variable (d : Dogu)

theorem recordsOfNames_dependencies (opts : List Doc) : recordsOfNames "Dependencies"
    (named (d.sortedFields (d.dependencies.map fun e => .str e.name) opts)) =
      .ok (named (d.sortedFields (nameRecords d.dependencies) opts)) := by
  have hsplit : ∀ deps, d.sortedFields deps opts = textField "Category" d.category ++
      listField "Dependencies" deps ++
      (d.middleFields ++ listField "OptionalDependencies" opts ++ d.lastFields) := by
    simp [sortedFields]
  have hafter : (((d.middleFields ++ listField "OptionalDependencies" opts ++ d.lastFields)).map
      (·.1)).Sublist ((["Description", "DisplayName", "Image", "Logo", "Name"] ++
        ["OptionalDependencies"]) ++ ["Tags", "URL", "Version"]) := by
    simp only [List.map_append]
    exact (d.middleFields_names.append (listField_names _ _)).append d.lastFields_names
  rw [hsplit, hsplit]
  exact recordsOfNames_listField _ (notMem_of_names (textField_names _ _) (by decide))
    (notMem_of_names hafter (by decide))

theorem recordsOfNames_optionalDependencies (deps : List Doc) :
    recordsOfNames "OptionalDependencies"
      (named (d.sortedFields deps (d.optionalDependencies.map fun e => .str e.name))) =
      .ok (named (d.sortedFields deps (nameRecords d.optionalDependencies))) := by
  have hbefore : ((textField "Category" d.category ++ listField "Dependencies" deps ++
      d.middleFields).map (·.1)).Sublist ((["Category"] ++ ["Dependencies"]) ++
        ["Description", "DisplayName", "Image", "Logo", "Name"]) := by
    simp only [List.map_append]
    exact ((textField_names _ _).append (listField_names _ _)).append d.middleFields_names
  exact recordsOfNames_listField _ (notMem_of_names hbefore (by decide))
    (notMem_of_names d.lastFields_names (by decide))

theorem mapM_nameRecords (l : List Dependency) : (nameRecords l).mapM Dependency.ofDoc? =
    some (l.map fun e => .dogu e.name "") := by
  rw [nameRecords, List.mapM_map]
  exact mapM_eq_some_map fun e _ => Dependency.ofDoc?_doc _

/-- **Of a description in the older schema, the names of the dependencies are read.** -/
theorem readV1_write : readV1 (d.write .v1) = .ok d.reduced := by
  have hread := ofDoc?_eq
    (d.describes_sortedFields (nameRecords d.dependencies) (nameRecords d.optionalDependencies))
    (d.record?_sortedFields _ _)
  rw [mapM_nameRecords, mapM_nameRecords] at hread
  have hdeps := d.recordsOfNames_dependencies
    (d.optionalDependencies.map fun e => .str e.name)
  have hopts := d.recordsOfNames_optionalDependencies (nameRecords d.dependencies)
  have hraw : (Doc.ofText? (d.write .v1)).bind (Doc.generic? Doc.maxLevels) =
      some (.object (named (d.sortedFields (d.dependencies.map fun e => .str e.name)
        (d.optionalDependencies.map fun e => .str e.name)))) := by
    rw [ofText?_write_v1, Option.bind_some, generic?_doc1, doc1_eq]
    rfl
  exact readV1_of_fields hraw hdeps hopts hread

/-- A description in the older schema is one in the newer schema too if there is no dependency. -/
theorem readV2_write_v1 : readV2 (d.write .v1) =
    if d.dependencies = [] ∧ d.optionalDependencies = [] then .ok d
    else .error .malformed := by
  have hread := ofDoc?_eq
    (d.describes_sortedFields (d.dependencies.map fun e => .str e.name)
      (d.optionalDependencies.map fun e => .str e.name)) (d.record?_sortedFields _ _)
  have hnone : ∀ (e : Dependency) (l : List Dependency),
      ((e :: l).map fun e => Doc.str e.name).mapM Dependency.ofDoc? = none := by
    intro e l
    rw [List.map_cons, List.mapM_cons, Dependency.ofDoc?_str]
    rfl
  rw [readV2, ofText?_write_v1, Option.bind_some, doc1_eq, hread]
  cases hdeps : d.dependencies with
  | cons e l =>
    rw [hnone, if_neg (by simp)]
    rfl
  | nil =>
    cases hopts : d.optionalDependencies with
    | cons e l =>
      rw [hnone, if_neg (by simp)]
      rfl
    | nil =>
      rw [if_pos ⟨rfl, rfl⟩]
      cases d
      subst hdeps hopts
      rfl

/-- What the schema keeps of a dogu. -/
def kept : Schema → Dogu
  | .v1 => d.reduced
  | .v2 => d

/-- **What is written in either schema is read back, as far as the schema keeps it.** -/
theorem readFirst_write (schema : Schema) :
    readFirst defaultSchemas (d.write schema) = .ok (d.kept schema) := by
  cases schema with
  | v2 =>
    have h : read .v2 (d.write .v2) = .ok d := by
      rw [read, readV2_write]
      rfl
    rw [defaultSchemas, readFirst, h]
    rfl
  | v1 =>
    have hv1 : read .v1 (d.write .v1) = .ok d.reduced := by
      rw [read, readV1_write]
      rfl
    by_cases hnone : d.dependencies = [] ∧ d.optionalDependencies = []
    · have hv2 : read .v2 (d.write .v1) = .ok d := by
        rw [read, readV2_write_v1, if_pos hnone]
        rfl
      have hd : d.reduced = d := by
        cases d
        obtain ⟨rfl, rfl⟩ := hnone
        rfl
      rw [defaultSchemas, readFirst, hv2, kept, hd]
    · have hv2 : read .v2 (d.write .v1) = .error (.unreadable .v2 .malformed) := by
        rw [read, readV2_write_v1, if_neg hnone]
        rfl
      rw [defaultSchemas, readFirst, hv2, readFirst, hv1]
      rfl

end Read

end Dogu

end ClusterRegistry
