import ClusterRegistry.Failure
import ClusterRegistry.Node.Document

/-!
# Descriptions of dogus

A description is written in one of two schemas. `v2` writes dependencies as records, the fields of
the dogu in their own order; `v1` writes dependencies as names, all fields in the order of their
names. Empty fields are left out, apart from name and version.

* `Dogu.doc`, `Dogu.doc1`, `Dogu.write`: writing;
* `Dogu.ofDoc?`, `Dogu.recordsOfNames`, `Dogu.read`: reading; `v1` takes the generic reading of the
  text, turns names into records and goes on with the record reading;
* `Dogu.readFirst`: the first of several schemas that can read a text.
-/

namespace ClusterRegistry

open Json

/-! ## Writing -/

/-- A field that is left out when the text is empty. -/
def textField (name text : String) : List (String × Doc) :=
  if text = "" then [] else [(name, .str text)]

/-- The record of a dependency. -/
def Dependency.doc (d : Dependency) : Doc :=
  .record [("type", .str d.kind), ("name", .str d.name), ("version", .str d.version)]

namespace Dogu

/-- The description with dependencies as records. -/
def doc (d : Dogu) : Doc :=
  .record <|
    [("Name", .str d.name), ("Version", .str d.version)] ++
    textField "DisplayName" d.displayName ++ textField "Description" d.description ++
    textField "Category" d.category ++ listField "Tags" (d.tags.map .str) ++
    textField "Logo" d.logo ++ textField "URL" d.url ++ textField "Image" d.image ++
    listField "Dependencies" (d.dependencies.map Dependency.doc) ++
    listField "OptionalDependencies" (d.optionalDependencies.map Dependency.doc)

/-- The description with dependencies as names, in the order of the field names. -/
def doc1 (d : Dogu) : Doc :=
  .record <|
    textField "Category" d.category ++
    listField "Dependencies" (d.dependencies.map fun e => .str e.name) ++
    textField "Description" d.description ++ textField "DisplayName" d.displayName ++
    textField "Image" d.image ++ textField "Logo" d.logo ++ [("Name", .str d.name)] ++
    listField "OptionalDependencies" (d.optionalDependencies.map fun e => .str e.name) ++
    listField "Tags" (d.tags.map .str) ++ textField "URL" d.url ++
    [("Version", .str d.version)]

/-- The text of a description. -/
def write (schema : Schema) (d : Dogu) : String :=
  match schema with
  | .v1 => d.doc1.text
  | .v2 => d.doc.text

end Dogu

/-! ## Reading -/

/-- The dependency that a record describes. -/
def Dependency.ofDoc? (d : Doc) : Option Dependency := do
  let f ← d.record? ["type", "name", "version"]
  some {
    kind := ← fieldD? f "type" "dogu" Doc.text?
    name := ← field? f "name" Doc.text?
    version := ← fieldD? f "version" "" Doc.text? }

namespace Dogu

/-- The fields of a description, in order. -/
def fieldNames : List String :=
  ["Name", "Version", "DisplayName", "Description", "Category", "Tags", "Logo", "URL", "Image",
    "Dependencies", "OptionalDependencies"]

/-- The dogu that a description with dependencies as records describes. -/
def ofDoc? (d : Doc) : Option Dogu := do
  let f ← d.record? fieldNames
  let list {α : Type} (name : String) (read : Doc → Option α) : Option (List α) :=
    fieldD? f name [] fun d => do (← d.items?).mapM read
  some {
    name := ← field? f "Name" Doc.text?
    version := ← field? f "Version" Doc.text?
    displayName := ← fieldD? f "DisplayName" "" Doc.text?
    description := ← fieldD? f "Description" "" Doc.text?
    category := ← fieldD? f "Category" "" Doc.text?
    tags := ← list "Tags" Doc.text?
    logo := ← fieldD? f "Logo" "" Doc.text?
    url := ← fieldD? f "URL" "" Doc.text?
    image := ← fieldD? f "Image" "" Doc.text?
    dependencies := ← list "Dependencies" Dependency.ofDoc?
    optionalDependencies := ← list "OptionalDependencies" Dependency.ofDoc? }

/-- The record that stands for a name in a list of dependencies. -/
def recordOfName? : Doc → Option Doc
  | .string (some name) => some (Dependency.dogu name "").doc
  | _ => none

/-- The fields with the names in one list of dependencies turned into records. A field that is no
list stays as it is. -/
def recordsOfNames (list : String) :
    List (Option String × Doc) → Except Unreadable (List (Option String × Doc))
  | [] => .ok []
  | (name, d) :: r =>
    match name, d with
    | some n, .array items =>
      if n = list then
        match items.mapM recordOfName? with
        | some items => .ok ((some n, .array items) :: r)
        | none => .error (.entry list)
      else (recordsOfNames list r).map ((name, d) :: ·)
    | _, _ => (recordsOfNames list r).map ((name, d) :: ·)

/-- Reads a description with dependencies as names. -/
def readV1 (raw : String) : Except Unreadable Dogu :=
  match (Doc.ofText? raw).bind (Doc.generic? Doc.maxLevels) with
  | some (.object fields) => do
    let fields ← recordsOfNames "Dependencies" fields
    let fields ← recordsOfNames "OptionalDependencies" fields
    match ofDoc? (.object fields) with
    | some d => .ok d
    | none => .error .malformed
  | _ => .error .malformed

/-- Reads a description with dependencies as records. -/
def readV2 (raw : String) : Except Unreadable Dogu :=
  match (Doc.ofText? raw).bind ofDoc? with
  | some d => .ok d
  | none => .error .malformed

/-- Reads a description in one schema. -/
def read (schema : Schema) (raw : String) : Except FormatFailure Dogu :=
  match schema with
  | .v1 => (readV1 raw).mapError (.unreadable .v1)
  | .v2 => (readV2 raw).mapError (.unreadable .v2)

/-- Reads a description in the first schema that can. If none can, the first one says why. -/
def readFirst : List Schema → String → Except FormatFailure Dogu
  | [], _ => .error .noSchemas
  | schema :: rest, raw =>
    match read schema raw with
    | .ok d => .ok d
    | .error reason =>
      match readFirst rest raw with
      | .ok d => .ok d
      | .error _ => .error reason

/-- The order in which schemas are tried where nothing else is said. -/
def defaultSchemas : List Schema := [.v2, .v1]

end Dogu

end ClusterRegistry
