import ClusterRegistry.Settings.Layer
import ClusterRegistry.Toml

/-!
# Sources of settings

Settings start from the defaults, the file that the environment names and the environment itself. An
additional file goes on top, and the environment is applied once more, so that it always wins.

* `Layer.ofEnvironment`: variables such as `DOGU_REGISTRY__RETRY__INTERVAL`;
* `SettingsFile.layer?`: a file;
* `Settings.initial?`, `Settings.overridden?`, `Settings.load?`.
-/

namespace ClusterRegistry

/-! ## The environment -/

namespace Layer

/-- The text in front of the variables that count. -/
def variableStart : String := "dogu_registry__"

/-- Double underscores, from the left, are dots. -/
def dotted : List Char → List Char
  | '_' :: '_' :: r => '.' :: dotted r
  | c :: r => c :: dotted r
  | [] => []

/-- The name of the place that a variable is for. Case does not matter. -/
def nameOfVariable? (name : String) : Option String :=
  let cs := name.toLower.toList
  if variableStart.toList.isPrefixOf cs then
    some (String.ofList (dotted (cs.drop variableStart.length)))
  else none

/-- The value of a variable: a truth value or a number, if it reads as one, or else a text. The list
of endpoints is written with commas, without trimming. -/
def valueOfVariable (name value : String) : Setting :=
  let cs := value.toList
  if value.toLower = "true" then .flag true
  else if value.toLower = "false" then .flag false
  else match (Text.integer? cs).filter (· ∈ Bounds.int64), Double.ofChars? cs with
    | some i, _ => .integer i
    | none, some x => .real x
    | none, none =>
      if name = "store.endpoints" then
        .list ((cs.splitOn ',').map fun e => .text (String.ofList e))
      else .text value

/-- The layer of the environment; empty variables do not count. -/
def ofEnvironment (env : List (String × String)) : Layer :=
  env.filterMap fun (variableName, value) => do
    let name ← nameOfVariable? variableName
    if value = "" then none else some (name, valueOfVariable name value)

end Layer

/-! ## Files and their order -/

/-- A file that is named somewhere; it may not exist. -/
inductive SettingsFile
  | missing
  | present (text : String)
deriving DecidableEq, Repr

/-- The text without a byte order mark at its start, if there is one. -/
def SettingsFile.unmarked (text : String) : String :=
  match text.toList with
  | '\uFEFF' :: cs => String.ofList cs
  | _ => text

/-- The layer of a file that is named. Up to two byte order marks are skipped: one belongs to the
file, the other one to the document in it. -/
def SettingsFile.layer? : SettingsFile → Option Layer
  | missing => none
  | present text => Toml.ofText? (unmarked (unmarked text))

namespace Settings

/-- The defaults, the file that the environment names, the environment. -/
def initial? (file : Option SettingsFile) (env : List (String × String)) : Option Settings := do
  let base ← ({} : Settings).layer?
  let named ← match file with
    | none => some []
    | some f => f.layer?
  ofSetting? (.ofLayers [base, named, .ofEnvironment env])

/-- The settings with a file on top, and the environment above it. -/
def overridden? (s : Settings) (file : SettingsFile) (env : List (String × String)) :
    Option Settings := do
  let base ← s.layer?
  let named ← file.layer?
  ofSetting? (.ofLayers [base, named, .ofEnvironment env])

/-- The settings from all sources, if they can be read and are usable. -/
def load? (file override : Option SettingsFile) (env : List (String × String)) :
    Option Settings := do
  let s ← initial? file env
  let s ← match override with
    | none => some s
    | some f => s.overridden? f env
  match s.validate with
  | .ok () => some s
  | .error _ => none

end Settings

end ClusterRegistry
