import ClusterRegistry.Settings
import ClusterRegistry.Settings.Setting

/-!
# Layers of settings

Settings come from several places. Each gives a layer: values for names of places. A later layer
wins, one place at a time. Values are taken as far as they can be understood: a number may be
written as a text, a truth value counts as 1 or 0, and a record may be a list of its fields.

* `Layer`, `Layer.laidOver`, `Setting.ofLayers`: layers, one over the other;
* `Setting.int?`, `Setting.nat?`, `Setting.text?`, `Setting.shape?`: what fields make of a value;
* `Settings.layer?`, `Settings.ofSetting?`: settings as a layer, and back.
-/

namespace ClusterRegistry

/-- Values for the names of places. -/
abbrev Layer := List (String × Setting)

/-- A layer laid over a tree. -/
def Layer.laidOver (upper : Layer) (lower : Setting) : Setting :=
  upper.foldl (fun s (name, v) => v.assign (Place.ofName name) s) lower

/-- The tree of some layers, the lowest one first. -/
def Setting.ofLayers (layers : List Layer) : Setting :=
  layers.foldl (fun s l => l.laidOver s) (.table [])

/-! ## Fields -/

namespace Setting

/-- The words that count as truth values where a number is expected. -/
def flagWords : List (String × Int) :=
  [("true", 1), ("on", 1), ("yes", 1), ("false", 0), ("off", 0), ("no", 0)]

/-- The number in bounds that a value stands for. Numbers with a fraction are rounded and moved into
the bounds, all others have to lie in them. -/
def bounded? (b : Bounds) : Setting → Option Int
  | flag v => some (if v then 1 else 0)
  | integer i => if i ∈ b then some i else none
  | real x => some (x.roundInto b)
  | text s =>
    match flagWords.lookup s.toLower with
    | some i => some i
    | none => (Text.integer? s.toList).filter (· ∈ b)
  | absent | list _ | table _ => none

/-- A number of 64 bits with a sign. -/
def int? : Setting → Option Int := bounded? .int64

/-- A number of 64 bits without a sign; a text must not have a minus sign, not even before zero. -/
def nat? (s : Setting) : Option Nat :=
  match s with
  | .text t => if t.toList.head? = some '-' then none else (bounded? .nat64 s).map Int.toNat
  | _ => (bounded? .nat64 s).map Int.toNat

/-- A text; truth values and numbers are written out. -/
def text? : Setting → Option String
  | flag b => some (if b then "true" else "false")
  | integer i => some (toString i)
  | real x => some x.text
  | text s => some s
  | absent | list _ | table _ => none

/-- A list of texts. -/
def texts? : Setting → Option (List String)
  | list items => items.mapM text?
  | _ => none

/-- The name of a shape, in any case of letters. -/
def shapeOf? (name : String) : Option BackoffShape :=
  BackoffShape.all.find? fun b => b.label = name.toLower

/-- A shape or none. It may be written as a table in which the name of the shape stands alone. -/
def shape? : Setting → Option (Option BackoffShape)
  | absent => some none
  | text s => (shapeOf? s).map some
  | table [(name, _)] => (shapeOf? name).map some
  | _ => none

/-! ## Records -/

/-- The fields of a record, by their names or, in a list, in the given order. -/
def fields? (names : List String) : Setting → Option (List (String × Setting))
  | table es => some es
  | list items => some (names.zip items)
  | _ => none

/-- A field of a record, as `read` takes it, or `fallback` if it is not there. -/
def field? (fields : List (String × Setting)) (name : String) (fallback : α)
    (read : Setting → Option α) : Option α :=
  match fields.lookup name with
  | none => some fallback
  | some s => read s

end Setting

/-! ## Settings and layers -/

/-- The names of the fields, in order. -/
def StoreSettings.fieldNames : List String := ["endpoints", "request_timeout_ms"]

/-- The names of the fields, in order. -/
def RetryPolicy.fieldNames : List String := ["interval", "max_retry_count", "type", "max_interval"]

/-- The names of the fields, in order. -/
def WatchSettings.fieldNames : List String := ["buffer_size"]

/-- The settings of the store as a tree. An empty list leaves nothing behind. -/
def StoreSettings.setting (s : StoreSettings) : Setting :=
  .table <|
    (if s.endpoints = [] then [] else [("endpoints", .list (s.endpoints.map .text))]) ++
      [("request_timeout_ms", .integer s.requestTimeout)]

/-- A policy as a tree. -/
def RetryPolicy.setting (p : RetryPolicy) : Setting :=
  .table
    [("interval", .integer p.interval), ("max_retry_count", .integer p.maxRetryCount),
      ("type", match p.shape with | none => .absent | some b => .text b.label),
      ("max_interval", .integer p.maxInterval)]

/-- The settings of watches as a tree. -/
def WatchSettings.setting (w : WatchSettings) : Setting :=
  .table [("buffer_size", .integer w.bufferSize)]

/-- Settings as a layer. A number beyond 63 bits has no place in one. -/
def Settings.layer? (s : Settings) : Option Layer :=
  if (s.store.requestTimeout : Int) ∈ Bounds.int64 ∧ (s.watch.bufferSize : Int) ∈ Bounds.int64 then
    some [("store", s.store.setting), ("retry", s.retry.setting), ("watch", s.watch.setting)]
  else none

open Setting in
/-- The settings of the store that a tree gives; what it lacks has its default. -/
def StoreSettings.ofSetting? (s : Setting) : Option StoreSettings := do
  let f ← s.fields? fieldNames
  let absent : StoreSettings := {}
  some {
    endpoints := ← field? f "endpoints" absent.endpoints texts?
    requestTimeout := ← field? f "request_timeout_ms" absent.requestTimeout nat? }

open Setting in
/-- The policy that a tree gives; what it lacks has its default. -/
def RetryPolicy.ofSetting? (s : Setting) : Option RetryPolicy := do
  let f ← s.fields? fieldNames
  let absent : RetryPolicy := {}
  some {
    interval := ← field? f "interval" absent.interval int?
    maxRetryCount := ← field? f "max_retry_count" absent.maxRetryCount int?
    shape := ← field? f "type" absent.shape shape?
    maxInterval := ← field? f "max_interval" absent.maxInterval int? }

open Setting in
/-- The settings of watches that a tree gives; what it lacks has its default. -/
def WatchSettings.ofSetting? (s : Setting) : Option WatchSettings := do
  let f ← s.fields? fieldNames
  let absent : WatchSettings := {}
  some { bufferSize := ← field? f "buffer_size" absent.bufferSize nat? }

open Setting in
/-- The settings that a tree gives; what it lacks has its default. -/
def Settings.ofSetting? (s : Setting) : Option Settings := do
  let f ← s.fields? ["store", "retry", "watch"]
  some {
    store := ← field? f "store" {} StoreSettings.ofSetting?
    retry := ← field? f "retry" {} RetryPolicy.ofSetting?
    watch := ← field? f "watch" {} WatchSettings.ofSetting? }

end ClusterRegistry
