import ClusterRegistry.Json.Doc

/-!
# Reading records from documents

Two readings of a document exist. The *record* reading looks for the fields it knows: a known field
may be given once, unknown ones are skipped whatever they hold. The *generic* reading keeps
everything, so everything must be keepable; of a repeated field the last one counts.

Both allow `Doc.maxLevels` containers inside each other, counting those that are kept.

* `Doc.record?`, `Doc.items?`, `Doc.text?`, `Doc.flag?`, `Doc.integer?`, `Doc.word?`,
  `Doc.optional?`: the record reading;
* `field?`, `fieldD?`: a field that must be there, and one with a value for its absence;
* `Doc.generic?`: the generic reading.
-/

namespace ClusterRegistry.Json

namespace Doc

/-- The number of containers that may stand inside each other. -/
def maxLevels : Nat := 127

/-! ## Record reading -/

/-- The known fields of a record. It may also be given as an array, in the order of `names`;
then the last ones may be missing. -/
def record? (names : List String) : Doc → Option (List (String × Doc))
  | .object fields => do
    let named ← fields.mapM fun (name, d) => name.map (·, d)
    let known := named.filter (·.1 ∈ names)
    if (known.map (·.1)).Nodup then some known else none
  | .array items => if items.length ≤ names.length then some (names.zip items) else none
  | _ => none

/-- The items of an array. -/
def items? : Doc → Option (List Doc)
  | .array items => some items
  | _ => none

/-- A text. -/
def text? : Doc → Option String
  | .string s => s
  | _ => none

/-- A truth value. -/
def flag? : Doc → Option Bool
  | .bool b => some b
  | _ => none

/-- An integer in bounds. -/
def integer? (b : Bounds) : Doc → Option Int
  | .number n => n.int?.filter (· ∈ b)
  | _ => none

/-- An integer of 64 bits with a sign. -/
def int64? : Doc → Option Int := integer? .int64

/-- An integer of 64 bits without a sign. -/
def nat64? (d : Doc) : Option Nat := (integer? .nat64 d).map Int.toNat

/-- An integer of 32 bits without a sign. -/
def nat32? (d : Doc) : Option Nat := (integer? .nat32 d).map Int.toNat

/-- One of a list of words, written as a text or as the only field of an object, with null. -/
def word? (words : List (String × α)) : Doc → Option α
  | .string (some s) => words.lookup s
  | .object [(some s, .null)] => words.lookup s
  | _ => none

/-- Null, or what `read` takes. -/
def optional? (read : Doc → Option α) : Doc → Option (Option α)
  | .null => some none
  | d => (read d).map some

end Doc

/-- The field of that name, which must be there. -/
def field? (fields : List (String × Doc)) (name : String) (read : Doc → Option α) : Option α :=
  (fields.lookup name).bind read

/-- The field of that name, or `absent` if it is not there. -/
def fieldD? (fields : List (String × Doc)) (name : String) (absent : α) (read : Doc → Option α) :
    Option α :=
  match fields.lookup name with
  | none => some absent
  | some d => read d

/-! ## Generic reading -/

namespace Doc

/-- The fields with the last value of each name. -/
def lastFields : List (Option String × Doc) → List (Option String × Doc)
  | [] => []
  | f :: r => if (r.map (·.1)).contains f.1 then lastFields r else f :: lastFields r

/-- The document with nothing left that cannot be kept, or nothing if it holds such a thing. -/
def generic? : Nat → Doc → Option Doc
  | _, .null => some .null
  | _, .bool b => some (.bool b)
  | _, .number n => if n.IsFinite then some (.number n) else none
  | _, .string s => s.map fun s => .string (some s)
  | 0, .array _ => none
  | levels + 1, .array items => do
    let items ← items.mapM (generic? levels)
    some (.array items)
  | 0, .object _ => none
  | levels + 1, .object fields => do
    let fields ← fields.mapM fun (name, d) => do
      let d ← generic? levels d
      name.map fun n => (some n, d)
    some (.object (lastFields fields))

end Doc

end ClusterRegistry.Json
