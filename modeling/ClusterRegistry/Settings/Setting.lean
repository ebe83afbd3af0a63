import ClusterRegistry.Double
import ClusterRegistry.Entries

/-!
# Settings as trees

What a file, a variable or a set of settings says is a tree of values. Trees are laid over one
another: tables are merged name by name, everything else is replaced.

* `Setting`, `Setting.entries`, `Setting.items`: trees;
* `Setting.mergeInto`: a value for a name of a table;
* `Place`, `Place.ofName`: the way to a value inside a tree, such as `store.endpoints[0]`;
* `Setting.assign`: a value for a place.
-/

namespace ClusterRegistry

/-- A value or a tree of values. -/
inductive Setting
  /-- It is there, but without a value. -/
  | absent
  | flag (b : Bool)
  | integer (i : Int)
  | real (x : Double)
  | text (s : String)
  | list (items : List Setting)
  | table (entries : List (String × Setting))
deriving Repr

namespace Setting

/-- The entries of a table; nothing else has any. -/
def entries : Setting → List (String × Setting)
  | table es => es
  | _ => []

/-- The items of a list; nothing else has any. -/
def items : Setting → List Setting
  | list xs => xs
  | _ => []

/-! ## Tables -/

mutual

/-- Gives a value to a name of a table. Names go in lower case. A table is merged into what is
there already, and one without entries leaves it as it is. -/
def mergeInto (name : String) : Setting → List (String × Setting) → List (String × Setting)
  | .table sub, es =>
    let there := (es.lookup name.toLower).getD (.table [])
    Entries.put name.toLower (if sub.isEmpty then there else .table (mergeAll sub there.entries)) es
  | v, es => Entries.put name.toLower v es

/-- Gives values to names of a table, one after the other. -/
def mergeAll : List (String × Setting) → List (String × Setting) → List (String × Setting)
  | [], es => es
  | (name, v) :: rest, es => mergeAll rest (mergeInto name v es)

end

theorem lookup_mergeInto_of_ne {name other : String} (h : other ≠ name.toLower) (v : Setting)
    (es : List (String × Setting)) : (mergeInto name v es).lookup other = es.lookup other := by
  cases v <;> simp [mergeInto, Entries.lookup_put, h]

/-! ## Lists -/

/-- Changes the item at an index, which counts from the end if it is negative. Items that are
missing in front of it are there from now on, without a value. -/
def changeItem (f : Setting → Setting) (i : Int) (xs : List Setting) : List Setting :=
  let k := if 0 ≤ i then i.toNat else xs.length - i.natAbs
  (xs ++ List.replicate (k + 1 - xs.length) absent).modify k f

end Setting

/-! ## Places -/

/-- One step into a tree. -/
inductive PlaceStep
  | name (n : String)
  | index (i : Int)
deriving DecidableEq, Repr

/-- The way to a value inside a tree. -/
abbrev Place := List PlaceStep

namespace Place

/-- A character of a name. -/
def IsNameChar (c : Char) : Prop := c.isAlphanum ∨ c = '_' ∨ c = '-' ∨ c = ' '

instance (c : Char) : Decidable (IsNameChar c) := by unfold IsNameChar; infer_instance

/-- The characters between the spaces and tabs at both ends. -/
def unpadded (cs : List Char) : List Char :=
  let bare (cs : List Char) : List Char := cs.dropWhile fun c => c = ' ' ∨ c = '\t'
  (bare (bare cs).reverse).reverse

/-- The index that stands in front of a closing bracket, which ends the piece. -/
def index? (piece : List Char) : Option PlaceStep :=
  let digits := unpadded piece.dropLast
  if piece.getLast? = some ']' ∧ digits.head? ≠ some '+' then
    ((Text.integer? digits).filter (· ∈ Bounds.int64)).map .index
  else none

/-- A name with the indices behind it. -/
def part? (cs : List Char) : Option Place :=
  match cs.splitOn '[' with
  | name :: indices =>
    if name ≠ [] ∧ name.all (fun c => IsNameChar c) then
      (indices.mapM index?).map (.name (String.ofList name) :: ·)
    else none
  | [] => none

/-- The place that a name describes: names with dots between, with indices in brackets. -/
def ofName? (name : String) : Option Place :=
  ((name.toList.splitOn '.').mapM part?).map List.flatten

/-- The place of a name. One that describes no place stands for itself. -/
def ofName (name : String) : Place := (ofName? name).getD [.name name]

end Place

/-- Gives a value to a place. What is in the way becomes a table or a list; a table that arrives at
a name is merged. -/
def Setting.assign (v : Setting) : Place → Setting → Setting
  | [], _ => v
  | [.name n], s => .table (v.mergeInto n s.entries)
  | .name n :: rest, s =>
    let there := (s.entries.lookup n.toLower).getD .absent
    .table (Entries.put n.toLower (v.assign rest there) s.entries)
  | .index i :: rest, s => .list (changeItem (v.assign rest) i s.items)

end ClusterRegistry
