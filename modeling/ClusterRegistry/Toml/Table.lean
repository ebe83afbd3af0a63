import ClusterRegistry.Settings.Setting

/-!
# Tables of a document

The tables of a document grow line by line. How a table came to be decides which lines may still add
to it.

* `Origin`, `Item`: what is under a key;
* `Item.put`: a value under a dotted key;
* `Item.within`: a change to the table under a header;
* `Item.openTable`, `Item.openElement`: headers;
* `Item.setting`, `Item.settings`: what the tables say.
-/

namespace ClusterRegistry.Toml

/-- How a table came to be. -/
inductive Origin
  /-- It has a header of its own. -/
  | stated
  /-- It lies on the way to the header of another table. -/
  | passed
  /-- It lies on the way of a dotted key. -/
  | dotted
deriving DecidableEq, Repr

/-- What is under a key: a value that is complete, a table, or a list of tables of which the last
one is still growing. -/
inductive Item
  | value (v : Setting)
  | table (origin : Origin) (entries : List (String × Item))
  | tables (front : List (List (String × Item))) (last : List (String × Item))

namespace Item

/-! ## Values -/

/-- Puts a value under a key of a table; further keys lead into tables inside. A key cannot be given
twice, and the last table on the way must not have come to be without dotted keys. -/
def put (v : Setting) : List String → List (String × Item) → Option (List (String × Item))
  | [], _ => none
  | [key], es => if (es.lookup key).isSome then none else some (Entries.put key (.value v) es)
  | key :: key' :: rest, es =>
    match es.lookup key with
    | none => do
      let sub ← put v (key' :: rest) []
      some (Entries.put key (.table .dotted sub) es)
    | some (.table origin sub) => do
      if origin = .stated ∨ (origin = .passed ∧ rest = []) then none
      else
        let sub ← put v (key' :: rest) sub
        some (Entries.put key (.table origin sub) es)
    | some (.tables front last) => do
      if rest = [] then none
      else
        let last ← put v (key' :: rest) last
        some (Entries.put key (.tables front last) es)
    | some (.value _) => none

/-! ## Headers -/

/-- Changes the table at the end of a path. Tables on the way come to be if they are not there, and
of a list of tables the last one is meant. -/
def within (f : List (String × Item) → Option (List (String × Item))) :
    List String → List (String × Item) → Option (List (String × Item))
  | [], es => f es
  | key :: rest, es =>
    match es.lookup key with
    | none => do
      let sub ← within f rest []
      some (Entries.put key (.table .passed sub) es)
    | some (.table origin sub) => do
      let sub ← within f rest sub
      some (Entries.put key (.table origin sub) es)
    | some (.tables front last) => do
      let last ← within f rest last
      some (Entries.put key (.tables front last) es)
    | some (.value _) => none

/-- Opens the table of a header. It must be a new one, or one that so far was only passed. -/
def openTable (path : List String) (es : List (String × Item)) :
    Option (List (String × Item)) := do
  let key ← path.getLast?
  es |> within (fun es =>
    match es.lookup key with
    | none => some (Entries.put key (.table .stated []) es)
    | some (.table .passed sub) => some (Entries.put key (.table .stated sub) es)
    | _ => none) path.dropLast

/-- Opens a new table at the end of a list of tables, which may be a new one. -/
def openElement (path : List String) (es : List (String × Item)) :
    Option (List (String × Item)) := do
  let key ← path.getLast?
  es |> within (fun es =>
    match es.lookup key with
    | none => some (Entries.put key (.tables [] []) es)
    | some (.tables front last) => some (Entries.put key (.tables (front ++ [last]) []) es)
    | _ => none) path.dropLast

/-! ## What the tables say -/

mutual

/-- The value of an item. -/
def setting : Item → Setting
  | .value v => v
  | .table _ es => .table (settings es)
  | .tables front last => .list (elements front ++ [.table (settings last)])

/-- The values of a table, by their keys. -/
def settings : List (String × Item) → List (String × Setting)
  | [] => []
  | (key, x) :: rest => (key, x.setting) :: settings rest

/-- The values of tables in a list. -/
def elements : List (List (String × Item)) → List Setting
  | [] => []
  | es :: rest => .table (settings es) :: elements rest

end

end Item

end ClusterRegistry.Toml
