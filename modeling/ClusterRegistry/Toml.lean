import ClusterRegistry.Toml.Table
import ClusterRegistry.Toml.Token
import ClusterRegistry.Toml.Word

/-!
# Documents of tables

A document in the format TOML 1.0 has lines with keys and values, and headers that say to which
table the lines below belong.

* `DottedKey`: keys with dots between;
* `Frame`, `Stage`, `Reading.step`: one token onto what has been read, with the open containers on a
  stack;
* `Toml.ofText?`: the values of a document, by their keys.
-/

namespace ClusterRegistry.Toml

/-! ## Keys -/

/-- What has been read of a dotted key, the last part first. A part is due at the start and after
each dot. -/
structure DottedKey where
  back : List String := []
  due : Bool := true

namespace DottedKey

/-- The key with one more part. -/
def part? (k : DottedKey) (s : String) : Option DottedKey :=
  if k.due then some ⟨s :: k.back, false⟩ else none

/-- The key with a dot behind it. -/
def dot? (k : DottedKey) : Option DottedKey := if k.due then none else some ⟨k.back, true⟩

/-- The key with what a word has between two dots, which may be nothing. -/
def bare? (k : DottedKey) (cs : List Char) : Option DottedKey :=
  if cs = [] then some k
  else if cs.all (fun c => IsKeyChar c) then k.part? (String.ofList cs)
  else none

/-- Reads one token. -/
def step (k : DottedKey) : Token → Option DottedKey
  | .blank => some k
  | .text s => k.part? s
  | .word cs =>
    match cs.splitOn '.' with
    | [] => none
    | p :: ps => do ps.foldlM (fun k p => do (← k.dot?).bare? p) (← k.bare? p)
  | _ => none

/-- The parts of the whole key, of which there are fewer than eighty. -/
def parts? (k : DottedKey) : Option (List String) :=
  if k.due ∨ 80 ≤ k.back.length then none else some k.back.reverse

end DottedKey

/-! ## Values -/

/-- What waits for a value: the key of a line, or a container with what it has so far. -/
inductive Frame
  | line (key : List String)
  | list (back : List Setting)
  | record (entries : List (String × Item)) (key : List String)

/-- What has been read of a line, and so what may come next. -/
inductive Stage
  | lineStart
  /-- A bracket has been read, which may be the first one of two. -/
  | bracket
  | header (double : Bool) (key : DottedKey)
  /-- The second closing bracket is missing. -/
  | headerEnd (path : List String)
  | lineKey (key : DottedKey)
  | recordKey (entries : List (String × Item)) (frames : List Frame) (key : DottedKey)
  | value (frames : List Frame)
  /-- A value in a container is complete. -/
  | after (frames : List Frame)
  | lineEnd

/-- The tables so far, the header that is in force, and the line that is being read. -/
structure Reading where
  root : List (String × Item)
  path : List String
  stage : Stage

namespace Reading

/-- A value is complete. -/
def complete (r : Reading) (v : Setting) : List Frame → Option Reading
  | .line key :: _ => do
    let root ← r.root |> Item.within (Item.put v key) r.path
    some { r with root := root, stage := .lineEnd }
  | .list back :: frames => some { r with stage := .after (.list (v :: back) :: frames) }
  | .record es key :: frames => do
    let es ← es |> Item.put v key
    some { r with stage := .after (.record es [] :: frames) }
  | [] => none

/-- Reads a token where a value is due. Containers go into one another fewer than eighty times. -/
def stepValue (r : Reading) (frames : List Frame) (t : Token) : Option Reading :=
  match t, frames with
  | .blank, _ | .lineBreak, .list _ :: _ => some r
  | .openSquare, _ =>
    if frames.length < 80 then some { r with stage := .value (.list [] :: frames) } else none
  | .openCurly, _ =>
    if frames.length < 80 then some { r with stage := .recordKey [] frames {} } else none
  | .closeSquare, .list back :: frames => r.complete (.list back.reverse) frames
  | .text s, _ | .block s, _ => r.complete (.text s) frames
  | .word cs, _ => do r.complete (← Setting.ofWord? cs) frames
  | _, _ => none

/-- Reads a token behind a value in a container. -/
def stepAfter (r : Reading) (frames : List Frame) (t : Token) : Option Reading :=
  match t, frames with
  | .blank, _ | .lineBreak, .list _ :: _ => some r
  | .comma, .list _ :: _ => some { r with stage := .value frames }
  | .comma, .record es _ :: frames => some { r with stage := .recordKey es frames {} }
  | .closeSquare, .list back :: frames => r.complete (.list back.reverse) frames
  | .closeCurly, .record es _ :: frames => r.complete (.table (Item.settings es)) frames
  | _, _ => none

/-- Reads a token of a header. -/
def stepHeader (r : Reading) (double : Bool) (key : DottedKey) (t : Token) : Option Reading :=
  match t with
  | .closeSquare => do
    let path ← key.parts?
    if double then some { r with stage := .headerEnd path }
    else some ⟨← r.root |> Item.openTable path, path, .lineEnd⟩
  | t => do some { r with stage := .header double (← key.step t) }

/-- Reads one token. -/
def step (r : Reading) (t : Token) : Option Reading :=
  match r.stage, t with
  | .lineStart, .lineBreak | .lineStart, .blank => some r
  | .lineStart, .openSquare => some { r with stage := .bracket }
  | .lineStart, t => do some { r with stage := .lineKey (← ({} : DottedKey).step t) }
  | .bracket, .openSquare => some { r with stage := .header true {} }
  | .bracket, t => r.stepHeader false {} t
  | .header double key, t => r.stepHeader double key t
  | .headerEnd path, .closeSquare => do some ⟨← r.root |> Item.openElement path, path, .lineEnd⟩
  | .lineKey key, .equals => do some { r with stage := .value [.line (← key.parts?)] }
  | .lineKey key, t => do some { r with stage := .lineKey (← key.step t) }
  | .recordKey es frames key, .equals => do
    some { r with stage := .value (.record es (← key.parts?) :: frames) }
  | .recordKey [] frames ⟨[], _⟩, .closeCurly => r.complete (.table []) frames
  | .recordKey es frames key, t => do
    some { r with stage := .recordKey es frames (← key.step t) }
  | .value frames, t => r.stepValue frames t
  | .after frames, t => r.stepAfter frames t
  | .lineEnd, .blank => some r
  | .lineEnd, .lineBreak => some { r with stage := .lineStart }
  | _, _ => none

end Reading

/-- The values of a document, by their keys. -/
def ofText? (text : String) : Option (List (String × Setting)) := do
  let r ← (← tokens? text.toList).foldlM Reading.step ⟨[], [], .lineStart⟩
  match r.stage with
  | .lineStart => some (Item.settings r.root)
  | _ => none

end ClusterRegistry.Toml
