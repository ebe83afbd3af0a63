import ClusterRegistry.Http.Address
import ClusterRegistry.Node.Document
import ClusterRegistry.Request
import ClusterRegistry.Text.Utf8

/-!
# Requests to members

A store of several members is asked over HTTP. Members are tried in a circle until one answers; only
a connection that fails or an answer that does not come leads on to the next.

* `HttpRequest`, `Call.method`, `Call.params`: requests as they are sent;
* `Fate`, `Http.decode`: what may become of one, and what an answer means;
* `Http.tryEach`, `Http.execute`: members in turn.
-/

namespace ClusterRegistry

/-- A request to a member. -/
structure HttpRequest where
  method : String
  address : Address
deriving DecidableEq, Repr

/-- What becomes of a request. -/
inductive Fate
  /-- An answer, with the text that tells the index of the store, if there is one. -/
  | answered (status : Nat) (index : Option String) (body : List UInt8)
  /-- An answer that breaks off. -/
  | broken
  /-- No connection, or one that ends without an answer. -/
  | lost
  /-- No answer in time. -/
  | silent
deriving DecidableEq, Repr

/-! ## Requests -/

/-- The method of a call. -/
def Call.method : Call → String
  | .request (.get ..) | .wait .. => "GET"
  | .request (.set ..) => "PUT"
  | .request (.delete ..) => "DELETE"

/-- A parameter that is there or not. -/
def flagParam (name : String) (b : Bool) : List (String × String) :=
  if b then [(name, "true")] else []

/-- The parameters of a call, in order. A lifetime is sent in whole seconds. -/
def Call.params : Call → List (String × String)
  | .request (.get _ o) => flagParam "recursive" o.recursive ++ flagParam "sorted" o.sorted
  | .request (.set _ value o) =>
    (if o.dir then [("dir", "true")] else if o.refresh then [] else [("value", value)]) ++
      (o.lifetime.toList.map fun t => ("ttl", toString (t / 1000))) ++
      flagParam "refresh" o.refresh ++
      (match o.presence with
        | .ignored => []
        | .mustExist => [("prevExist", "true")]
        | .mustNotExist => [("prevExist", "false")])
  | .request (.delete _ o) => flagParam "recursive" o.recursive ++ flagParam "dir" o.dir
  | .wait _ o =>
    [("wait", "true")] ++ flagParam "recursive" o.recursive ++
      (if 0 < o.after then [("waitIndex", toString (o.after + 1))] else [])

namespace Http

/-! ## Answers -/

/-- The index that a text tells: digits, perhaps with a plus sign, that fit 64 bits. -/
def indexOf (s : String) : Nat :=
  let isEdge (c : Char) : Bool := c = ' ' || c = '\t'
  let cs := ((s.toList.dropWhile isEdge).reverse.dropWhile isEdge).reverse
  let digits : List Char := match cs with
    | '+' :: ds => ds
    | ds => ds
  let n := Text.decimal digits
  if digits ≠ [] ∧ digits.all Char.isDigit ∧ (n : Int) ∈ Bounds.nat64 then n else 0

/-- What an answer means. A success must be a response; anything else may be a refusal. -/
def decode (member : String) (status : Nat) (index : Option String) (body : List UInt8) :
    Except RequestFailure Response :=
  let d := Json.Doc.ofSymbols? (Text.symbolsOfBytes body)
  if 200 ≤ status ∧ status < 300 then
    match d.bind (Response.ofDoc? ((index.map indexOf).getD 0) Json.Doc.maxLevels) with
    | some r => .ok r
    | none => .error (.badBody "<json error>")
  else match d.bind Refusal.ofDoc? with
    | some r => .error (.refused r)
    | none => .error (.badStatus member status)

/-! ## Members in turn -/

/-- Asks one member after the other, until one answers or cannot be addressed. `last` is what became
of the request so far. -/
def tryEach (send : σ → HttpRequest → σ × Fate) (timeout : Nat) (c : Call) :
    List String → RequestFailure → σ → σ × Except RequestFailure Response
  | [], last, s => (s, .error last)
  | member :: rest, _, s =>
    match Address.of? member c.path c.params with
    | none => (s, .error (.badEndpoint s!"{member}: <url error>"))
    | some address =>
      match send s ⟨c.method, address⟩ with
      | (s, .answered status index body) => (s, decode member status index body)
      | (s, .broken) => (s, .error (.unreachable member "<transport error>"))
      | (s, .silent) => tryEach send timeout c rest (.timedOut (Duration.nanosOfMillis timeout)) s
      | (s, .lost) => tryEach send timeout c rest (.unreachable member "<transport error>") s

/-- Asks the members in a circle that starts at one of them. -/
def execute (send : σ → HttpRequest → σ × Fate) (timeout : Nat) (members : List String)
    (start : Nat) (s : σ) (c : Call) : σ × Except RequestFailure Response :=
  tryEach send timeout c (members.rotateLeft start) .noEndpoints s

end Http

end ClusterRegistry
