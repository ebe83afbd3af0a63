import ClusterRegistry.Duration

/-!
# Failures of a single request

A request fails because the store refuses it, with a document that carries a code, or because no
usable answer arrives. Every failure is classified once, here.

* `FailureKind`: the key is absent, a repetition may help, or it will not;
* `Refusal`, `Refusal.ofCode`, `Refusal.kind`: the store's own answer;
* `RequestFailure`, `RequestFailure.kind`, `RequestFailure.message`: every way a request fails.
-/

namespace ClusterRegistry

/-- What a failure says about the key and about a repetition of the request. -/
inductive FailureKind
  | notFound | transient | permanent
deriving DecidableEq, Repr

/-- The name of a kind, as counters and answers spell it. -/
def FailureKind.label : FailureKind → String
  | .notFound => "not_found"
  | .transient => "transient"
  | .permanent => "permanent"

/-! ## Refusals -/

/-- The document with which the store refuses a request. -/
structure Refusal where
  code : Nat
  message : String
  cause : String
  index : Nat
deriving DecidableEq, Repr

namespace Refusal

def keyNotFound : Nat := 100
def testFailed : Nat := 101
def notFile : Nat := 102
def notDir : Nat := 104
def nodeExists : Nat := 105
def rootReadOnly : Nat := 107
def dirNotEmpty : Nat := 108
def unauthorized : Nat := 110
def lifetimeNotANumber : Nat := 202
def eventIndexCleared : Nat := 401

/-- The message that goes with a code. -/
def messageOf (code : Nat) : String :=
  if code = keyNotFound then "Key not found"
  else if code = testFailed then "Compare failed"
  else if code = notFile then "Not a file"
  else if code = notDir then "Not a directory"
  else if code = nodeExists then "Key already exists"
  else if code = rootReadOnly then "Root is read only"
  else if code = dirNotEmpty then "Directory not empty"
  else if code = unauthorized then "The request requires user authentication"
  else if code = lifetimeNotANumber then "The given TTL in POST form is not a number"
  else if code = eventIndexCleared then "The event in requested index is outdated and cleared"
  else "Store error"

/-- The refusal with the message of its code. -/
def ofCode (code : Nat) (cause : String) (index : Nat) : Refusal :=
  ⟨code, messageOf code, cause, index⟩

/-- The codes from 100 to 299 are final, 100 itself meaning an absent key. -/
def kind (r : Refusal) : FailureKind :=
  if r.code = keyNotFound then .notFound
  else if 101 ≤ r.code ∧ r.code ≤ 299 then .permanent
  else .transient

/-- The text of a refusal. -/
def text (r : Refusal) : String :=
  s!"{r.message} ({r.cause}) [code {r.code}, index {r.index}]"

end Refusal

/-! ## Requests without an answer -/

/-- Every way a single request fails. -/
inductive RequestFailure
  /-- The store refused. -/
  | refused (refusal : Refusal)
  /-- The connection to a member of the store failed. -/
  | unreachable (endpoint reason : String)
  /-- No answer within so many nanoseconds. -/
  | timedOut (nanos : Nat)
  /-- A status without success and without a refusal. -/
  | badStatus (endpoint : String) (status : Nat)
  /-- A success whose body is no response. -/
  | badBody (reason : String)
  | noEndpoints
  /-- No address can be built for a member. -/
  | badEndpoint (reason : String)
deriving DecidableEq, Repr

namespace RequestFailure

/-- A missing permission and an unusable address stay as they are, a refusal has its own kind,
and everything else may be gone the next time. -/
def kind : RequestFailure → FailureKind
  | .refused r => r.kind
  | .badStatus _ status => if status = 401 ∨ status = 403 then .permanent else .transient
  | .noEndpoints | .badEndpoint _ => .permanent
  | .unreachable .. | .timedOut _ | .badBody _ => .transient

/-- The text of a failure; a refusal has its own. -/
def message : RequestFailure → String
  | .refused r => r.text
  | .unreachable endpoint reason => s!"Request to {endpoint} failed: {reason}"
  | .timedOut nanos => s!"Request timed out after {Duration.text nanos}"
  | .badStatus endpoint status => s!"Unexpected status {status} from {endpoint}"
  | .badBody reason => s!"Invalid response: {reason}"
  | .noEndpoints => "No store endpoints configured"
  | .badEndpoint reason => s!"Invalid store endpoint {reason}"

end RequestFailure

end ClusterRegistry
