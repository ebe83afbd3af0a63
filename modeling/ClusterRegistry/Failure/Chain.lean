import ClusterRegistry.Failure

/-!
# Chains of errors

A program that uses the registry wraps its failures into errors of its own. Each error may name the
one it stems from; these links form a chain. A *carrier* hides the error that it holds: it speaks
with the text of that error, and its chain goes on behind it.

* `AnyError`, `AnyError.text`: a failure inside any wrapping;
* `RequestFailure.sources`, `Failure.sources`, `AnyError.sources`: the rest of the chain;
* `AnyError.isKeyNotFound`: whether an absent key is at the root of it.
-/

namespace ClusterRegistry

/-- A failure of the registry inside any wrapping. -/
inductive AnyError
  | refusal (r : Refusal)
  | request (f : RequestFailure)
  | failure (f : Failure)
  /-- An error that stems from another one. -/
  | wrapped (inner : AnyError)
  /-- An error that holds another one and hides it. -/
  | carrier (inner : AnyError)
  /-- An error that is a text only. -/
  | plain (text : String)
  /-- An error that holds nothing; its text says that something was not found. -/
  | bare
deriving DecidableEq, Repr, Inhabited

/-- The chain behind a failed request: the error of the connection, of which only the text is known.
A refusal is no link, since the request speaks with its text. -/
def RequestFailure.sources : RequestFailure → List AnyError
  | .unreachable _ reason => [.plain reason]
  | .refused _ | .timedOut _ | .badStatus .. | .badBody _ | .noEndpoints | .badEndpoint _ => []

/-- The chain behind a failure, down to the failed request and what that stems from. A description
that cannot be read is no link, but the error of its reader is one. -/
def Failure.sources : Failure → List AnyError
  | .request _ _ _ cause => .request cause :: cause.sources
  | .format (.unreadable _ reason) => [.plain reason.message]
  | .partialWrite _ _ _ _ cause => .failure cause :: cause.sources
  | .context _ cause => .failure cause :: cause.sources
  | .format .noSchemas | .retryPolicy _ | .lifetime .. | .settings _ => []

namespace AnyError

/-- The text of an error. -/
def text : AnyError → String
  | .refusal r => r.text
  | .request f => f.message
  | .failure f => f.message
  | .wrapped _ => "wrapped"
  | .carrier inner => inner.text
  | .plain t => t
  | .bare => "entity not found"

/-- The chain behind an error. A failure that only passes on another one's text is no link. -/
def sources : AnyError → List AnyError
  | .request f => f.sources
  | .failure f => f.sources
  | .wrapped inner => inner :: inner.sources
  | .carrier inner => inner.sources
  | .refusal _ | .plain _ | .bare => []

/-- The error itself says that a key is absent. -/
def SaysAbsent : AnyError → Prop
  | .refusal r => r.kind = .notFound
  | .request f => f.kind = .notFound
  | .failure f => f.kind = .notFound
  | .wrapped _ | .carrier _ | .plain _ | .bare => False

instance (e : AnyError) : Decidable e.SaysAbsent := by
  unfold SaysAbsent; split <;> infer_instance

/-- Some error in the chain says that a key is absent. What a carrier holds is searched too, since
the chain passes it by. -/
def isKeyNotFound : AnyError → Bool
  | .carrier inner => inner.isKeyNotFound || inner.sources.any fun e => decide e.SaysAbsent
  | .wrapped inner => inner.isKeyNotFound
  | e => (e :: e.sources).any fun e => decide e.SaysAbsent

end AnyError

end ClusterRegistry
