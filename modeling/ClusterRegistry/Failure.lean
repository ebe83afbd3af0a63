import ClusterRegistry.Refusal
import ClusterRegistry.Dogu

/-!
# Failures of an operation

Layers above a request add what they were doing and never change the classification.

* `FormatFailure`: a description that cannot be read;
* `Failure`, `Failure.message`: everything that an operation of the registry may end with;
* `Failure.kind`, `Failure.IsNotFound`: the kind of the request at the bottom, `permanent` if there
  is none.
-/

namespace ClusterRegistry

/-- Why a text is no description. -/
inductive Unreadable
  /-- It is no document of the expected form. -/
  | malformed
  /-- An entry in that list of dependencies is no name. -/
  | entry (field : String)
deriving DecidableEq, Repr

def Unreadable.message : Unreadable → String
  | .malformed => "<json error>"
  | .entry field => s!"{field} entries must be dogu names"

/-- A description that cannot be read. -/
inductive FormatFailure
  | unreadable (schema : Schema) (reason : Unreadable)
  /-- There is no form to read it in. -/
  | noSchemas
deriving DecidableEq, Repr

def FormatFailure.message : FormatFailure → String
  | .unreadable schema reason =>
    s!"Failed to parse dogu with {schema.label} format: {reason.message}"
  | .noSchemas => "No dogu format provider configured"

/-- Everything that an operation may end with. -/
inductive Failure
  /-- A request failed for good, after so many attempts. -/
  | request (operation key : String) (attempts : Nat) (cause : RequestFailure)
  | retryPolicy (reason : String)
  /-- A lifetime that is no positive number of seconds. -/
  | lifetime (key : String) (seconds : Int)
  | format (cause : FormatFailure)
  /-- The first of two registries took a write that the second one did not. -/
  | partialWrite (operation dogu : String) (applied failed : Schema) (cause : Failure)
  | settings (reason : String)
  /-- What a layer was doing when the failure reached it. -/
  | context (doing : String) (cause : Failure)
deriving DecidableEq, Repr, Inhabited

namespace Failure

/-- The text of a failure, with that of its cause at the end. -/
def message : Failure → String
  | .request operation key attempts cause =>
    s!"{operation} {key} failed after {attempts} attempt(s): {cause.message}"
  | .retryPolicy reason => s!"Invalid retry policy: {reason}"
  | .lifetime key seconds => s!"Invalid time to live for {key}: {seconds}s"
  | .format cause => cause.message
  | .partialWrite operation dogu applied failed cause =>
    s!"{operation} of dogu {dogu} applied to {applied.label} registry " ++
      s!"but failed on {failed.label}: {cause.message}"
  | .settings reason => reason
  | .context doing cause => s!"{doing}: {cause.message}"

/-- The kind of the request at the bottom; without one, no repetition helps. -/
def kind : Failure → FailureKind
  | .request _ _ _ cause => cause.kind
  | .partialWrite _ _ _ _ cause => cause.kind
  | .context _ cause => cause.kind
  | .retryPolicy _ | .lifetime .. | .format _ | .settings _ => .permanent

/-- The failure means that a key is absent. -/
def IsNotFound (f : Failure) : Prop := f.kind = .notFound

instance (f : Failure) : Decidable f.IsNotFound := by unfold IsNotFound; infer_instance

end Failure

end ClusterRegistry
