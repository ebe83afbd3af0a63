import Mathlib.Data.List.Basic
import ClusterRegistry.Failure.Chain

/-!
# Wrapped errors

Each layer adds something to an error: what it was doing, half of a write that was done already, or
a foreign error around it. Taking all of that off again leads to the base of an error, and only the
base decides whether the error tells of an absent key.

* `Refusal.kind_eq_notFound`, `RequestFailure.kind_eq_notFound`: failures that tell of absence;
* `Failure.bottom`, `AnyError.base`: what is left when all wrapping is taken off;
* `AnyError.isKeyNotFound_iff_exists`: the search goes along the chain, and into the carriers on it;
* `AnyError.isKeyNotFound_failure`, `AnyError.isKeyNotFound_base`: no wrapping changes the answer;
* **`AnyError.isKeyNotFound_iff`**: which errors tell of an absent key, and the kind of a failure.
-/

namespace ClusterRegistry

/-! ## Failures that tell of absence -/

theorem Refusal.kind_eq_notFound {r : Refusal} : r.kind = .notFound ↔ r.code = 100 := by
  unfold kind keyNotFound
  split
  · simp [*]
  · split <;> simp [*]

theorem RequestFailure.kind_ne_notFound {cause : RequestFailure}
    (h : ∀ refusal, cause ≠ .refused refusal) : cause.kind ≠ .notFound := by
  cases cause with
  | refused refusal => exact absurd rfl (h refusal)
  | badStatus endpoint status =>
    rw [kind]
    split <;> exact FailureKind.noConfusion
  | unreachable | timedOut | badBody | noEndpoints | badEndpoint => exact FailureKind.noConfusion

theorem RequestFailure.kind_eq_notFound {cause : RequestFailure} :
    cause.kind = .notFound ↔ ∃ r : Refusal, cause = .refused r ∧ r.code = 100 := by
  constructor
  · intro h
    cases cause with
    | refused r => exact ⟨r, rfl, Refusal.kind_eq_notFound.mp h⟩
    | unreachable | timedOut | badStatus | badBody | noEndpoints | badEndpoint =>
      exact absurd h (kind_ne_notFound fun _ => RequestFailure.noConfusion)
  · rintro ⟨r, rfl, hcode⟩
    exact Refusal.kind_eq_notFound.mpr hcode

/-! ## Bases -/

/-- The failure at the bottom, when all that the layers have added is taken off. -/
def Failure.bottom : Failure → Failure
  | .partialWrite _ _ _ _ cause => cause.bottom
  | .context _ cause => cause.bottom
  | .request operation key attempts cause => .request operation key attempts cause
  | .retryPolicy reason => .retryPolicy reason
  | .lifetime key seconds => .lifetime key seconds
  | .format cause => .format cause
  | .settings reason => .settings reason

/-- The failed request at the bottom, if there is one. -/
def Failure.request? (f : Failure) : Option RequestFailure :=
  match f.bottom with
  | .request _ _ _ cause => some cause
  | _ => none

theorem Failure.kind_bottom (f : Failure) : f.bottom.kind = f.kind := by
  induction f with
  | partialWrite operation dogu applied failed cause ih => exact ih
  | context doing cause ih => exact ih
  | request | retryPolicy | lifetime | format | settings => rfl

theorem Failure.kind_eq (f : Failure) :
    f.kind = (f.request?.map (·.kind)).getD .permanent := by
  induction f with
  | partialWrite operation dogu applied failed cause ih => exact ih
  | context doing cause ih => exact ih
  | request | retryPolicy | lifetime | format | settings => rfl

namespace AnyError

/-- What is left of an error when all wrapping is taken off. -/
def base : AnyError → AnyError
  | .wrapped inner => inner.base
  | .carrier inner => inner.base
  | .failure f => .failure f.bottom
  | .refusal r => .refusal r
  | .request f => .request f
  | .plain t => .plain t
  | .bare => .bare

/-- The refusal of an absent key: as it came, as a failed request, or at the end of an operation. -/
inductive IsAbsence : AnyError → Prop
  | refusal {r : Refusal} (code : r.code = 100) : IsAbsence (.refusal r)
  | request {r : Refusal} (code : r.code = 100) : IsAbsence (.request (.refused r))
  | failure {r : Refusal} (operation key : String) (attempts : Nat) (code : r.code = 100) :
    IsAbsence (.failure (.request operation key attempts (.refused r)))

variable {e link inner : AnyError} {cause : RequestFailure} {f : Failure}

/-! ## The search along the chain -/

/-- The link says that a key is absent, or it holds an error in which the search finds that. -/
def Tells (link : AnyError) : Prop :=
  (∃ inner, link = .carrier inner ∧ inner.isKeyNotFound) ∨ link.SaysAbsent

theorem tells_iff (h : ∀ inner, link ≠ .carrier inner) : link.Tells ↔ link.SaysAbsent :=
  or_iff_right fun ⟨inner, hcarrier, _⟩ => h inner hcarrier

theorem tells_refusal {r : Refusal} : (AnyError.refusal r).Tells ↔ r.kind = .notFound :=
  tells_iff fun _ => AnyError.noConfusion

theorem tells_request : (AnyError.request cause).Tells ↔ cause.kind = .notFound :=
  tells_iff fun _ => AnyError.noConfusion

theorem tells_failure : (AnyError.failure f).Tells ↔ f.kind = .notFound :=
  tells_iff fun _ => AnyError.noConfusion

theorem not_tells_plain (text : String) : ¬ (AnyError.plain text).Tells :=
  mt (tells_iff fun _ => AnyError.noConfusion).mp not_false

theorem not_tells_bare : ¬ AnyError.bare.Tells :=
  mt (tells_iff fun _ => AnyError.noConfusion).mp not_false

theorem not_tells_wrapped (inner : AnyError) : ¬ (AnyError.wrapped inner).Tells :=
  mt (tells_iff fun _ => AnyError.noConfusion).mp not_false

theorem tells_carrier : (AnyError.carrier inner).Tells ↔ inner.isKeyNotFound := by
  constructor
  · rintro (⟨inner', hcarrier, hfound⟩ | hsays)
    · cases hcarrier
      exact hfound
    · exact hsays.elim
  · exact fun h => .inl ⟨inner, rfl, h⟩

theorem not_tells_of_mem (h : link ∈ cause.sources) : ¬ link.Tells := by
  cases cause with
  | unreachable endpoint reason =>
    rw [List.mem_singleton.mp h]
    exact not_tells_plain reason
  | refused | timedOut | badStatus | badBody | noEndpoints | badEndpoint =>
    exact absurd h List.not_mem_nil

/-- What is behind a failure tells no more than the failure itself. -/
theorem kind_of_tells (h : link ∈ f.sources) (tells : link.Tells) : f.kind = .notFound := by
  induction f with
  | request operation key attempts cause =>
    rcases List.mem_cons.mp h with rfl | h
    · exact tells_request.mp tells
    · exact absurd tells (not_tells_of_mem h)
  | partialWrite operation dogu applied failed cause ih =>
    rcases List.mem_cons.mp h with rfl | h
    · exact (tells_failure (f := cause)).mp tells
    · exact ih h
  | context doing cause ih =>
    rcases List.mem_cons.mp h with rfl | h
    · exact (tells_failure (f := cause)).mp tells
    · exact ih h
  | format cause =>
    cases cause with
    | unreadable schema reason =>
      rw [List.mem_singleton.mp h] at tells
      exact absurd tells (not_tells_plain _)
    | noSchemas => exact absurd h List.not_mem_nil
  | retryPolicy | lifetime | settings => exact absurd h List.not_mem_nil

theorem isKeyNotFound_failure : (AnyError.failure f).isKeyNotFound ↔ f.kind = .notFound := by
  rw [isKeyNotFound, List.any_eq_true]
  constructor
  · rintro ⟨link, hlink, hsays⟩
    have htells : link.Tells := .inr (of_decide_eq_true hsays)
    rcases List.mem_cons.mp hlink with rfl | hlink
    · exact tells_failure.mp htells
    · exact kind_of_tells hlink htells
  · exact fun h => ⟨.failure f, List.mem_cons_self, decide_eq_true h⟩
  all_goals exact nofun

theorem isKeyNotFound_request :
    (AnyError.request cause).isKeyNotFound ↔ cause.kind = .notFound := by
  rw [isKeyNotFound, List.any_eq_true]
  constructor
  · rintro ⟨link, hlink, hsays⟩
    have htells : link.Tells := .inr (of_decide_eq_true hsays)
    rcases List.mem_cons.mp hlink with rfl | hlink
    · exact tells_request.mp htells
    · exact absurd htells (not_tells_of_mem hlink)
  · exact fun h => ⟨.request cause, List.mem_cons_self, decide_eq_true h⟩
  all_goals exact nofun

theorem isKeyNotFound_single (h : e.isKeyNotFound = [e].any fun e => decide e.SaysAbsent) :
    e.isKeyNotFound ↔ e.SaysAbsent := by
  rw [h, List.any_cons, List.any_nil, Bool.or_false, decide_eq_true_iff]

theorem isKeyNotFound_refusal {r : Refusal} :
    (AnyError.refusal r).isKeyNotFound ↔ r.kind = .notFound := isKeyNotFound_single rfl

theorem not_isKeyNotFound_plain (text : String) : ¬ (AnyError.plain text).isKeyNotFound :=
  mt (isKeyNotFound_single rfl).mp not_false

theorem not_isKeyNotFound_bare : ¬ AnyError.bare.isKeyNotFound :=
  mt (isKeyNotFound_single rfl).mp not_false

/-- **The search goes along the chain, and into the carriers on it.** -/
theorem isKeyNotFound_iff_exists (e : AnyError) :
    e.isKeyNotFound ↔ ∃ link ∈ e :: e.sources, link.Tells := by
  simp only [List.exists_mem_cons_iff]
  induction e with
  | refusal r => simp [isKeyNotFound_refusal, tells_refusal, sources]
  | request cause =>
    rw [isKeyNotFound_request, tells_request]
    refine (or_iff_left ?_).symm
    rintro ⟨link, hlink, htells⟩
    exact not_tells_of_mem hlink htells
  | failure f =>
    rw [isKeyNotFound_failure, tells_failure]
    refine (or_iff_left_of_imp ?_).symm
    rintro ⟨link, hlink, htells⟩
    exact kind_of_tells hlink htells
  | wrapped inner ih =>
    rw [isKeyNotFound, ih, or_iff_right (not_tells_wrapped inner), sources,
      List.exists_mem_cons_iff]
  | carrier inner ih =>
    rw [isKeyNotFound, tells_carrier, Bool.or_eq_true]
    -- behind the carrier there is nothing that the search in its error would not find
    refine (or_iff_left_of_imp ?_).trans (or_iff_left_of_imp ?_).symm
    · intro h
      obtain ⟨link, hlink, hsays⟩ := List.any_eq_true.mp h
      exact ih.mpr (.inr ⟨link, hlink, .inr (of_decide_eq_true hsays)⟩)
    · exact fun h => ih.mpr (.inr h)
  | plain t => simp [not_isKeyNotFound_plain, not_tells_plain, sources]
  | bare => simp [not_isKeyNotFound_bare, not_tells_bare, sources]

/-! ## Wrapping -/

theorem isKeyNotFound_carrier : (AnyError.carrier inner).isKeyNotFound ↔ inner.isKeyNotFound := by
  rw [isKeyNotFound_iff_exists, List.exists_mem_cons_iff, tells_carrier]
  exact or_iff_left_of_imp fun h =>
    (isKeyNotFound_iff_exists inner).mpr (List.exists_mem_cons_iff .. |>.mpr (.inr h))

/-- **No wrapping changes the answer.** -/
theorem isKeyNotFound_base (e : AnyError) : e.isKeyNotFound ↔ e.base.isKeyNotFound := by
  induction e with
  | wrapped inner ih => exact ih
  | carrier inner ih => exact isKeyNotFound_carrier.trans ih
  | failure f =>
    rw [base, isKeyNotFound_failure, isKeyNotFound_failure, Failure.kind_bottom]
  | refusal | request | plain | bare => exact Iff.rfl

theorem isAbsence_bottom (f : Failure) :
    f.bottom.kind = .notFound ↔ (AnyError.failure f.bottom).IsAbsence := by
  induction f with
  | partialWrite operation dogu applied failed cause ih => exact ih
  | context doing cause ih => exact ih
  | request operation key attempts cause =>
    refine RequestFailure.kind_eq_notFound.trans ⟨?_, ?_⟩
    · rintro ⟨r, rfl, hcode⟩
      exact .failure operation key attempts hcode
    · intro h
      cases h with
      | failure _ _ _ hcode => exact ⟨_, rfl, hcode⟩
  | retryPolicy | lifetime | format | settings =>
    refine iff_of_false FailureKind.noConfusion fun h => ?_
    cases h

theorem isAbsence_base (e : AnyError) : e.base.isKeyNotFound ↔ e.base.IsAbsence := by
  induction e with
  | wrapped inner ih => exact ih
  | carrier inner ih => exact ih
  | failure f => exact isKeyNotFound_failure.trans (isAbsence_bottom f)
  | refusal r =>
    refine isKeyNotFound_refusal.trans (Refusal.kind_eq_notFound.trans ⟨.refusal, fun h => ?_⟩)
    cases h with
    | refusal hcode => exact hcode
  | request cause =>
    refine isKeyNotFound_request.trans (RequestFailure.kind_eq_notFound.trans ⟨?_, fun h => ?_⟩)
    · rintro ⟨r, rfl, hcode⟩
      exact .request hcode
    · cases h with
      | request hcode => exact ⟨_, rfl, hcode⟩
  | plain text =>
    refine iff_of_false (not_isKeyNotFound_plain text) fun h => ?_
    cases h
  | bare =>
    refine iff_of_false not_isKeyNotFound_bare fun h => ?_
    cases h

/-- **An error tells of an absent key exactly if its base is the refusal of one.** The base is what
is left when every wrapping is taken off, in whatever order it was put on. Of the registry's own
failures the kind says as much: it is that of the failed request at the bottom, and without one a
failure is permanent. -/
theorem isKeyNotFound_iff (e : AnyError) (f : Failure) :
    (e.isKeyNotFound ↔ e.base.IsAbsence) ∧
    (f.kind = match f.request? with
      | some cause => cause.kind
      | none => .permanent) ∧
    ((AnyError.failure f).isKeyNotFound ↔ f.IsNotFound) := by
  refine ⟨e.isKeyNotFound_base.trans e.isAbsence_base, ?_, isKeyNotFound_failure⟩
  rw [f.kind_eq]
  cases f.request? <;> rfl

end AnyError

end ClusterRegistry
