/-!
# Retry policies

A policy says how often a failed request is repeated and how long to wait before each repetition.
Its numbers come from people and may be negative; such a policy is refused when it is used.

* `RetryPolicy`, `RetryPolicy.fault?`: what may be wrong with it;
* `RetryPolicy.delay`, `RetryPolicy.delays`: the waits, in milliseconds.
-/

namespace ClusterRegistry

/-- How waits grow. -/
inductive BackoffShape
  | constant | exponential
deriving DecidableEq, Repr

/-- All shapes. -/
def BackoffShape.all : List BackoffShape := [.constant, .exponential]

/-- The name of a shape in documents and settings. -/
def BackoffShape.label : BackoffShape → String
  | .constant => "constant"
  | .exponential => "exponential"

/-- How often a request is repeated and how long to wait in between, in milliseconds. -/
structure RetryPolicy where
  interval : Int := 200
  maxRetryCount : Int := 4
  shape : Option BackoffShape := none
  maxInterval : Int := 30000
deriving DecidableEq, Repr

namespace RetryPolicy

/-- A policy whose waits are all the same. -/
def constant (interval maxRetryCount : Int) : RetryPolicy :=
  ⟨interval, maxRetryCount, some .constant, 30000⟩

/-- A policy without a shape is exponential. -/
def effectiveShape (p : RetryPolicy) : BackoffShape := p.shape.getD .exponential

/-- What is wrong with the policy: the first of its numbers that is negative. -/
def fault? (p : RetryPolicy) : Option String :=
  if p.interval < 0 then some s!"interval must not be negative, got {p.interval}"
  else if p.maxRetryCount < 0 then
    some s!"max_retry_count must not be negative, got {p.maxRetryCount}"
  else if p.maxInterval < 0 then some s!"max_interval must not be negative, got {p.maxInterval}"
  else none

/-- The factor of wait `i`: it doubles up to the largest number of 32 bits and stays there. -/
def factor (i : Nat) : Nat := if i < 32 then Nat.pow 2 i else 0xFFFFFFFF

/-- The wait before repetition `i`. Exponential waits are capped, but not below the first one. -/
def delay (p : RetryPolicy) (i : Nat) : Nat :=
  match p.effectiveShape with
  | .constant => p.interval.toNat
  | .exponential =>
    min (p.interval.toNat * factor i) (max p.maxInterval.toNat p.interval.toNat)

/-- The waits of a policy in which nothing is wrong, one for each repetition. -/
def delays (p : RetryPolicy) : Except String (List Nat) :=
  match p.fault? with
  | some reason => .error reason
  | none => .ok ((List.range p.maxRetryCount.toNat).map p.delay)

end RetryPolicy

end ClusterRegistry
