import ClusterRegistry.Text.Digits

/-!
# Durations

Time is counted in whole milliseconds; only the text of a duration looks at nanoseconds.

* `Duration.text`: the largest unit of which there is at least one, with the fraction that is left;
* `Duration.slept`: how long a sleep really lasts;
* `Duration.lastMoment`: the last moment that the clock can tell.
-/

namespace ClusterRegistry.Duration

/-- A count of units of `10 ^ places` nanoseconds each, with its fraction and the unit's name. -/
def inUnits (nanos places : Nat) (unit : String) : String :=
  let whole := toString (nanos / Nat.pow 10 places)
  match Text.fractionDigits places (nanos % Nat.pow 10 places) with
  | [] => whole ++ unit
  | ds => whole ++ "." ++ String.ofList ds ++ unit

/-- The text of a duration in nanoseconds. -/
def text (nanos : Nat) : String :=
  if 1000000000 ≤ nanos then inUnits nanos 9 "s"
  else if 1000000 ≤ nanos then inUnits nanos 6 "ms"
  else if 1000 ≤ nanos then inUnits nanos 3 "µs"
  else inUnits nanos 0 "ns"

/-- Milliseconds in nanoseconds. -/
def nanosOfMillis (millis : Nat) : Nat := millis * 1000000

/-- The longest sleep, thirty years of 365 days, in milliseconds. -/
def longestSleep : Nat := 946080000000

/-- How long a sleep lasts that is meant to last so many milliseconds. -/
def slept (millis : Nat) : Nat := min millis longestSleep

/-- The last moment that the clock of a machine can tell, which counts less than 2 ^ 63 seconds and
has been running for one of them when time begins. -/
def lastMoment : Nat := 9223372036854775806999

end ClusterRegistry.Duration
