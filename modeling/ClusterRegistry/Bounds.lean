/-!
# Bounds of integers

Fields of settings and documents hold integers of a fixed width. Widths only matter at the border:
what is in bounds is a plain integer from there on.

* `Bounds`, with membership `i ∈ b`, and `Bounds.clamp`;
* `Bounds.int64`, `Bounds.nat64`, `Bounds.nat32`: the widths in use.
-/

namespace ClusterRegistry

/-- The integers from `lo` up to `hi`, both included. -/
structure Bounds where
  lo : Int
  hi : Int
deriving DecidableEq, Repr

namespace Bounds

instance : Membership Int Bounds := ⟨fun b i => b.lo ≤ i ∧ i ≤ b.hi⟩

instance (i : Int) (b : Bounds) : Decidable (i ∈ b) :=
  inferInstanceAs (Decidable (b.lo ≤ i ∧ i ≤ b.hi))

theorem mem_iff {b : Bounds} {i : Int} : i ∈ b ↔ b.lo ≤ i ∧ i ≤ b.hi := Iff.rfl

/-- The integer in bounds that is nearest. -/
def clamp (b : Bounds) (i : Int) : Int := max b.lo (min b.hi i)

theorem clamp_mem {b : Bounds} (h : b.lo ≤ b.hi) (i : Int) : b.clamp i ∈ b := by
  rw [mem_iff, clamp]
  omega

theorem clamp_of_mem {b : Bounds} {i : Int} (h : i ∈ b) : b.clamp i = i := by
  rw [mem_iff] at h
  rw [clamp]
  omega

/-- Integers of 64 bits with a sign. -/
def int64 : Bounds := ⟨-0x8000000000000000, 0x7FFFFFFFFFFFFFFF⟩

/-- Integers of 64 bits without a sign. -/
def nat64 : Bounds := ⟨0, 0xFFFFFFFFFFFFFFFF⟩

/-- Integers of 32 bits without a sign. -/
def nat32 : Bounds := ⟨0, 0xFFFFFFFF⟩

end Bounds

end ClusterRegistry
