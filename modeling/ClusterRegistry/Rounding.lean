/-!
# Rounding

Numbers with a fraction pass through a form with 53 significant bits. What becomes of them is
decided with whole numbers here.

* `Rounding.divEven`: the nearest integer to a quotient, an even one if two are equally near;
* `Rounding.nearest53`: the nearest number with 53 significant bits;
* `Rounding.divAway`: the nearest integer to a quotient, the larger one if two are equally near;
* `Rounding.inUnits`: a quotient counted in powers of a base.
-/

namespace ClusterRegistry.Rounding

/-- The nearest integer to `n / d`; of two that are equally near, the even one. -/
def divEven (n d : Nat) : Nat :=
  if d < 2 * (n % d) ∨ (2 * (n % d) = d ∧ n / d % 2 = 1) then n / d + 1 else n / d

theorem divEven_mul_self (m : Nat) {d : Nat} (h : 0 < d) : divEven (m * d) d = m := by
  simp [divEven, Nat.mul_div_cancel m h]
  omega

/-- The nearest integer to `n / d`; of two that are equally near, the larger one. -/
def divAway (n d : Nat) : Nat := (2 * n + d) / (2 * d)

/-- The quotient `n / d`, counted in units of `base ^ power`. -/
def inUnits (base : Nat) (power : Int) (n d : Nat) : Nat × Nat :=
  match power with
  | .ofNat p => (n, d * Nat.pow base p)
  | .negSucc p => (n * Nat.pow base (p + 1), d)

/-- The nearest number to `n / d` with 53 significant bits, as a quotient. -/
def nearest53 (n d : Nat) : Nat × Nat :=
  let wide := n * Nat.pow 2 (d.log2 + 53) / d
  let surplus := wide.log2 - 52
  if surplus ≤ d.log2 + 53 then
    let unit := Nat.pow 2 (d.log2 + 53 - surplus)
    (divEven (n * unit) d, unit)
  else
    let unit := Nat.pow 2 (surplus - (d.log2 + 53))
    (divEven n (d * unit) * unit, 1)

end ClusterRegistry.Rounding
