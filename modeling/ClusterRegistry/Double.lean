import ClusterRegistry.Bounds
import ClusterRegistry.Rounding
import ClusterRegistry.Text.Digits

/-!
# Doubles

Settings may hold numbers with a fraction. They are kept in the binary format of 64 bits: a
significand of 53 bits at most, scaled by a power of two.

* `Double`, `Double.ofDecimal`, `Double.ofChars?`: the nearest double to a decimal number;
* `Double.roundInto`: the nearest integer in bounds;
* `Double.text`: the fewest digits that read back, without an exponent.
-/

namespace ClusterRegistry

/-- The number `± significand * 2 ^ power`, or one of the values outside of the numbers. The
significand has 53 bits, unless the power is the lowest one. -/
inductive Double
  | finite (negative : Bool) (significand : Nat) (power : Int)
  | infinite (negative : Bool)
  | undefined
deriving DecidableEq, Repr

namespace Double

/-! ## Reading -/

/-- The lowest and the highest power of two. -/
def powers : Bounds := ⟨-1074, 971⟩

/-- The nearest double to `n / d`; of two that are equally near, the one with an even significand.
Beyond the highest power there is only infinity. -/
def ofQuotient (negative : Bool) (n d : Nat) : Double :=
  if n = 0 then .finite negative 0 powers.lo
  else
    let room := d.log2 + 53
    let exponent : Int := ((n * Nat.pow 2 room / d).log2 : Int) - (room : Int)
    let power := max (exponent - 52) powers.lo
    let (a, b) := Rounding.inUnits 2 power n d
    let rounded := Rounding.divEven a b
    let (significand, power) :=
      if rounded = Nat.pow 2 53 then (Nat.pow 2 52, power + 1) else (rounded, power)
    if powers.hi < power then .infinite negative else .finite negative significand power

/-- The nearest double to `± digits * 10 ^ power`. What is far out of range is not written out. -/
def ofDecimal (negative : Bool) (digits : Nat) (power : Int) : Double :=
  if digits = 0 ∨ power < -400 - (digits.log2 : Int) then .finite negative 0 powers.lo
  else if 400 < power then .infinite negative
  else
    let (n, d) := Rounding.inUnits 10 (-power) digits 1
    ofQuotient negative n d

/-- The number that digits write, with a point or an exponent if there is one. -/
def ofDigits? (negative : Bool) (cs : List Char) : Option Double := do
  let mantissa := cs.takeWhile fun c => c ≠ 'e' ∧ c ≠ 'E'
  let power ← match cs.drop mantissa.length with
    | [] => some 0
    | _ :: e => Text.integer? e
  let (whole, fraction) ← match mantissa.splitOn '.' with
    | [w] => some (w, [])
    | [w, f] => some (w, f)
    | _ => none
  let digits := whole ++ fraction
  if digits ≠ [] ∧ digits.all Char.isDigit then
    some (ofDecimal negative (Text.decimal digits) (power - fraction.length))
  else none

/-- The number without its sign; names of the values outside of the numbers go in any case. -/
def magnitude? (negative : Bool) (cs : List Char) : Option Double :=
  let word := (String.ofList cs).toLower
  if word = "inf" ∨ word = "infinity" then some (.infinite negative)
  else if word = "nan" then some .undefined
  else ofDigits? negative cs

/-- The number that the characters write. -/
def ofChars? : List Char → Option Double
  | '-' :: cs => magnitude? true cs
  | '+' :: cs => magnitude? false cs
  | cs => magnitude? false cs

/-! ## Integers -/

/-- The nearest integer in bounds; a half goes away from zero. -/
def roundInto (b : Bounds) : Double → Int
  | finite negative significand power =>
    let (n, d) := Rounding.inUnits 2 (-power) significand 1
    let magnitude := Rounding.divAway n d
    b.clamp (if negative then -(magnitude : Int) else magnitude)
  | infinite negative => if negative then b.lo else b.hi
  | undefined => b.clamp 0

theorem roundInto_mem {b : Bounds} (h : b.lo ≤ b.hi) (x : Double) : x.roundInto b ∈ b := by
  cases x with
  | finite => exact Bounds.clamp_mem h _
  | infinite negative =>
    rw [Bounds.mem_iff, roundInto]
    split <;> omega
  | undefined => exact Bounds.clamp_mem h 0

/-! ## Writing -/

/-- The nearest multiple of `10 ^ grid` that reads back as `significand * 2 ^ power`, counted in
units of the grid; of two that are equally near, the larger one. All numbers up to the middle
between two doubles read back, the middle itself if the significand is even. Distances are counted
in quarters. -/
def onGrid? (significand : Nat) (power grid : Int) : Option Nat :=
  let (a, b) := Rounding.inUnits 2 (2 - power) 1 1
  let (a, b) := Rounding.inUnits 10 grid a b
  let value := 4 * significand
  let below := if significand = Nat.pow 2 52 ∧ powers.lo < power then 1 else 2
  let down := value * a / b
  let nearestFirst := if 2 * (value * a % b) < b then [down, down + 1] else [down + 1, down]
  nearestFirst.find? fun k =>
    if significand % 2 = 0 then (value - below) * a ≤ k * b ∧ k * b ≤ (value + 2) * a
    else (value - below) * a < k * b ∧ k * b < (value + 2) * a

/-- The coarsest grid that has a number which reads back, and that number. Down from the largest
double, the grids end where the smallest one lies on its own. -/
def shortest (significand : Nat) (power : Int) : Nat × Int :=
  let grids := (List.range 640).map fun (i : Nat) => 308 - (i : Int)
  (grids.findSome? fun g => (onGrid? significand power g).map (·, g)).getD (0, 0)

/-- The number `units * 10 ^ power`, without an exponent. -/
def positional (units : Nat) : Int → String
  | .ofNat p => toString (units * Nat.pow 10 p)
  | .negSucc p =>
    let scale := Nat.pow 10 (p + 1)
    toString (units / scale) ++ "." ++ String.ofList (Text.fractionDigits (p + 1) (units % scale))

/-- The text of a double. -/
def text : Double → String
  | finite negative significand power =>
    let (units, grid) := if significand = 0 then (0, 0) else shortest significand power
    (if negative then "-" else "") ++ positional units grid
  | infinite negative => if negative then "-inf" else "inf"
  | undefined => "NaN"

end Double

end ClusterRegistry
