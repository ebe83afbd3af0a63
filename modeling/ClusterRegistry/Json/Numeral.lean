import ClusterRegistry.Bounds
import ClusterRegistry.Rounding
import ClusterRegistry.Text.Digits

/-!
# Numbers in documents

A number is kept as it was written, since a reader that wants an integer refuses `1.0` and `1e2`.

* `Numeral`, `Numeral.ofChars?`, `Numeral.chars`: the written form;
* `Numeral.int?`: the integer it stands for, where it is written as one and fits a machine word;
* `Numeral.IsFinite`: whether the nearest double is finite, by the rule of readers that keep a
  64-bit significand and scale it by one power of ten.
-/

namespace ClusterRegistry.Json

/-- A number as a document writes it. Without a point the fraction is empty. -/
structure Numeral where
  negative : Bool
  whole : Nat
  fraction : List Char
  exponent : Option Int
deriving DecidableEq, Repr

namespace Numeral

/-! ## Written form -/

/-- The part after the point, if there is a point, and what follows. -/
def fractionOf? : List Char → Option (List Char × List Char)
  | '.' :: r =>
    if r.takeWhile Char.isDigit = [] then none
    else some (r.takeWhile Char.isDigit, r.dropWhile Char.isDigit)
  | r => some ([], r)

/-- The rest of a number after its fraction. -/
def exponentOf? : List Char → Option (Option Int)
  | [] => some none
  | c :: r => if c = 'e' ∨ c = 'E' then (Text.integer? r).map some else none

/-- The number without its sign. A zero in front stands alone. -/
def unsignedOf? (negative : Bool) (cs : List Char) : Option Numeral := do
  let digits := cs.takeWhile Char.isDigit
  if digits = [] ∨ (digits.head? = some '0' ∧ digits.length ≠ 1) then none
  else
    let (fraction, rest) ← fractionOf? (cs.dropWhile Char.isDigit)
    let exponent ← exponentOf? rest
    some ⟨negative, Text.decimal digits, fraction, exponent⟩

/-- The number that the characters write, if they are all one number. -/
def ofChars? : List Char → Option Numeral
  | '-' :: r => unsignedOf? true r
  | r => unsignedOf? false r

/-- The characters that write a number. -/
def chars (n : Numeral) : List Char :=
  (if n.negative then ['-'] else []) ++ Nat.toDigits 10 n.whole ++
    (if n.fraction = [] then [] else '.' :: n.fraction) ++
    (match n.exponent with
      | none => []
      | some (.ofNat e) => 'e' :: Nat.toDigits 10 e
      | some (.negSucc e) => 'e' :: '-' :: Nat.toDigits 10 (e + 1))

/-- The number that writes an integer. -/
def ofInt (i : Int) : Numeral := ⟨decide (i < 0), i.natAbs, [], none⟩

/-- The integer that a number stands for. A fraction, an exponent, a minus sign before zero and
a magnitude beyond 64 bits make it a fraction number, which no integer field takes. -/
def int? (n : Numeral) : Option Int :=
  if n.fraction = [] ∧ n.exponent = none then
    if n.negative then
      if n.whole ≠ 0 ∧ -(n.whole : Int) ∈ Bounds.int64 then some (-(n.whole : Int)) else none
    else if (n.whole : Int) ∈ Bounds.nat64 then some n.whole else none
  else none

/-! ## Range of doubles -/

/-- The nearest integer with 53 significant bits. -/
def nearestDouble (n : Nat) : Nat :=
  let (m, unit) := Rounding.nearest53 n 1
  m / unit

/-- Half a unit above the largest double: from there on a number has no nearest finite one. -/
def doubleBound : Nat := (Nat.pow 2 54 - 1) * Nat.pow 2 970

/-- Takes digits into a 64-bit significand until one does not fit; that one and all after it are
left over. -/
def absorb (significand : Nat) : List Char → Nat × List Char
  | [] => (significand, [])
  | c :: r =>
    let next := Text.decimalFrom significand [c]
    if (next : Int) ∈ Bounds.nat64 then absorb next r else (significand, c :: r)

/-- The significand and the power of ten by which a number is read. -/
def scaled (n : Numeral) : Nat × Int :=
  let (w, dropped) := absorb 0 (Nat.toDigits 10 n.whole)
  let (f, ignored) := absorb w n.fraction
  (f, (dropped.length : Int) - ((n.fraction.length - ignored.length : Nat) : Int) +
    n.exponent.getD 0)

/-- The number is read as a finite double. -/
def IsFinite (n : Numeral) : Prop :=
  n.scaled.1 = 0 ∨ n.scaled.2 ≤ 0 ∨
    (n.scaled.2 ≤ 308 ∧
      nearestDouble n.scaled.1 * nearestDouble (Nat.pow 10 n.scaled.2.toNat) < doubleBound)

instance (n : Numeral) : Decidable n.IsFinite := by unfold IsFinite; infer_instance

end Numeral

end ClusterRegistry.Json
