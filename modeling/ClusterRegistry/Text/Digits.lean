/-!
# Digits

* `Text.decimal`, `Text.integer?`: the number that decimal digits write, and with a sign in front;
* `Text.fractionDigits`: the digits behind a decimal point;
* `Text.hexValue?`, `Text.hexDigit`: the value of a hexadecimal digit, and the digit of a value.
-/

namespace ClusterRegistry.Text

/-- The number that decimal digits write after those that wrote `n`. -/
def decimalFrom (n : Nat) (cs : List Char) : Nat :=
  cs.foldl (fun n c => 10 * n + (c.toNat - '0'.toNat)) n

/-- The number that decimal digits write. -/
def decimal (cs : List Char) : Nat := decimalFrom 0 cs

/-- The integer that decimal digits write, with a sign in front if there is one. -/
def integer? (cs : List Char) : Option Int :=
  let (negative, digits) := match cs with
    | '-' :: ds => (true, ds)
    | '+' :: ds => (false, ds)
    | ds => (false, ds)
  if digits ≠ [] ∧ digits.all Char.isDigit then
    some (if negative then -(decimal digits : Int) else decimal digits)
  else none

/-- The digits of a fraction below one, given as `rest / 10 ^ places`, without zeros at the end. -/
def fractionDigits : Nat → Nat → List Char
  | 0, _ => []
  | places + 1, rest =>
    if rest = 0 then []
    else
      Nat.digitChar (rest / Nat.pow 10 places) ::
        fractionDigits places (rest % Nat.pow 10 places)

/-- The value of a hexadecimal digit, in either case. -/
def hexValue? (c : Char) : Option Nat :=
  if c.isDigit then some (c.toNat - '0'.toNat)
  else if 'a' ≤ c ∧ c ≤ 'f' then some (c.toNat - 'a'.toNat + 10)
  else if 'A' ≤ c ∧ c ≤ 'F' then some (c.toNat - 'A'.toNat + 10)
  else none

/-- The hexadecimal digit of a value below 16, in lower case. -/
def hexDigit (n : Nat) : Char :=
  if n < 10 then Char.ofNat ('0'.toNat + n) else Char.ofNat ('a'.toNat + (n - 10))

theorem hexValue?_hexDigit : ∀ n < 16, hexValue? (hexDigit n) = some n := by decide

end ClusterRegistry.Text
