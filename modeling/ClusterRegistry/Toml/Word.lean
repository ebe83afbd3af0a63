import ClusterRegistry.Settings.Setting
import ClusterRegistry.Toml.Moment

/-!
# Values of words

* `Word.grouped?`: digits with underscores between them;
* `Word.integer?`, `Word.real?`: numbers;
* `Setting.ofWord?`: what a word stands for.
-/

namespace ClusterRegistry.Toml

namespace Word

/-- Digits of a kind, without the single underscores that may stand between them. -/
def grouped? (isDigit : Char → Bool) (cs : List Char) : Option (List Char) :=
  let groups := cs.splitOn '_'
  if groups.all fun g => g ≠ [] ∧ g.all isDigit then some groups.flatten else none

/-- Decimal digits without a zero in front of others. -/
def whole? (cs : List Char) : Option (List Char) := do
  let ds ← grouped? Char.isDigit cs
  if ds.head? = some '0' ∧ ds.length ≠ 1 then none else some ds

/-- A word without its sign, and the sign. -/
def unsigned : List Char → List Char × List Char
  | '-' :: cs => (['-'], cs)
  | '+' :: cs => ([], cs)
  | cs => ([], cs)

/-- The number that digits write in a base up to sixteen. -/
def based? (base : Nat) (cs : List Char) : Option Int := do
  let isDigit (c : Char) : Bool := (Text.hexValue? c).any (· < base)
  let ds ← grouped? isDigit cs
  some (ds.foldl (fun n c => base * n + (Text.hexValue? c).getD 0) 0 : Nat)

/-- An integer of 64 bits. One without a sign may be written in another base. -/
def integer? (cs : List Char) : Option Int :=
  let i := match cs with
    | '0' :: 'x' :: ds => based? 16 ds
    | '0' :: 'o' :: ds => based? 8 ds
    | '0' :: 'b' :: ds => based? 2 ds
    | cs => do
      let (sign, cs) := unsigned cs
      Text.integer? (sign ++ (← whole? cs))
  i.filter (· ∈ Bounds.int64)

/-- The part behind the point of a number, with the point. -/
def fraction? : List (List Char) → Option (List Char)
  | [] => some []
  | [f] => (grouped? Char.isDigit f).map ('.' :: ·)
  | _ => none

/-- The exponent of a number, with its mark. -/
def exponent? : List Char → Option (List Char)
  | [] => some []
  | _ :: cs => do
    let (sign, cs) := unsigned cs
    some ('e' :: sign ++ (← grouped? Char.isDigit cs))

/-- A number with a fraction or an exponent. One too large for a double is refused, unless it is
negative. -/
def real? (cs : List Char) : Option Double := do
  let (sign, cs) := unsigned cs
  if cs = "inf".toList ∨ cs = "nan".toList then Double.ofChars? (sign ++ cs)
  else
    let mantissa := cs.takeWhile fun c => c ≠ 'e' ∧ c ≠ 'E'
    let parts := mantissa.splitOn '.'
    let whole ← whole? (parts.headD [])
    let fraction ← fraction? parts.tail
    let exponent ← exponent? (cs.drop mantissa.length)
    let x ← Double.ofChars? (sign ++ whole ++ fraction ++ exponent)
    if fraction ++ exponent = [] ∨ x = .infinite false then none else some x

end Word

end ClusterRegistry.Toml

namespace ClusterRegistry

open Toml in
/-- What a word stands for where a value is expected. A moment counts as a text. -/
def Setting.ofWord? (cs : List Char) : Option Setting :=
  if cs = "true".toList then some (.flag true)
  else if cs = "false".toList then some (.flag false)
  else match Word.integer? cs, Word.real? cs with
    | some i, _ => some (.integer i)
    | none, some x => some (.real x)
    | none, none => (Moment.ofChars? cs).map .text

end ClusterRegistry
