import ClusterRegistry.Text.Digits

/-!
# Days and times

A document may hold a day, a time of day, or both with an offset from universal time. Settings take
them as texts.

* `Moment.day?`, `Moment.clock?`, `Moment.offset?`: the parts;
* `Moment.ofChars?`: the text of a moment in its canonical spelling.
-/

namespace ClusterRegistry.Toml.Moment

/-- The number that exactly so many digits write, and what follows. -/
def digits? (count : Nat) (cs : List Char) : Option (Nat × List Char) :=
  if (cs.take count).length = count ∧ (cs.take count).all Char.isDigit then
    some (Text.decimal (cs.take count), cs.drop count)
  else none

/-- What follows a character, if that is the first one. -/
def after? (c : Char) (cs : List Char) : Option (List Char) :=
  if cs.head? = some c then some cs.tail else none

/-! ## Days -/

/-- Every fourth year is a leap year, but of full centuries only every fourth one. -/
def IsLeap (year : Nat) : Prop := year % 4 = 0 ∧ (year % 100 = 0 → year % 400 = 0)

instance (year : Nat) : Decidable (IsLeap year) := by unfold IsLeap; infer_instance

/-- The number of days in a month. -/
def daysIn (year month : Nat) : Nat :=
  if month = 2 then (if IsLeap year then 29 else 28)
  else if month ∈ [4, 6, 9, 11] then 30
  else 31

/-- A day, as in `1979-05-27`, and what follows. -/
def day? (cs : List Char) : Option (List Char × List Char) := do
  let (year, r) ← digits? 4 cs
  let (month, r) ← digits? 2 (← after? '-' r)
  let (day, r) ← digits? 2 (← after? '-' r)
  if 1 ≤ month ∧ month ≤ 12 ∧ 1 ≤ day ∧ day ≤ daysIn year month then some (cs.take 10, r) else none

/-! ## Times -/

/-- An hour and a minute, as in `07:32`, and what follows. -/
def minute? (cs : List Char) : Option (List Char × List Char) := do
  let (hour, r) ← digits? 2 cs
  let (minute, r) ← digits? 2 (← after? ':' r)
  if hour < 24 ∧ minute < 60 then some (cs.take 5, r) else none

/-- A fraction of a second, down to nanoseconds and without zeros at the end, and what follows. -/
def fraction? : List Char → Option (List Char × List Char)
  | '.' :: r =>
    let digits := r.takeWhile Char.isDigit
    let kept := ((digits.take 9).reverse.dropWhile (· = '0')).reverse
    if digits = [] then none
    else some (if kept = [] then [] else '.' :: kept, r.drop digits.length)
  | r => some ([], r)

/-- A time of day, as in `07:32:00.5`, and what follows. There may be a leap second. -/
def clock? (cs : List Char) : Option (List Char × List Char) := do
  let (minute, r) ← minute? cs
  let (second, rest) ← digits? 2 (← after? ':' r)
  let (fraction, rest) ← fraction? rest
  if second ≤ 60 then some (minute ++ ':' :: r.tail.take 2 ++ fraction, rest) else none

/-- An offset from universal time, if there is one. None of zero length is negative. -/
def offset? : List Char → Option (List Char)
  | [] => some []
  | ['z'] | ['Z'] => some ['Z']
  | sign :: r => do
    let (minute, rest) ← minute? r
    if rest = [] ∧ (sign = '+' ∨ sign = '-') then
      some ((if minute = "00:00".toList then '+' else sign) :: minute)
    else none

/-! ## Moments -/

/-- The text of a moment: a day, a day with a time, or a time. -/
def ofChars? (cs : List Char) : Option String :=
  match day? cs with
  | some (day, []) => some (String.ofList day)
  | some (day, mark :: r) => do
    let (clock, r) ← clock? r
    let offset ← offset? r
    if mark ∈ ['T', 't', ' '] then some (String.ofList (day ++ 'T' :: clock ++ offset)) else none
  | none =>
    match clock? cs with
    | some (clock, []) => some (String.ofList clock)
    | _ => none

end ClusterRegistry.Toml.Moment
