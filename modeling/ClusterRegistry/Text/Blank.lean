/-!
# Blanks

* `Text.IsBlank`: the white space of Unicode;
* `Text.trim`: a text without blanks around it;
* `Text.quoteBlanks`: a text of blanks made visible, for messages.
-/

namespace ClusterRegistry.Text

/-- The ranges of code points that are white space. -/
def blankRanges : List (Nat × Nat) :=
  [(0x09, 0x0D), (0x20, 0x20), (0x85, 0x85), (0xA0, 0xA0), (0x1680, 0x1680), (0x2000, 0x200A),
    (0x2028, 0x2029), (0x202F, 0x202F), (0x205F, 0x205F), (0x3000, 0x3000)]

/-- White space. -/
def IsBlank (c : Char) : Prop := ∃ r ∈ blankRanges, r.1 ≤ c.toNat ∧ c.toNat ≤ r.2

instance (c : Char) : Decidable (IsBlank c) := by unfold IsBlank; infer_instance

/-- The characters between the blanks at both ends. -/
def trim (cs : List Char) : List Char :=
  (((cs.dropWhile fun c => IsBlank c).reverse).dropWhile fun c => IsBlank c).reverse

/-- A blank inside quotes: a space as it is, the others as escapes. -/
def escapeBlank (c : Char) : List Char :=
  if c = ' ' then [' ']
  else if c = '\t' then ['\\', 't']
  else if c = '\n' then ['\\', 'n']
  else if c = '\r' then ['\\', 'r']
  else ['\\', 'u', '{'] ++ Nat.toDigits 16 c.toNat ++ ['}']

/-- A text of blanks inside quotes. -/
def quoteBlanks (s : String) : String :=
  String.ofList ('"' :: s.toList.flatMap escapeBlank ++ ['"'])

end ClusterRegistry.Text
