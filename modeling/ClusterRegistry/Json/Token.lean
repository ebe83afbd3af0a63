import ClusterRegistry.Json.Numeral

/-!
# Tokens of documents

A document arrives as symbols, each a character or, where the bytes of a body are no text, nothing
at all. They are read one at a time into tokens. A string that holds something that is no text (an
undecodable byte, half of a surrogate pair) is a token without a text: it may be skipped, but no
reader can keep it.

* `Token`, `Token.chars`: the parts of a document and their written form;
* `textOfUnits?`: the text that UTF-16 units stand for;
* `Scan.step`, `tokens?`: reading.
-/

namespace ClusterRegistry.Json

/-- A part of a document. A string without a text cannot be kept. -/
inductive Token
  | openObject | closeObject | openArray | closeArray | colon | comma
  | null | bool (b : Bool) | number (n : Numeral) | string (text : Option String)
deriving DecidableEq, Repr

/-! ## Strings -/

/-- The first half of a surrogate pair. -/
def IsHigh (u : Nat) : Prop := 0xD800 ≤ u ∧ u < 0xDC00

/-- The second half of a surrogate pair. -/
def IsLow (u : Nat) : Prop := 0xDC00 ≤ u ∧ u < 0xE000

instance (u : Nat) : Decidable (IsHigh u) := by unfold IsHigh; infer_instance
instance (u : Nat) : Decidable (IsLow u) := by unfold IsLow; infer_instance

/-- The text that code units stand for: surrogates in pairs, every other unit as it is. -/
def textOfUnits? : List (Option Nat) → Option (List Char)
  | [] => some []
  | none :: _ => none
  | some u :: r =>
    if IsHigh u then
      match r with
      | some v :: r' =>
        if IsLow v then
          (textOfUnits? r').map (Char.ofNat (0x10000 + (u - 0xD800) * 0x400 + (v - 0xDC00)) :: ·)
        else none
      | _ => none
    else if IsLow u then none
    else (textOfUnits? r).map (Char.ofNat u :: ·)

/-- What a character after a backslash stands for, the one that starts a code unit aside. -/
def escaped? : Char → Option Char
  | '"' => some '"' | '\\' => some '\\' | '/' => some '/'
  | 'b' => some '\x08' | 'f' => some '\x0c' | 'n' => some '\n' | 'r' => some '\r'
  | 't' => some '\t' | _ => none

/-- The written form of a character inside a string. -/
def escape (c : Char) : List Char :=
  if c = '"' then ['\\', '"']
  else if c = '\\' then ['\\', '\\']
  else if c = '\x08' then ['\\', 'b']
  else if c = '\x0c' then ['\\', 'f']
  else if c = '\n' then ['\\', 'n']
  else if c = '\r' then ['\\', 'r']
  else if c = '\t' then ['\\', 't']
  else if c.toNat < 0x20 then
    ['\\', 'u', '0', '0', Text.hexDigit (c.toNat / 16), Text.hexDigit (c.toNat % 16)]
  else [c]

/-- The written form of a token. A string without a text is written as half a surrogate pair. -/
def Token.chars : Token → List Char
  | .openObject => ['{'] | .closeObject => ['}'] | .openArray => ['['] | .closeArray => [']']
  | .colon => [':'] | .comma => [',']
  | .null => ['n', 'u', 'l', 'l']
  | .bool true => ['t', 'r', 'u', 'e']
  | .bool false => ['f', 'a', 'l', 's', 'e']
  | .number n => n.chars
  | .string none => ['"', '\\', 'u', 'd', '8', '0', '0', '"']
  | .string (some s) => '"' :: s.toList.flatMap escape ++ ['"']

/-! ## Reading -/

/-- Where the reader stands: between tokens, or inside one that needs more symbols. -/
inductive Mode
  | between
  | word (rest : List Char) (token : Token)
  | number (back : List Char)
  | string (back : List (Option Nat))
  | escape (back : List (Option Nat))
  | unit (back : List (Option Nat)) (code left : Nat)

/-- The tokens read so far, the last one first, and where the reader stands. -/
structure Scan where
  back : List Token
  mode : Mode

/-- Blanks that may stand between tokens. -/
def IsBlank (c : Char) : Prop := c = ' ' ∨ c = '\n' ∨ c = '\t' ∨ c = '\r'

instance (c : Char) : Decidable (IsBlank c) := by unfold IsBlank; infer_instance

/-- Characters that numbers are made of. -/
def IsNumeric (c : Char) : Prop :=
  c.isDigit ∨ c = '-' ∨ c = '+' ∨ c = '.' ∨ c = 'e' ∨ c = 'E'

instance (c : Char) : Decidable (IsNumeric c) := by unfold IsNumeric; infer_instance

namespace Scan

/-- Reads a character between tokens. -/
def start (back : List Token) (c : Char) : Option Scan :=
  match c with
  | '{' => some ⟨.openObject :: back, .between⟩
  | '}' => some ⟨.closeObject :: back, .between⟩
  | '[' => some ⟨.openArray :: back, .between⟩
  | ']' => some ⟨.closeArray :: back, .between⟩
  | ':' => some ⟨.colon :: back, .between⟩
  | ',' => some ⟨.comma :: back, .between⟩
  | '"' => some ⟨back, .string []⟩
  | 'n' => some ⟨back, .word ['u', 'l', 'l'] .null⟩
  | 't' => some ⟨back, .word ['r', 'u', 'e'] (.bool true)⟩
  | 'f' => some ⟨back, .word ['a', 'l', 's', 'e'] (.bool false)⟩
  | c =>
    if IsBlank c then some ⟨back, .between⟩
    else if c.isDigit ∨ c = '-' then some ⟨back, .number [c]⟩
    else none

/-- Reads one symbol. -/
def step (s : Scan) (symbol : Option Char) : Option Scan :=
  match s.mode, symbol with
  | .string back, none => some ⟨s.back, .string (none :: back)⟩
  | _, none => none
  | .between, some c => start s.back c
  | .word [] _, some _ => none
  | .word (e :: rest) token, some c =>
    if c = e then
      if rest = [] then some ⟨token :: s.back, .between⟩ else some ⟨s.back, .word rest token⟩
    else none
  | .number back, some c =>
    if IsNumeric c then some ⟨s.back, .number (c :: back)⟩
    else do
      let n ← Numeral.ofChars? back.reverse
      start (.number n :: s.back) c
  | .string back, some c =>
    if c = '"' then
      some ⟨.string ((textOfUnits? back.reverse).map String.ofList) :: s.back, .between⟩
    else if c = '\\' then some ⟨s.back, .escape back⟩
    else if c.toNat < 0x20 then none
    else some ⟨s.back, .string (some c.toNat :: back)⟩
  | .escape back, some c =>
    if c = 'u' then some ⟨s.back, .unit back 0 4⟩
    else (escaped? c).map fun e => ⟨s.back, .string (some e.toNat :: back)⟩
  | .unit back code left, some c => do
    let v ← Text.hexValue? c
    let code := 16 * code + v
    if left = 1 then some ⟨s.back, .string (some code :: back)⟩
    else some ⟨s.back, .unit back code (left - 1)⟩

/-- The tokens, if the reader may stop where it stands. -/
def finish (s : Scan) : Option (List Token) :=
  match s.mode with
  | .between => some s.back.reverse
  | .number back => do
    let n ← Numeral.ofChars? back.reverse
    some (Token.number n :: s.back).reverse
  | _ => none

end Scan

/-- The tokens that the symbols write. -/
def tokens? (symbols : List (Option Char)) : Option (List Token) := do
  let s ← symbols.foldlM Scan.step ⟨[], .between⟩
  s.finish

end ClusterRegistry.Json
