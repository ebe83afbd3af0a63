import ClusterRegistry.Toml.Moment

/-!
# Words and marks

* `Token`: a part of a document;
* `TextBody`: a text that is being read;
* `Scan.step`: one more character;
* `tokens?`: the tokens of a document, which ends like a line.
-/

namespace ClusterRegistry.Toml

/-- A part of a document. -/
inductive Token
  | openSquare | closeSquare | openCurly | closeCurly | equals | comma | lineBreak
  /-- A space or a tab. -/
  | blank
  /-- A key, a number, a moment or a truth value. -/
  | word (cs : List Char)
  /-- A text on one line. -/
  | text (s : String)
  /-- A text that may go over several lines. -/
  | block (s : String)
deriving DecidableEq, Repr

/-! ## Characters -/

/-- Characters of keys without quotation marks. -/
def IsKeyChar (c : Char) : Prop := c.isAlphanum ∨ c = '_' ∨ c = '-'

instance (c : Char) : Decidable (IsKeyChar c) := by unfold IsKeyChar; infer_instance

/-- Characters of keys, of the dots between them, and of numbers and moments. -/
def IsWordChar (c : Char) : Prop := IsKeyChar c ∨ c = '+' ∨ c = '.' ∨ c = ':'

instance (c : Char) : Decidable (IsWordChar c) := by unfold IsWordChar; infer_instance

/-- Characters that may stand in a text or a comment. -/
def IsPlain (c : Char) : Prop := c = '\t' ∨ (0x20 ≤ c.toNat ∧ c.toNat ≠ 0x7F)

instance (c : Char) : Decidable (IsPlain c) := by unfold IsPlain; infer_instance

/-- Spaces and tabs. -/
def IsPadding (c : Char) : Prop := c = ' ' ∨ c = '\t'

instance (c : Char) : Decidable (IsPadding c) := by unfold IsPadding; infer_instance

/-- What a character after a backslash stands for. -/
def escaped? : Char → Option Char
  | '"' => some '"' | '\\' => some '\\' | 'b' => some '\x08' | 't' => some '\t'
  | 'n' => some '\n' | 'f' => some '\x0c' | 'r' => some '\r' | _ => none

/-- The characters with each line end as a single character. -/
def joinLineEnds : List Char → List Char
  | '\r' :: '\n' :: r => '\n' :: joinLineEnds r
  | c :: r => c :: joinLineEnds r
  | [] => []

/-! ## Texts -/

/-- A text with escapes, or one that means what it says. -/
inductive Quoting
  | basic | literal
deriving DecidableEq, Repr

/-- The quotation mark. -/
def Quoting.mark : Quoting → Char
  | basic => '"'
  | literal => '\''

/-- What has been read of a text, the last character first. A wide text begins and ends with three
marks and may go over several lines. -/
structure TextBody where
  quoting : Quoting
  wide : Bool
  back : List Char := []

namespace TextBody

/-- The text with one more character. -/
def push (b : TextBody) (c : Char) : TextBody := { b with back := c :: b.back }

/-- The text with so many quotation marks behind it. -/
def pushMarks (b : TextBody) (marks : Nat) : TextBody :=
  { b with back := List.replicate marks b.quoting.mark ++ b.back }

/-- The token of the whole text. -/
def token (b : TextBody) : Token :=
  let s := String.ofList b.back.reverse
  if b.wide then .block s else .text s

end TextBody

/-! ## Reading -/

/-- Where the reader of a document stands. -/
inductive Mode
  | between
  | comment
  | word (back : List Char)
  /-- A day has been read, and a space that may part it from its time. -/
  | day (back : List Char)
  /-- One quotation mark has been read, or two. -/
  | opened (quoting : Quoting) (two : Bool)
  /-- Three quotation marks have been read. A line end here is not part of the text. -/
  | wideStart (quoting : Quoting)
  /-- Inside a text, after so many quotation marks in a row. -/
  | text (body : TextBody) (marks : Nat)
  | escape (body : TextBody)
  | code (body : TextBody) (value left : Nat)
  /-- After a backslash at the end of a line, blanks and line ends are skipped. -/
  | fold (body : TextBody) (broken : Bool)

/-- The tokens read so far, the last one first, and where the reader stands. -/
structure Scan where
  back : List Token
  mode : Mode

namespace Scan

/-- Reads a character between tokens. -/
def start (back : List Token) (c : Char) : Option Scan :=
  match c with
  | '[' => some ⟨.openSquare :: back, .between⟩
  | ']' => some ⟨.closeSquare :: back, .between⟩
  | '{' => some ⟨.openCurly :: back, .between⟩
  | '}' => some ⟨.closeCurly :: back, .between⟩
  | '=' => some ⟨.equals :: back, .between⟩
  | ',' => some ⟨.comma :: back, .between⟩
  | '\n' => some ⟨.lineBreak :: back, .between⟩
  | '#' => some ⟨back, .comment⟩
  | '"' => some ⟨back, .opened .basic false⟩
  | '\'' => some ⟨back, .opened .literal false⟩
  | c =>
    if IsPadding c then some ⟨.blank :: back, .between⟩
    else if IsWordChar c then some ⟨back, .word [c]⟩
    else none

/-- Reads a character of a word. A space after a day may belong to it. -/
def stepWord (back : List Token) (word : List Char) (c : Char) : Option Scan :=
  if IsWordChar c then some ⟨back, .word (c :: word)⟩
  else
    match c, Moment.day? word.reverse with
    | ' ', some (_, []) => some ⟨back, .day word⟩
    | c, _ => start (.word word.reverse :: back) c

/-- Reads a character of a text that is no quotation mark. -/
def stepInner (back : List Token) (b : TextBody) (c : Char) : Option Scan :=
  if c = '\\' ∧ b.quoting = .basic then some ⟨back, .escape b⟩
  else if IsPlain c ∨ (c = '\n' ∧ b.wide) then some ⟨back, .text (b.push c) 0⟩
  else none

/-- Reads a character of a text. Three marks end a wide text; up to two more in front of them belong
to it. -/
def stepText (back : List Token) (b : TextBody) (marks : Nat) (c : Char) : Option Scan :=
  if b.wide then
    if c = b.quoting.mark then if marks < 5 then some ⟨back, .text b (marks + 1)⟩ else none
    else if 3 ≤ marks then start ((b.pushMarks (marks - 3)).token :: back) c
    else stepInner back (b.pushMarks marks) c
  else if c = b.quoting.mark then some ⟨b.token :: back, .between⟩
  else stepInner back b c

/-- Reads the character after a backslash. -/
def stepEscape (back : List Token) (b : TextBody) (c : Char) : Option Scan :=
  if c = 'u' then some ⟨back, .code b 0 4⟩
  else if c = 'U' then some ⟨back, .code b 0 8⟩
  else if b.wide ∧ (IsPadding c ∨ c = '\n') then some ⟨back, .fold b (c = '\n')⟩
  else (escaped? c).map fun e => ⟨back, .text (b.push e) 0⟩

/-- Reads a digit of a code point. -/
def stepCode (back : List Token) (b : TextBody) (value left : Nat) (c : Char) : Option Scan := do
  let value := 16 * value + (← Text.hexValue? c)
  if left = 1 then
    if value.isValidChar then some ⟨back, .text (b.push (Char.ofNat value)) 0⟩ else none
  else some ⟨back, .code b value (left - 1)⟩

/-- Reads one character. -/
def step (s : Scan) (c : Char) : Option Scan :=
  match s.mode with
  | .between => start s.back c
  | .comment =>
    if c = '\n' then start s.back c
    else if IsPlain c then some s
    else none
  | .word word => stepWord s.back word c
  | .day word =>
    if c.isDigit then some ⟨s.back, .word (c :: ' ' :: word)⟩
    else start (.blank :: .word word.reverse :: s.back) c
  | .opened quoting two =>
    let empty : TextBody := { quoting := quoting, wide := false }
    if ¬ two then
      if c = quoting.mark then some ⟨s.back, .opened quoting true⟩ else stepInner s.back empty c
    else if c = quoting.mark then some ⟨s.back, .wideStart quoting⟩
    else start (.text "" :: s.back) c
  | .wideStart quoting =>
    let empty : TextBody := { quoting := quoting, wide := true }
    if c = '\n' then some ⟨s.back, .text empty 0⟩ else stepText s.back empty 0 c
  | .text b marks => stepText s.back b marks c
  | .escape b => stepEscape s.back b c
  | .code b value left => stepCode s.back b value left c
  | .fold b broken =>
    if IsPadding c then some s
    else if c = '\n' then some ⟨s.back, .fold b true⟩
    else if broken then stepText s.back b 0 c
    else none

/-- The tokens, once the document has ended. -/
def finish (s : Scan) : Option (List Token) :=
  match s.mode with
  | .between | .comment => some s.back.reverse
  | .word word | .day word => some (.word word.reverse :: s.back).reverse
  | .opened _ true => some (.text "" :: s.back).reverse
  | .text b marks =>
    if b.wide ∧ 3 ≤ marks then some ((b.pushMarks (marks - 3)).token :: s.back).reverse else none
  | _ => none

end Scan

/-- The tokens of a document. -/
def tokens? (cs : List Char) : Option (List Token) := do
  let s ← (joinLineEnds cs).foldlM Scan.step ⟨[], .between⟩
  some ((← s.finish) ++ [.lineBreak])

end ClusterRegistry.Toml
