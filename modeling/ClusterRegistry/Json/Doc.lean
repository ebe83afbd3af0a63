import ClusterRegistry.Json.Token

/-!
# Documents

A document is kept without loss: fields in the order written, repeated names included, numbers as
they were written. What a reader makes of it is decided in the readers.

* `Doc`, `Doc.tokens`, `Doc.text`: documents and their compact written form;
* `Assembly.step`: one token onto the part that is built, with the open containers on a stack;
* `Doc.ofSymbols?`, `Doc.ofText?`: reading, without a limit on nesting.
-/

namespace ClusterRegistry.Json

/-- A document. A string or field name without a text cannot be kept by a reader. -/
inductive Doc
  | null
  | bool (b : Bool)
  | number (n : Numeral)
  | string (text : Option String)
  | array (items : List Doc)
  | object (fields : List (Option String × Doc))
deriving Repr

namespace Doc

/-! ## Written form -/

mutual

/-- The tokens that write a document. -/
def tokens : Doc → List Token
  | .null => [.null]
  | .bool b => [.bool b]
  | .number n => [.number n]
  | .string s => [.string s]
  | .array items => .openArray :: itemTokens items ++ [.closeArray]
  | .object fields => .openObject :: fieldTokens fields ++ [.closeObject]

/-- The items of an array, with commas between. -/
def itemTokens : List Doc → List Token
  | [] => []
  | [d] => d.tokens
  | d :: d' :: r => d.tokens ++ .comma :: itemTokens (d' :: r)

/-- The fields of an object, with commas between. -/
def fieldTokens : List (Option String × Doc) → List Token
  | [] => []
  | [(name, d)] => .string name :: .colon :: d.tokens
  | (name, d) :: f :: r => .string name :: .colon :: d.tokens ++ .comma :: fieldTokens (f :: r)

end

/-- The compact text of a document. -/
def text (d : Doc) : String := String.ofList (d.tokens.flatMap Token.chars)

/-- The document of an integer. -/
def int (i : Int) : Doc := .number (.ofInt i)

/-- The document of a text. -/
def str (s : String) : Doc := .string (some s)

/-- The document with the given fields. -/
def record (fields : List (String × Doc)) : Doc := .object (fields.map fun (n, d) => (some n, d))

end Doc

/-! ## Reading -/

/-- A container that is still open, its last part first. -/
inductive Frame
  | array (back : List Doc)
  | object (back : List (Option String × Doc)) (name : Option String)

/-- What has been read, and so what may come next. -/
inductive Assembly
  | value (stack : List Frame)
  | firstItem (stack : List Frame)
  | firstName (stack : List Frame)
  | nextName (back : List (Option String × Doc)) (stack : List Frame)
  | colon (back : List (Option String × Doc)) (name : Option String) (stack : List Frame)
  | complete (doc : Doc) (stack : List Frame)

namespace Assembly

/-- A token where a value starts. -/
def begin (stack : List Frame) : Token → Option Assembly
  | .null => some (.complete .null stack)
  | .bool b => some (.complete (.bool b) stack)
  | .number n => some (.complete (.number n) stack)
  | .string s => some (.complete (.string s) stack)
  | .openArray => some (.firstItem stack)
  | .openObject => some (.firstName stack)
  | _ => none

/-- One more token. -/
def step : Assembly → Token → Option Assembly
  | .value stack, t => begin stack t
  | .firstItem stack, .closeArray => some (.complete (.array []) stack)
  | .firstItem stack, t => begin (.array [] :: stack) t
  | .firstName stack, .closeObject => some (.complete (.object []) stack)
  | .firstName stack, .string name => some (.colon [] name stack)
  | .nextName back stack, .string name => some (.colon back name stack)
  | .colon back name stack, .colon => some (.value (.object back name :: stack))
  | .complete d (.array back :: stack), .comma => some (.value (.array (d :: back) :: stack))
  | .complete d (.array back :: stack), .closeArray =>
    some (.complete (.array (d :: back).reverse) stack)
  | .complete d (.object back name :: stack), .comma => some (.nextName ((name, d) :: back) stack)
  | .complete d (.object back name :: stack), .closeObject =>
    some (.complete (.object ((name, d) :: back).reverse) stack)
  | _, _ => none

/-- The document, once it is complete and no container is open. -/
def finish : Assembly → Option Doc
  | .complete d [] => some d
  | _ => none

end Assembly

/-- The document that the tokens write. -/
def Doc.ofTokens? (ts : List Token) : Option Doc := do
  let a ← ts.foldlM Assembly.step (.value [])
  a.finish

/-- The document that the symbols write. -/
def Doc.ofSymbols? (symbols : List (Option Char)) : Option Doc := do
  Doc.ofTokens? (← tokens? symbols)

/-- The document that a text writes. -/
def Doc.ofText? (text : String) : Option Doc := Doc.ofSymbols? (text.toList.map some)

end ClusterRegistry.Json
