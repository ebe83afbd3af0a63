import ClusterRegistry.Path
import ClusterRegistry.Text.Blank
import ClusterRegistry.Text.Digits

/-!
# Addresses of requests

A request goes to one member of the store. Its address is put together as a text, from the endpoint
of the member and the key, and then read by the rules for web addresses, so characters that mean
something there keep their meaning: a question mark in a key starts the query, dots step up.

* `Http.endpoint`: one spelling for every way to name a member;
* `Http.resolve`, `Http.pathText`, `Http.queryText`: paths and queries as they are sent;
* `Http.formEncode`: parameters as they are sent;
* `Address`, `Address.of?`: where a request goes, and what it asks for.
-/

namespace ClusterRegistry

/-- Where a request goes, in the open or not, and the path and query it asks for. -/
structure Address where
  secure : Bool
  host : String
  portNumber : Nat
  target : String
deriving DecidableEq, Repr

namespace Http

/-- A member without blanks around it and slashes at the end, and with a scheme in front. -/
def endpoint (s : String) : String :=
  let cs := Path.trimEnd (Text.trim s.toList)
  if "http://".toList.isPrefixOf cs ∨ "https://".toList.isPrefixOf cs then String.ofList cs
  else String.ofList ("http://".toList ++ cs)

/-! ## Percent encoding -/

/-- A byte as a percent sign and two digits, in upper case. -/
def percentByte (b : UInt8) : List Char :=
  ['%', (Text.hexDigit (b.toNat / 16)).toUpper, (Text.hexDigit (b.toNat % 16)).toUpper]

/-- A character as the percent signs of its bytes. -/
def percentChar (c : Char) : List Char := (String.utf8EncodeChar c).flatMap percentByte

/-- A text in which the characters outside a class are encoded. -/
def encodeUnless (keep : Char → Bool) (cs : List Char) : List Char :=
  cs.flatMap fun c => if keep c then [c] else percentChar c

/-- A character that is seen on paper: neither a blank nor a control character, and one byte. -/
def isVisible (c : Char) : Bool := 0x20 < c.toNat && c.toNat < 0x7F

/-- Visible characters that a path does not keep. Percent signs are not among them. -/
def notInPath : List Char := ['"', '<', '>', '`', '{', '}', '#', '?']

/-- Visible characters that a query does not keep. -/
def notInQuery : List Char := ['"', '<', '>', '#', '\'']

/-- Characters that a path keeps. -/
def keptInPath (c : Char) : Bool := isVisible c && !notInPath.contains c

/-- Characters that a query keeps. -/
def keptInQuery (c : Char) : Bool := isVisible c && !notInQuery.contains c

/-- Characters that a form keeps. -/
def keptInForm (c : Char) : Bool :=
  c.isAlphanum || ['*', '-', '.', '_'].contains c

/-- A name or value in a form; a space becomes a plus sign. -/
def formEncode (s : String) : List Char :=
  s.toList.flatMap fun c =>
    if c = ' ' then ['+'] else if keptInForm c then [c] else percentChar c

/-- Parameters as a form. -/
def formText (params : List (String × String)) : List Char :=
  ['&'].intercalate (params.map fun (n, v) => formEncode n ++ '=' :: formEncode v)

/-! ## Paths and queries -/

/-- A slash in either direction. -/
def isSlash (c : Char) : Bool := c = '/' || c = '\\'

/-- The piece stands for the place itself. -/
def isHere (cs : List Char) : Bool :=
  [['.'], ['%', '2', 'e']].contains (cs.map Char.toLower)

/-- The piece stands for the place above. -/
def isUp (cs : List Char) : Bool :=
  [['.', '.'], ['.', '%', '2', 'e'], ['%', '2', 'e', '.'], ['%', '2', 'e', '%', '2', 'e']].contains
    (cs.map Char.toLower)

/-- The pieces of a path without those made of dots, which step up or stay. At the end they leave an
empty piece. The pieces so far come last first. -/
def resolve (back : List (List Char)) : List (List Char) → List (List Char)
  | [] => back.reverse
  | p :: rest =>
    if isUp p then resolve (if rest = [] then [] :: back.drop 1 else back.drop 1) rest
    else if isHere p then resolve (if rest = [] then [] :: back else back) rest
    else resolve (encodeUnless keptInPath p :: back) rest

/-- A path as it is sent. It starts with a slash. -/
def pathText (cs : List Char) : List Char :=
  '/' :: ['/'].intercalate (resolve [] ((cs.drop 1).splitOnP isSlash))

/-- A query as it is sent, with parameters at its end. -/
def queryText (given : Option (List Char)) (params : List (String × String)) : List Char :=
  let own := given.map (encodeUnless keptInQuery)
  match params with
  | [] => match own with | none => [] | some q => '?' :: q
  | _ =>
    match own.getD [] with
    | [] => '?' :: formText params
    | q => '?' :: q ++ '&' :: formText params

/-! ## Hosts -/

/-- The number that a part of a numeric host writes: hexadecimal, octal or decimal. -/
def hostNumber? (cs : List Char) : Option Nat :=
  let value (base : Nat) (digits : List Char) : Option Nat :=
    digits.foldlM (fun n c => ((Text.hexValue? c).filter (· < base)).map (base * n + ·)) 0
  match cs with
  | [] => none
  | '0' :: x :: rest => if x = 'x' ∨ x = 'X' then value 16 rest else value 8 (x :: rest)
  | cs => value 10 cs

/-- The parts of a host between dots; a dot at the end does not count. -/
def hostParts (host : List Char) : List (List Char) :=
  let parts := host.splitOn '.'
  if parts.getLast? = some [] ∧ parts.length ≠ 1 then parts.dropLast else parts

/-- A host whose last part is a number has to be a numeric address. -/
def isNumericHost (host : List Char) : Bool :=
  match (hostParts host).getLast? with
  | some p => p ≠ [] ∧ (p.all Char.isDigit ∨ (hostNumber? p).isSome ∧ p.head? = some '0')
  | none => false

/-- The four bytes of a numeric host. -/
def numericHost? (host : List Char) : Option (List Nat) := do
  let numbers ← (hostParts host).mapM hostNumber?
  let last ← numbers.getLast?
  let front := numbers.dropLast
  let room := Nat.pow 256 (4 - front.length)
  if front.length < 4 ∧ front.all (· < 256) ∧ last < room then
    let n := front.foldl (256 * · + ·) 0 * room + last
    some [n / 0x1000000, n / 0x10000 % 256, n / 0x100 % 256, n % 256]
  else none

/-- A part of a dotted tail: a number below 256 without a zero in front. -/
def isDottedPart (cs : List Char) : Bool :=
  cs ≠ [] && cs.all Char.isDigit && Text.decimal cs < 256 && (cs.length = 1 || cs.head? ≠ some '0')

/-- The number of 16-bit pieces that a text with colons writes. The last one may be dotted and then
counts twice. -/
def pieceCount? (mayBeDotted : Bool) (cs : List Char) : Option Nat :=
  let isPiece (p : List Char) : Bool :=
    p ≠ [] && p.length ≤ 4 && p.all fun c => (Text.hexValue? c).isSome
  let isDotted (p : List Char) : Bool :=
    (p.splitOn '.').length = 4 && (p.splitOn '.').all isDottedPart
  if cs = [] then some 0
  else
    let pieces := cs.splitOn ':'
    if pieces.all isPiece then some pieces.length
    else if mayBeDotted && pieces.dropLast.all isPiece && isDotted (pieces.getLast?.getD []) then
      some (pieces.length + 1)
    else none

/-- The text before the first two colons in a row, and the text after them. -/
def cutAtGap : List Char → List Char → Option (List Char × List Char)
  | back, ':' :: ':' :: rest => some (back.reverse, rest)
  | back, c :: rest => cutAtGap (c :: back) rest
  | _, [] => none

/-- A host of eight pieces. Two colons in a row stand for the pieces that are missing. -/
def isLongHost (cs : List Char) : Bool :=
  match cutAtGap [] cs with
  | none => pieceCount? true cs = some 8
  | some (front, back) =>
    match pieceCount? false front, pieceCount? true back with
    | some m, some n => m + n < 8
    | _, _ => false

/-- Characters that no host may have. -/
def isForbiddenInHost (c : Char) : Bool :=
  c.toNat ≤ 0x20 || c.toNat = 0x7F ||
    ['#', '%', '/', ':', '<', '>', '?', '@', '[', '\\', ']', '^', '|'].contains c

/-- A host in its one spelling. -/
def host? (cs : List Char) : Option String :=
  match cs with
  | '[' :: rest =>
    if rest.getLast? = some ']' ∧ isLongHost rest.dropLast then some (String.ofList cs) else none
  | cs =>
    if cs = [] ∨ cs.any isForbiddenInHost then none
    else if isNumericHost cs then
      (numericHost? cs).map fun bs => ".".intercalate (bs.map toString)
    else some (String.ofList (cs.map Char.toLower))

/-- The number after the colon of a member; without digits it is the usual one. -/
def portNumber? (usual : Nat) (cs : List Char) : Option Nat :=
  if cs.all Char.isDigit then
    let n := Text.decimal cs
    if cs = [] then some usual else if n < 65536 then some n else none
  else none

/-- The host of a member and the number after its colon. What stands before the last at sign does
not count. -/
def authority? (usual : Nat) (cs : List Char) : Option (String × Nat) :=
  let cs := (cs.reverse.takeWhile (· ≠ '@')).reverse
  let host := match cs with
    | '[' :: _ => cs.takeWhile (· ≠ ']') ++ (cs.dropWhile (· ≠ ']')).take 1
    | _ => cs.takeWhile (· ≠ ':')
  match cs.drop host.length with
  | [] => (host? host).map (·, usual)
  | ':' :: p => do
    let h ← host? host
    let n ← portNumber? usual p
    some (h, n)
  | _ => none

end Http

namespace Address

open Http

/-- The start of every path at a member. -/
def keysPath : String := "/v2/keys"

/-- The characters of an address that count: none that are blank around it, and no line breaks or
tabs inside. -/
def clean (cs : List Char) : List Char :=
  let isEdge (c : Char) : Bool := c.toNat ≤ 0x20
  ((((cs.dropWhile isEdge).reverse).dropWhile isEdge).reverse).filter
    fun c => c ≠ '\t' ∧ c ≠ '\n' ∧ c ≠ '\r'

/-- Reads an address behind its scheme, and adds parameters to its query. -/
def ofRest? (secure : Bool) (cs : List Char) (params : List (String × String)) :
    Option Address := do
  let cs := cs.dropWhile isSlash
  let isEnd (c : Char) : Bool := isSlash c || c = '?' || c = '#'
  let member := cs.takeWhile (!isEnd ·)
  let (host, number) ← authority? (if secure then 443 else 80) member
  let rest := (cs.drop member.length).takeWhile (· ≠ '#')
  let path := rest.takeWhile (· ≠ '?')
  let query := match rest.drop path.length with
    | [] => none
    | _ :: q => some q
  some ⟨secure, host, number, String.ofList (pathText path ++ queryText query params)⟩

/-- The address of a request for a key at a member, if it is one. -/
def of? (member key : String) (params : List (String × String)) : Option Address :=
  let cs := clean (member ++ keysPath ++ Path.canonical key).toList
  if "http:".toList.isPrefixOf cs then ofRest? false (cs.drop 5) params
  else if "https:".toList.isPrefixOf cs then ofRest? true (cs.drop 6) params
  else none

end Address

end ClusterRegistry
