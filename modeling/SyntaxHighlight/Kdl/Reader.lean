import SyntaxHighlight.Kdl.Value
import SyntaxHighlight.Text.Character

/-!
# Reading KDL documents

The reader follows the grammar of KDL 2. A `Reader` takes a text and, if it succeeds, gives a result
and what is left of the text; alternatives are tried from the same place. Repetition stops where the
repeated reader fails or takes nothing, so it ends, and blocks of children and marks that leave an
entry out are read to a depth that no text of the given length can exceed.
-/

namespace SyntaxHighlight.Kdl

/-- Takes a text and, if it succeeds, gives a result and what is left of the text. -/
abbrev Reader := StateT (List Char) Option

namespace Reader

/-! ### Readers in general -/

/-- One character that passes a test. -/
def satisfy (test : Char → Bool) : Reader Char
  | c :: rest => if test c then some (c, rest) else none
  | [] => none

/-- The characters that pass a test, up to the first that does not. -/
def takeWhile (test : Char → Bool) : Reader (List Char)
  | cs => some (cs.span test)

def literal (text : String) : Reader Unit
  | cs => if text.toList.isPrefixOf cs then some ((), cs.drop text.length) else none

def atEnd : Reader Unit
  | [] => some ((), [])
  | _ :: _ => none

/-- The longest sequence of results of a reader, each of which takes something. -/
def repeated {α : Type} (r : Reader α) (cs : List Char) : List α × List Char :=
  match r cs with
  | some (a, rest) =>
    if rest.length < cs.length then
      let (as, behind) := repeated r rest
      (a :: as, behind)
    else ([], cs)
  | none => ([], cs)
termination_by cs.length

def many {α : Type} (r : Reader α) : Reader (List α)
  | cs => some (repeated r cs)

/-- The longest sequence of results of a reader with another one between them, which may also stand
behind the last result. -/
def alternating {α β : Type} (r : Reader α) (between : Reader β) (cs : List Char) :
    List α × List Char :=
  match r cs with
  | some (a, rest) =>
    match between rest with
    | some (_, rest') =>
      if rest'.length < cs.length then
        let (as, behind) := alternating r between rest'
        (a :: as, behind)
      else ([a], rest)
    | none => ([a], rest)
  | none => ([], cs)
termination_by cs.length

/-- As many results of a reader as there are with another one between them. -/
def separated {α β : Type} (r : Reader α) (between : Reader β) : Reader (List α)
  | cs => some (alternating r between cs)

def optional {α : Type} (r : Reader α) : Reader (Option α) := (some <$> r) <|> pure none

/-! ### Spaces and comments -/

def newline : Reader Unit := literal "\r\n" <|> discard (satisfy isNewline)

/-- What stands behind the end of a comment; comments inside it have to end, too. -/
def afterComment (depth : Nat) : List Char → Option (List Char)
  | '*' :: '/' :: rest =>
    match depth with
    | 0 => some rest
    | depth + 1 => afterComment depth rest
  | '/' :: '*' :: rest => afterComment (depth + 1) rest
  | _ :: rest => afterComment depth rest
  | [] => none

def blockComment : Reader Unit := do
  literal "/*"
  set (← afterComment 0 (← get))

/-- A comment from `//` to the end of the line. -/
def lineComment : Reader Unit := do
  literal "//"
  discard (takeWhile (!isNewline ·))
  newline <|> atEnd

/-- A space or a comment within a line. -/
def blank : Reader Unit := discard (satisfy isSpace) <|> blockComment

/-- A backslash with which a node goes on in the next line. -/
def lineEscape : Reader Unit := do
  literal "\\"
  discard (many blank)
  lineComment <|> newline <|> atEnd

def nodeSpace : Reader Unit := blank <|> lineEscape

/-- Spaces within a node, if there are any. -/
def nodeSpaces : Reader Unit := discard (many nodeSpace)

/-- Spaces within a node, at least one. -/
def someNodeSpaces : Reader Unit := do
  nodeSpace
  nodeSpaces

/-- A space between nodes. -/
def lineSpace : Reader Unit := nodeSpace <|> newline <|> lineComment

/-- The mark that has the next element left out. -/
def slashdash : Reader Unit := do
  literal "/-"
  discard (many lineSpace)

/-! ### Strings -/

/-- Whether a string without quotes, or a number, may end in front of a text: in front of a space, a
line end, a backslash, a comment or one of the signs that divide a node. -/
def endsWord : List Char → Bool
  | [] => true
  | '/' :: '/' :: _ => true
  | '/' :: '*' :: _ => true
  | c :: _ => isSpace c || isNewline c || "=)\x7b\x7d;\\".toList.contains c

/-- Give up unless a string without quotes, or a number, may end here. -/
def wordEnd : Reader Unit
  | cs => if endsWord cs then some ((), cs) else none

/-- Whether a text starts like a number: an optional sign, an optional point, and a digit. -/
def looksNumeric (cs : List Char) : Bool :=
  let cs := match cs with
    | '+' :: rest | '-' :: rest => rest
    | _ => cs
  let cs := match cs with
    | '.' :: rest => rest
    | _ => cs
  match cs with
  | c :: _ => c.isDigit
  | [] => false

def bareString : Reader String := do
  let chars ← takeWhile isNameChar
  wordEnd
  let text := String.ofList chars
  if chars.isEmpty || looksNumeric chars || reservedWords.contains text then failure
  return text

/-- The code point in `\u{…}`: one to six digits in base 16. -/
def codePoint : Reader Char := do
  literal "u\x7b"
  let digits ← takeWhile (Text.isDigitIn 16)
  literal "\x7d"
  let n := Text.digitsValue 16 digits
  if h : n.isValidChar then
    if 1 ≤ digits.length && digits.length ≤ 6 then return Char.ofNatAux n h else failure
  else failure

def escaped : Reader Char := codePoint <|> do
  match ← satisfy fun _ => true with
  | '"' => return '"'
  | '\\' => return '\\'
  | 'b' => return '\x08'
  | 'f' => return '\x0c'
  | 'n' => return '\n'
  | 'r' => return '\r'
  | 't' => return '\t'
  | 's' => return ' '
  | _ => failure

/-- An element of a string: a character as it is, a character that is escaped, a line end, or
nothing, written as a backslash and spaces. -/
inductive Element where
  | char (c : Char)
  | escape (c : Char)
  | lineEnd
  | nothing
deriving DecidableEq

def spaceEscape : Reader Element := do
  literal "\\"
  match ← takeWhile fun c => isSpace c || isNewline c with
  | [] => failure
  | _ => return .nothing

def element : Reader Element :=
  spaceEscape <|>
  (do literal "\\"; return .escape (← escaped)) <|>
  (.char <$> satisfy fun c => !(isNewline c || isForbidden c || c == '\\' || c == '"'))

def elementsText (elements : List Element) : List Char :=
  elements.filterMap fun
    | .char c => some c
    | .escape c => some c
    | .lineEnd => some '\n'
    | .nothing => none

def quotedString : Reader String := do
  literal "\""
  let elements ← many element
  literal "\""
  return String.ofList (elementsText elements)

/-- Whether an element is a space as it is. -/
def isSpaceElement : Element → Bool
  | .char c => isSpace c
  | _ => false

/-- Take the indentation of the last line off a line; a line of spaces is empty. -/
def unindent (indent line : List Element) : Option (List Char) :=
  if line.all isSpaceElement then some []
  else if indent.isPrefixOf line then some (elementsText (line.drop indent.length))
  else none

/-- The text of a string on several lines: the last line holds nothing but the indentation, which
the other lines have in common. -/
def unindentAll (elements : List Element) : Option String := do
  let lines := (elements.filter (· != .nothing)).splitOn .lineEnd
  let indent ← lines.getLast?
  if indent.all isSpaceElement then
    let texts ← lines.dropLast.mapM (unindent indent)
    return "\n".intercalate (texts.map String.ofList)
  else none

/-- Give up if a text follows. -/
def notAhead (text : String) : Reader Unit
  | cs => if text.toList.isPrefixOf cs then none else some ((), cs)

/-- A string between `"""`, on several lines. -/
def multilineString : Reader String := do
  literal "\"\"\""
  newline
  let quote : Reader Element := do notAhead "\"\"\""; literal "\""; return .char '"'
  let lineEnd : Reader Element := do newline; return .lineEnd
  let elements ← many (element <|> lineEnd <|> quote)
  literal "\"\"\""
  unindentAll elements

/-- What stands in front of a text and behind it. -/
def splitAtText (mark : List Char) : List Char → Option (List Char × List Char)
  | [] => if mark.isEmpty then some ([], []) else none
  | c :: cs =>
    if mark.isPrefixOf (c :: cs) then some ([], (c :: cs).drop mark.length)
    else (splitAtText mark cs).map fun (a, b) => (c :: a, b)

/-- Everything up to a text, which is taken as well. -/
def upTo (mark : String) : Reader (List Char)
  | cs => splitAtText mark.toList cs

/-- A string between `#` signs, in which a backslash is a character like any other. A lone quote is
no such string. -/
def rawString : Reader String := do
  let hashes := String.ofList (← takeWhile (· == '#'))
  if hashes.isEmpty then failure
  let severalLines : Reader String := do
    literal "\"\"\""
    newline
    let body ← upTo ("\"\"\"" ++ hashes)
    if body.any isForbidden then failure
    let lineEnd : Reader Element := do newline; return .lineEnd
    let elements := (repeated (lineEnd <|> .char <$> satisfy fun _ => true) body).1
    unindentAll elements
  let oneLine : Reader String := do
    literal "\""
    let body ← upTo ("\"" ++ hashes)
    if body.any fun c => isNewline c || isForbidden c then failure
    return String.ofList body
  let text ← severalLines <|> oneLine
  if text = "\"" then failure
  return text

def string : Reader String := bareString <|> multilineString <|> quotedString <|> rawString

/-! ### Values -/

def sign : Reader Bool := do
  match ← optional (satisfy fun c => c == '+' || c == '-') with
  | some '-' => return true
  | _ => return false

/-- A number with its sign. -/
def signed (negative : Bool) (n : Nat) : Int := if negative then -(n : Int) else n

def digits (base : Nat) : Reader (List Char) := do
  let first ← satisfy (Text.isDigitIn base)
  let rest ← takeWhile fun c => Text.isDigitIn base c || c == '_'
  let all := first :: rest.filter (· != '_')
  if Text.digitsValue base all < Nat.pow 2 127 then return all else failure

/-- The base that a mark such as `0x` stands for; its letter may be large or small. -/
def baseMark : Reader Nat := do
  literal "0"
  match (← satisfy fun _ => true).toLower with
  | 'x' => return 16
  | 'o' => return 8
  | 'b' => return 2
  | _ => failure

def fraction : Reader (Option (List Char)) := do
  match ← optional (literal ".") with
  | some () => return some (← digits 10)
  | none => return none

def exponent : Reader (Option Int) := do
  match ← optional (satisfy fun c => c == 'e' || c == 'E') with
  | some _ =>
    let down ← sign
    return some (signed down (Text.digitsValue 10 (← digits 10)))
  | none => return none

/-- A decimal number without its sign. It is an integer if it has neither a point nor an
exponent. -/
def decimalNumber (negative : Bool) : Reader Value := do
  let whole ← digits 10
  let part ← fraction
  let scale ← exponent
  if part.isNone && scale.isNone then
    return .integer (signed negative (Text.digitsValue 10 whole))
  else
    let part := part.getD []
    let mantissa := Text.digitsValue 10 (whole ++ part)
    return .float (.ofDecimal negative mantissa (scale.getD 0 - part.length))

/-- A number: an integer in the base given by its mark, or a decimal number. -/
def number : Reader Value := do
  let negative ← sign
  let value ← match ← optional baseMark with
    | some base => pure (.integer (signed negative (Text.digitsValue base (← digits base))))
    | none => decimalNumber negative
  wordEnd
  return value

def keyword : Reader Value :=
  (do literal "#true"; return .bool true) <|>
  (do literal "#false"; return .bool false) <|>
  (do literal "#null"; return .null) <|>
  (do literal "#inf"; return .float (.infinity false)) <|>
  (do literal "#-inf"; return .float (.infinity true)) <|>
  (do literal "#nan"; return .float .nan)

def typeMark : Reader Unit := do
  literal "("
  nodeSpaces
  discard string
  nodeSpaces
  literal ")"

def value : Reader Value := do
  discard (optional (do typeMark; nodeSpaces))
  (.string <$> string) <|> number <|> keyword

def entry : Reader Entry :=
  (do
    let name ← string
    nodeSpaces
    literal "="
    nodeSpaces
    return ⟨some name, ← value⟩) <|>
  (do return ⟨none, ← value⟩)

/-! ### Entries that are left out -/

/-- Entries that are left out, with spaces between them, given how to read what is left out. -/
def droppedEntries (dropped : Reader Entry) : Reader Unit := do
  slashdash
  discard dropped
  discard (many (do
    someNodeSpaces
    slashdash
    dropped))

/-- An entry, in front of which others may be left out. What is left out is again such an entry, so
that several marks in a row leave out as many entries; they are read up to a depth. -/
def keptEntry : Nat → Reader Entry
  | 0 => failure
  | depth + 1 => do
    nodeSpaces
    discard (optional (do
      droppedEntries (keptEntry depth)
      someNodeSpaces))
    entry

/-! ### Nodes -/

/-- A block of children that is left out, with the spaces in front of it. -/
def droppedBlock (children : Reader (List Node)) : Reader Unit := do
  someNodeSpaces
  slashdash
  discard children

/-- A node up to its end, given how to read its entries and its children. Blocks of children that
are left out may stand on both sides of the one that is kept. -/
def node (kept : Reader Entry) (children : Reader (List Node)) : Reader Node := do
  discard (optional typeMark)
  nodeSpaces
  let name ← string
  let entries ← many (do
    someNodeSpaces
    kept)
  discard (optional (do
    someNodeSpaces
    droppedEntries kept))
  discard (many (droppedBlock children))
  let block ← optional (do
    nodeSpaces
    children)
  discard (many (droppedBlock children))
  nodeSpaces
  return .mk name entries (block.getD [])

def nodeEnd : Reader Unit := lineComment <|> newline <|> literal ";"

/-- What stands around nodes: spaces, and nodes that are left out. These have no ends of their
own. -/
def gap (node : Reader Node) : Reader Unit :=
  discard (many (lineSpace <|> do
    slashdash
    discard node))

/-- Nodes, each but the last with its end, and what stands around them. -/
def nodes (node : Reader Node) : Reader (List Node) := do
  gap node
  let found ← separated node (do
    nodeEnd
    gap node)
  gap node
  return found

/-- A block of nodes, with blocks inside it up to a depth. -/
def block : Nat → Reader (List Node)
  | 0 => failure
  | depth + 1 => do
    literal "\x7b"
    let found ← nodes (node (keptEntry depth) (block depth))
    literal "\x7d"
    return found

def document (depth : Nat) : Reader (List Node) := do
  discard (optional (literal "\uFEFF"))
  let found ← nodes (node (keptEntry depth) (block depth))
  atEnd
  return found

end Reader

/-- Read a document: its nodes in order. -/
def parse (text : String) : Option (List Node) :=
  ((Reader.document text.length).run text.toList).map (·.1)

end SyntaxHighlight.Kdl
