import SyntaxHighlight.Decimal.Shortest

/-!
# KDL documents

A document is a list of nodes. A node has a name, entries in order, each an argument or a property
with a name, and children. A value is a string, a number, a truth value or null; its type mark
is not kept.
-/

namespace SyntaxHighlight.Kdl

inductive Value where
  | string (text : String)
  | integer (n : Int)
  | float (x : Binary64)
  | bool (b : Bool)
  | null
deriving DecidableEq, Repr

/-- An argument, or a property if it has a name. -/
structure Entry where
  name : Option String
  value : Value
deriving DecidableEq, Repr

inductive Node where
  | mk (name : String) (entries : List Entry) (children : List Node)
deriving Repr

namespace Node

def name : Node → String
  | .mk n _ _ => n

def entries : Node → List Entry
  | .mk _ es _ => es

end Node

/-! ### Characters -/

def isNewline (c : Char) : Bool :=
  let n := c.toNat
  (0x0A ≤ n && n ≤ 0x0D) || n == 0x85 || n == 0x2028 || n == 0x2029

/-- Whether a character is a space within a line. -/
def isSpace (c : Char) : Bool :=
  let n := c.toNat
  n == 0x09 || n == 0x20 || n == 0xA0 || n == 0x1680 || (0x2000 ≤ n && n ≤ 0x200A) || n == 0x202F ||
    n == 0x205F || n == 0x3000

/-- Whether a character may not stand in a document as it is: the controls below the space that are
neither spaces nor line ends, marks of direction and the byte order mark. -/
def isForbidden (c : Char) : Bool :=
  let n := c.toNat
  n ≤ 0x08 || (0x0E ≤ n && n ≤ 0x1F) || n == 0x200E || n == 0x200F ||
    (0x202A ≤ n && n ≤ 0x202E) || (0x2066 ≤ n && n ≤ 0x2069) || n == 0xFEFF

def isNameChar (c : Char) : Bool :=
  !(isSpace c || isNewline c || isForbidden c || "\\/()\x7b\x7d;[]\"#=".toList.contains c)

/-- The words that are no strings without quotes. -/
def reservedWords : List String := ["true", "false", "null", "inf", "nan"]

/-! ### Texts of values -/

/-- A character of a string in quotes. -/
def escapeChar (c : Char) : String :=
  if c = '\\' then "\\\\"
  else if c = '"' then "\\\""
  else if c = '\n' then "\\n"
  else if c = '\r' then "\\r"
  else if c = '\t' then "\\t"
  else if c = '\x08' then "\\b"
  else if c = '\x0c' then "\\f"
  else c.toString

/-- Whether a text starts with a digit, or with a sign or a point and a digit. -/
def startsNumeric : List Char → Bool
  | [] => false
  | c :: rest => c.isDigit || (['+', '-', '.'].contains c && rest.head?.any (·.isDigit))

/-- Whether a string is written without quotes. -/
def isPlain (text : String) : Bool :=
  !text.isEmpty && text.toList.all isNameChar && !startsNumeric text.toList &&
    !reservedWords.contains text && text != "-inf"

def stringText (text : String) : String :=
  if isPlain text then text
  else "\"" ++ String.join (text.toList.map escapeChar) ++ "\""

def dropZeros (digits : List Char) : List Char × Nat :=
  let kept := (digits.reverse.dropWhile (· == '0')).reverse
  (kept, digits.length - kept.length)

/-- The text of a finite number that is not negative: digits around a point from 10⁻⁴ up to 10¹⁶,
and with an exponent outside. -/
def magnitudeText (mantissa : Nat) (exponent : Int) : String :=
  if mantissa = 0 then "0.0"
  else
    let d := Binary64.shortest mantissa exponent
    let (digits, zeros) := dropZeros (Nat.toDigits 10 d.digits)
    let scale : Int := d.scale + zeros
    let places : Int := digits.length + scale
    let text := String.ofList
    if -4 < places && places ≤ 16 then
      if places ≤ 0 then "0." ++ text (List.replicate (-places).toNat '0') ++ text digits
      else if 0 ≤ scale then text digits ++ text (List.replicate scale.toNat '0') ++ ".0"
      else text (digits.take places.toNat) ++ "." ++ text (digits.drop places.toNat)
    else
      let tail := digits.drop 1
      text (digits.take 1) ++ (if tail.isEmpty then "" else "." ++ text tail) ++ "e"
        ++ (if places - 1 < 0 then "-" else "") ++ (places - 1).natAbs.repr

def floatText : Binary64 → String
  | .finite negative mantissa exponent =>
    (if negative then "-" else "") ++ magnitudeText mantissa exponent
  | .infinity false => "#inf"
  | .infinity true => "#-inf"
  | .nan => "#nan"

def Value.text : Value → String
  | .string text => stringText text
  | .integer n => (if n < 0 then "-" else "") ++ n.natAbs.repr
  | .float x => floatText x
  | .bool true => "#true"
  | .bool false => "#false"
  | .null => "#null"

end SyntaxHighlight.Kdl
