import SyntaxHighlight.Json5.Token

/-!
# JSON5 values

A value is read from the tokens of a text by recursive descent. Each reader hands back what it left
of the tokens together with the proof that this is shorter, which is why the descent ends.

Strings and numbers keep what was written: a string whose escapes denote no text is `none`, and a
number is its literal. `Value.isDecodable` says whether everything inside a value denotes something.
-/

namespace SyntaxHighlight.Json5

/-- A JSON5 value. The members of an object are in the order of the text. -/
inductive Value where
  | null
  | bool (b : Bool)
  | number (literal : String)
  | string (text : Option String)
  | array (items : List Value)
  | object (members : List (Option String × Value))
deriving Repr

/-- What is left of a sequence of tokens after some of them have been read. -/
abbrev Rest (ts : List Token) := { rest : List Token // rest.length < ts.length }

/-- The text of a token that may name a member of an object. -/
def keyText : Token → Option (Option String)
  | .string text => some text
  | .word _ text => some text
  | _ => none

mutual

def readValue (ts : List Token) : Option (Value × Rest ts) :=
  match ts with
  | .leftBracket :: rest => do
    let (items, ⟨behind, h⟩) ← readItems rest
    return (.array items, ⟨behind, by simp only [List.length_cons]; omega⟩)
  | .leftBrace :: rest => do
    let (members, ⟨behind, h⟩) ← readMembers rest
    return (.object members, ⟨behind, by simp only [List.length_cons]; omega⟩)
  | .string text :: rest => some (.string text, ⟨rest, by simp⟩)
  | .number literal :: rest => some (.number literal, ⟨rest, by simp⟩)
  | .word literal _ :: rest =>
    if literal = "null" then some (.null, ⟨rest, by simp⟩)
    else if literal = "true" then some (.bool true, ⟨rest, by simp⟩)
    else if literal = "false" then some (.bool false, ⟨rest, by simp⟩)
    else if literal = "Infinity" || literal = "NaN" then some (.number literal, ⟨rest, by simp⟩)
    else none
  | _ => none
termination_by (ts.length, 0)

/-- The items of an array up to its closing bracket; a comma may stand behind the last one. -/
def readItems (ts : List Token) : Option (List Value × Rest ts) :=
  match ts with
  | .rightBracket :: rest => some ([], ⟨rest, by simp⟩)
  | ts => do
    match ← readValue ts with
    | (item, ⟨.rightBracket :: rest, h⟩) =>
      return ([item], ⟨rest, by simp only [List.length_cons] at h; omega⟩)
    | (item, ⟨.comma :: rest, h⟩) =>
      have hlt : rest.length < ts.length := by simp only [List.length_cons] at h; omega
      let (items, ⟨behind, h'⟩) ← readItems rest
      return (item :: items, ⟨behind, by omega⟩)
    | _ => none
termination_by (ts.length, 1)

/-- The members of an object up to its closing brace; a comma may stand behind the last one. -/
def readMembers (ts : List Token) : Option (List (Option String × Value) × Rest ts) :=
  match ts with
  | .rightBrace :: rest => some ([], ⟨rest, by simp⟩)
  | key :: .colon :: rest => do
    let name ← keyText key
    match ← readValue rest with
    | (value, ⟨.rightBrace :: rest', h⟩) =>
      return ([(name, value)], ⟨rest', by simp only [List.length_cons] at h ⊢; omega⟩)
    | (value, ⟨.comma :: rest', h⟩) =>
      have hlt : rest'.length < rest.length := by simp only [List.length_cons] at h; omega
      let (members, ⟨behind, h'⟩) ← readMembers rest'
      return ((name, value) :: members, ⟨behind, by simp only [List.length_cons]; omega⟩)
    | _ => none
  | _ => none
termination_by (ts.length, 1)

end

def Value.parse (text : String) : Option Value := do
  let ts ← tokens text.toList
  let (value, ⟨behind, _⟩) ← readValue ts
  if behind.isEmpty then return value else none

/-! ### Numbers -/

/-- Whether a literal is `0x` and digits. -/
def isHexLiteral (cs : List Char) : Bool :=
  match cs with
  | '0' :: x :: _ :: _ => x == 'x' || x == 'X'
  | _ => false

/-- A decimal number with its parts apart: the digits without the point, and the power of ten by
which they are scaled. -/
structure Decimal where
  digits : List Char
  exponent : Int

def decimalParts (cs : List Char) : Decimal :=
  let isMark := fun c : Char => c == 'e' || c == 'E'
  let mantissa := cs.takeWhile (!isMark ·)
  let scale : Int := match cs.dropWhile (!isMark ·) with
    | _ :: '-' :: ds => -(Nat.ofDigitChars 10 ds 0 : Int)
    | _ :: '+' :: ds => Nat.ofDigitChars 10 ds 0
    | _ :: ds => Nat.ofDigitChars 10 ds 0
    | [] => 0
  let whole := mantissa.takeWhile (· != '.')
  let part := (mantissa.dropWhile (· != '.')).drop 1
  ⟨whole ++ part, scale - part.length⟩

/-- Whether a decimal number rounds to a finite double. The least one that does not is halfway
between 2¹⁰²⁴ and the greatest double. -/
def Decimal.isFinite (d : Decimal) : Bool :=
  let n := Nat.ofDigitChars 10 d.digits 0
  let limit := Nat.pow 2 1024 - Nat.pow 2 970
  if n = 0 then true
  else if d.exponent > 400 then false
  else if d.exponent ≥ 0 then n * Nat.pow 10 d.exponent.toNat < limit
  else if d.digits.length < (-d.exponent).toNat then true
  else n < limit * Nat.pow 10 (-d.exponent).toNat

/-- Whether a number literal denotes a number: an integer of 64 bits, `0x` and an integer of 32
bits, a finite double, or one of the words for what is no number, without a `+`. -/
def denotesNumber (literal : String) : Bool :=
  let cs := literal.toList
  let isWord := literal = "Infinity" || literal = "-Infinity" || literal = "NaN" || literal = "-NaN"
  let (negative, unsigned) := match cs with
    | '-' :: rest => (true, rest)
    | '+' :: rest => (false, rest)
    | _ => (false, cs)
  if isWord then true
  else if isHexLiteral cs then
    match hexValue? (cs.drop 2) with
    | some n => n < UInt32.size
    | none => false
  else if isHexLiteral unsigned || unsigned.any fun c => c == 'I' || c == 'N' then false
  else if cs.any fun c => c == '.' || c == 'e' || c == 'E' then (decimalParts unsigned).isFinite
  else
    let n := Nat.ofDigitChars 10 unsigned 0
    if negative then 2 * n ≤ UInt64.size else 2 * n < UInt64.size

/-! ### What a value denotes -/

/-- Whether every string and number in a value denotes something. -/
def Value.isDecodable : Value → Bool
  | .null => true
  | .bool _ => true
  | .number literal => denotesNumber literal
  | .string text => text.isSome
  | .array items => itemsDecodable items
  | .object members => membersDecodable members
where
  /-- Whether all items of an array are decodable. -/
  itemsDecodable : List Value → Bool
    | [] => true
    | v :: rest => v.isDecodable && itemsDecodable rest
  /-- Whether all members of an object are decodable. -/
  membersDecodable : List (Option String × Value) → Bool
    | [] => true
    | (k, v) :: rest => k.isSome && v.isDecodable && membersDecodable rest

end SyntaxHighlight.Json5
