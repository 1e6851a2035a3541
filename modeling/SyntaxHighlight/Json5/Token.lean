import SyntaxHighlight.Text.Character

/-!
# Tokens of JSON5

A text is cut into brackets, separators, strings, numbers and words; blanks and comments between
them are dropped. Every token takes at least one character, so the scan ends.

A string or word may be well formed and still denote no text, when one of its `\uXXXX` escapes is
half of a surrogate pair: its text is then `none`, which matters only to who asks for it.
-/

namespace SyntaxHighlight.Json5

inductive Token where
  | leftBrace
  | rightBrace
  | leftBracket
  | rightBracket
  | colon
  | comma
  /-- A string in single or double quotes. -/
  | string (text : Option String)
  /-- A number, as it is written. -/
  | number (literal : String)
  /-- A name, as it is written and as it reads with its escapes replaced. -/
  | word (literal : String) (text : Option String)
deriving DecidableEq, Repr

def isLineEnd (c : Char) : Bool :=
  c == '\n' || c == '\r' || c == '\u2028' || c == '\u2029'

/-- Whether a character may stand between tokens: line ends, tabulators, the byte order mark and
the space separators. -/
def isSpace (c : Char) : Bool :=
  let n := c.toNat
  isLineEnd c || n == 0x09 || n == 0x0B || n == 0x0C || n == 0x20 || n == 0xA0 || n == 0xFEFF ||
    n == 0x1680 || (0x2000 ≤ n && n ≤ 0x200A) || n == 0x202F || n == 0x205F || n == 0x3000

/-! ### Blanks and comments -/

/-- What stands behind the `*/` that closes a comment. -/
def afterComment? : List Char → Option (List Char)
  | '*' :: '/' :: rest => some rest
  | _ :: rest => afterComment? rest
  | [] => none

theorem length_afterComment?_le {cs rest : List Char} (h : afterComment? cs = some rest) :
    rest.length ≤ cs.length := by
  fun_induction afterComment? cs with
  | case1 => obtain rfl := Option.some.inj h; simp only [List.length_cons]; omega
  | case2 _ _ _ ih => have := ih h; simp only [List.length_cons]; omega
  | case3 => simp at h

/-- Drop blanks and comments in front. A comment that is never closed stays. -/
def skipBlanks (cs : List Char) : List Char :=
  match cs with
  | '/' :: '/' :: rest => skipBlanks (rest.dropWhile (!isLineEnd ·))
  | '/' :: '*' :: rest =>
    match _h : afterComment? rest with
    | some rest' => skipBlanks rest'
    | none => cs
  | c :: rest => if isSpace c then skipBlanks rest else cs
  | [] => []
termination_by cs.length
decreasing_by
  · have := (List.dropWhile_sublist (l := rest) (!isLineEnd ·)).length_le
    simp only [List.length_cons]; omega
  · have := length_afterComment?_le _h
    simp only [List.length_cons]; omega
  · simp

theorem length_skipBlanks_le (cs : List Char) : (skipBlanks cs).length ≤ cs.length := by
  fun_induction skipBlanks cs with
  | case1 rest ih =>
    have := (List.dropWhile_sublist (l := rest) (!isLineEnd ·)).length_le
    simp only [List.length_cons]; omega
  | case2 rest rest' h ih =>
    have := length_afterComment?_le h
    simp only [List.length_cons]; omega
  | case3 => exact Nat.le_refl _
  | case4 _ _ _ _ _ ih => simp only [List.length_cons]; omega
  | case5 => exact Nat.le_refl _
  | case6 => exact Nat.le_refl _

/-! ### Strings and words -/

/-- An element of a string or word: a character, or the code of a `\uXXXX` escape. -/
inductive Element where
  | char (c : Char)
  | code (n : Nat)
deriving DecidableEq, Repr

/-- The character of a surrogate pair. The low ten bits of the two codes are put side by side, and
the bit of 10000 is set; pairs that differ in nothing but this bit make the same character. -/
def pairChar (high low : Nat) : Char :=
  Char.ofNat (((high - 0xD800) * 0x400 + (low - 0xDC00)) ||| 0x10000)

/-- The text of a sequence of elements. A code between D800 and DBFF has to be followed by one
between DC00 and DFFF, and the two make one character. -/
def elementsText : List Element → Option (List Char)
  | [] => some []
  | .char c :: rest => (elementsText rest).map (c :: ·)
  | .code n :: rest =>
    if 0xDC00 ≤ n && n ≤ 0xDFFF then none
    else if 0xD800 ≤ n && n ≤ 0xDBFF then
      match rest with
      | .code m :: rest' =>
        if 0xDC00 ≤ m && m ≤ 0xDFFF then (elementsText rest').map (pairChar n m :: ·)
        else none
      | _ => none
    else (elementsText rest).map (Char.ofNat n :: ·)

/-- The value of a sequence of digits in base 16; none if one is no digit. -/
def hexValue? (cs : List Char) : Option Nat :=
  if cs.all (Text.isDigitIn 16) then some (Text.digitsValue 16 cs) else none

def escapedChar (c : Char) : Char :=
  if c = 'b' then '\x08'
  else if c = 'f' then '\x0c'
  else if c = 'n' then '\n'
  else if c = 'r' then '\r'
  else if c = 't' then '\t'
  else if c = 'v' then '\x0b'
  else c

/-- The elements of a string up to its closing quote, and what stands behind the quote. -/
def stringElements (quote : Char) : List Char → Option (List Element × List Char)
  | [] => none
  | c :: cs =>
    if c = quote then some ([], cs)
    else if c = '\\' then
      match cs with
      | 'u' :: a :: b :: d :: e :: rest => do
        let n ← hexValue? [a, b, d, e]
        let (elements, behind) ← stringElements quote rest
        return (.code n :: elements, behind)
      | 'x' :: a :: b :: rest => do
        let n ← hexValue? [a, b]
        let (elements, behind) ← stringElements quote rest
        return (.char (Char.ofNat n) :: elements, behind)
      | '\r' :: '\n' :: rest => stringElements quote rest
      | '0' :: rest => do
        let (elements, behind) ← stringElements quote rest
        return (.char '\x00' :: elements, behind)
      | e :: rest =>
        if isLineEnd e then stringElements quote rest
        else if e.isDigit || e = 'x' || e = 'u' then none
        else do
          let (elements, behind) ← stringElements quote rest
          return (.char (escapedChar e) :: elements, behind)
      | [] => none
    else if isLineEnd c then none
    else do
      let (elements, behind) ← stringElements quote cs
      return (.char c :: elements, behind)

def isNameStart (c : Char) : Bool := c == '$' || c == '_' || Text.isLetter c

def isNamePart (c : Char) : Bool := isNameStart c || Text.isNameMark c

/-- The elements of a name, and what stands behind it. A `\uXXXX` escape stands for any character
of a name; `first` says that no character of the name has been read. -/
def nameElements (first : Bool) : List Char → List Element × List Char
  | '\\' :: 'u' :: a :: b :: d :: e :: rest =>
    match hexValue? [a, b, d, e] with
    | some n =>
      let (elements, behind) := nameElements false rest
      (.code n :: elements, behind)
    | none => ([], '\\' :: 'u' :: a :: b :: d :: e :: rest)
  | c :: rest =>
    if (if first then isNameStart c else isNamePart c) then
      let (elements, behind) := nameElements false rest
      (.char c :: elements, behind)
    else ([], c :: rest)
  | [] => ([], [])

/-! ### Numbers -/

def digits (cs : List Char) : List Char × List Char := cs.span (·.isDigit)

/-- Cut off an exponent such as `e+10`, if one is in front. -/
def exponent (cs : List Char) : List Char × List Char :=
  match cs with
  | e :: rest =>
    if e = 'e' || e = 'E' then
      let (sign, rest) := match rest with
        | '+' :: rest' => (['+'], rest')
        | '-' :: rest' => (['-'], rest')
        | _ => ([], rest)
      match digits rest with
      | ([], _) => ([], cs)
      | (ds, behind) => (e :: sign ++ ds, behind)
    else ([], cs)
  | [] => ([], cs)

/-- Cut off a number without sign: `0x` and digits in base 16, or a decimal number with an optional
fraction and exponent and no leading zero, or one of two words. -/
def unsigned (cs : List Char) : Option (List Char × List Char) :=
  match cs with
  | '0' :: x :: rest =>
    if x = 'x' || x = 'X' then
      match rest.span (Text.isDigitIn 16) with
      | ([], _) => some (['0'], x :: rest)
      | (ds, behind) => some ('0' :: x :: ds, behind)
    else fraction ['0'] (x :: rest)
  | ['0'] => some (['0'], [])
  | '.' :: rest =>
    match digits rest with
    | ([], _) => none
    | (ds, behind) =>
      let (e, behind) := exponent behind
      some ('.' :: ds ++ e, behind)
  | 'I' :: 'n' :: 'f' :: 'i' :: 'n' :: 'i' :: 't' :: 'y' :: rest => some ("Infinity".toList, rest)
  | 'N' :: 'a' :: 'N' :: rest => some ("NaN".toList, rest)
  | _ =>
    match digits cs with
    | ([], _) => none
    | (ds, behind) => fraction ds behind
where
  /-- What follows the integer part of a decimal number. -/
  fraction (ds rest : List Char) : Option (List Char × List Char) :=
    match rest with
    | '.' :: rest =>
      let (fs, behind) := digits rest
      let (e, behind) := exponent behind
      some (ds ++ '.' :: fs ++ e, behind)
    | _ =>
      let (e, behind) := exponent rest
      some (ds ++ e, behind)

def number? (cs : List Char) : Option (List Char × List Char) :=
  match cs with
  | '+' :: rest => (unsigned rest).map fun (n, behind) => ('+' :: n, behind)
  | '-' :: rest => (unsigned rest).map fun (n, behind) => ('-' :: n, behind)
  | _ => unsigned cs

/-! ### The scan -/

/-- The token in front of a text that starts with no blank, and what stands behind it. -/
def token? (cs : List Char) : Option (Token × List Char) :=
  match cs with
  | [] => none
  | '\x7b' :: rest => some (.leftBrace, rest)
  | '\x7d' :: rest => some (.rightBrace, rest)
  | '[' :: rest => some (.leftBracket, rest)
  | ']' :: rest => some (.rightBracket, rest)
  | ':' :: rest => some (.colon, rest)
  | ',' :: rest => some (.comma, rest)
  | c :: rest =>
    if c = '"' || c = '\x27' then
      (stringElements c rest).map fun (elements, behind) =>
        (.string ((elementsText elements).map String.ofList), behind)
    else
      match nameElements true cs with
      | ([], _) => (number? cs).map fun (n, behind) => (.number (String.ofList n), behind)
      | (elements, behind) =>
        let literal := String.ofList (cs.take (cs.length - behind.length))
        some (.word literal ((elementsText elements).map String.ofList), behind)

def tokens (text : List Char) : Option (List Token) :=
  let cs := skipBlanks text
  match token? cs with
  | none => if cs.isEmpty then some [] else none
  | some (token, behind) =>
    if behind.length < cs.length then do
      let rest ← tokens behind
      return token :: rest
    else none
termination_by text.length
decreasing_by
  exact Nat.lt_of_lt_of_le ‹_› (length_skipBlanks_le text)

end SyntaxHighlight.Json5
