import SyntaxHighlight.Scope.Pattern
import SyntaxHighlight.Text.Blank

/-!
# Reading scope patterns

A pattern is read in two passes:

    text ──pieces──▶ raw segments ──readSegment──▶ segments

`pieces` cuts the text at each `>` outside a quoted token. A token starts at a quote in front of a
segment and ends at the first quote behind which, after an optional `[…]`, the text ends or a `>`
follows with more text behind it. So `a>b` and `a > b` are alike, and `x > ">"` has two segments.
-/

namespace SyntaxHighlight.Scope

open Text

/-- What is left behind a `[…]` in front of the text, or the whole text if there is none. -/
def afterBrackets : List Char → List Char
  | '[' :: inner =>
    match inner.dropWhile (· != ']') with
    | _ :: rest => rest
    | [] => '[' :: inner
  | cs => cs

theorem length_afterBrackets_le (cs : List Char) : (afterBrackets cs).length ≤ cs.length := by
  unfold afterBrackets
  split
  · next inner =>
    have hle := (List.dropWhile_sublist (l := inner) (· != ']')).length_le
    split
    · next h => rw [h] at hle; simp only [List.length_cons] at hle ⊢; omega
    · exact Nat.le_refl _
  · exact Nat.le_refl _

/-- What is left behind a quoted token and its brackets, given the text after the opening quote.

A quote closes the token if the text ends behind it or a `>` follows; if nothing stands behind
that `>`, a later closing quote is preferred. -/
def afterLiteral? : List Char → Option (List Char)
  | [] => none
  | c :: cs =>
    if c = '"' then
      let rest := afterBrackets cs
      match trimStart rest with
      | [] => some rest
      | '>' :: next =>
        if (trimStart next).isEmpty then (afterLiteral? cs).or (some rest) else some rest
      | _ => afterLiteral? cs
    else afterLiteral? cs

theorem length_afterLiteral?_le {cs rest : List Char} (h : afterLiteral? cs = some rest) :
    rest.length ≤ cs.length := by
  induction cs with
  | nil => simp [afterLiteral?] at h
  | cons c cs ih =>
    have hle := length_afterBrackets_le cs
    simp only [afterLiteral?] at h
    split at h
    · split at h
      · obtain rfl := Option.some.inj h; simp only [List.length_cons]; omega
      · split at h
        · rcases Option.or_eq_some_iff.1 h with h | ⟨_, h⟩
          · have := ih h; simp only [List.length_cons]; omega
          · obtain rfl := Option.some.inj h; simp only [List.length_cons]; omega
        · obtain rfl := Option.some.inj h; simp only [List.length_cons]; omega
      · have := ih h; simp only [List.length_cons]; omega
    · have := ih h; simp only [List.length_cons]; omega

/-- The first raw segment of a text, and what stands behind the `>` that ends it; none if no `>`
ends it. -/
def firstPiece (cs : List Char) : Except PatternError (List Char × Option (List Char)) :=
  match cs with
  | '"' :: inner =>
    match afterLiteral? inner with
    | none => .error (.unterminatedLiteral (String.ofList cs))
    | some rest =>
      match trimStart rest with
      | '>' :: next => .ok (cs.take (cs.length - rest.length), some next)
      | _ => .ok (cs, none)
  | _ =>
    match cs.dropWhile (· != '>') with
    | _ :: next => .ok (cs.takeWhile (· != '>'), some next)
    | [] => .ok (cs, none)

theorem length_firstPiece_lt {cs piece next : List Char}
    (h : firstPiece cs = .ok (piece, some next)) : next.length < cs.length := by
  unfold firstPiece at h
  split at h
  · next inner =>
    split at h
    · simp at h
    · next rest hrest =>
      -- what is left behind the token is no longer than the text, and its `>` goes as well
      have h1 := length_afterLiteral?_le hrest
      have h2 := length_trimStart_le rest
      split at h
      · next hcs =>
        simp only [Except.ok.injEq, Prod.mk.injEq, Option.some.injEq] at h
        obtain ⟨_, rfl⟩ := h
        rw [hcs] at h2
        simp only [List.length_cons] at h2 ⊢
        omega
      · simp at h
  · have hle := (List.dropWhile_sublist (l := cs) (· != '>')).length_le
    split at h
    · next hcs =>
      simp only [Except.ok.injEq, Prod.mk.injEq, Option.some.injEq] at h
      obtain ⟨_, rfl⟩ := h
      rw [hcs] at hle
      simp only [List.length_cons] at hle
      omega
    · simp at h

def pieces (text : List Char) : Except PatternError (List (List Char)) :=
  let cs := trimStart text
  if cs.isEmpty then .error .emptySegment
  else
    match _h : firstPiece cs with
    | .error e => .error e
    | .ok (piece, none) => .ok [piece]
    | .ok (piece, some next) => do
      let rest ← pieces next
      return piece :: rest
termination_by text.length
decreasing_by
  exact Nat.lt_of_lt_of_le (length_firstPiece_lt _h) (length_trimStart_le text)

/-- A decimal number below 2⁶⁴, with an optional `+` in front. -/
def readNumber (cs : List Char) : Option Nat :=
  let digits := match cs with
    | '+' :: rest => rest
    | _ => cs
  if digits.isEmpty || !digits.all (·.isDigit) then none
  else
    let n := Nat.ofDigitChars 10 digits 0
    if n < UInt64.size then some n else none

def readOrder (cs : List Char) : Option Order :=
  match cs with
  | '-' :: digits =>
    match readNumber digits with
    | some 0 => none
    | some n => some (.backward n)
    | none => none
  | _ => (readNumber cs).map .forward

/-- Cut a text at its last `[`. -/
def splitLastBracket (cs : List Char) : Option (List Char × List Char) :=
  match cs.reverse.dropWhile (· != '[') with
  | [] => none
  | _ :: before => some (before.reverse, (cs.reverse.takeWhile (· != '[')).reverse)

/-- A segment without surrounding blanks, cut into its key and its qualifier. -/
def splitOrder (cs : List Char) : Except PatternError (List Char × Option Order) :=
  match cs.getLast? with
  | some ']' =>
    match splitLastBracket cs.dropLast with
    | none => .error (.invalidQualifier (String.ofList cs))
    | some (key, inner) =>
      match readOrder inner with
      | none => .error (.invalidQualifier (String.ofList cs))
      | some order => .ok (key, some order)
  | _ => .ok (cs, none)

def checkKey (key : List Char) : Except PatternError Unit :=
  match key with
  | [] => .error .emptySegment
  | '"' :: inner =>
    if inner.length < 2 || inner.getLast? != some '"' then
      .error (.unterminatedLiteral (String.ofList key))
    else .ok ()
  | _ =>
    if key.any isBlank || key.contains '"' then .error (.invalidType (String.ofList key))
    else .ok ()

def readSegment (raw : List Char) : Except PatternError Segment := do
  let cs := trim raw
  if cs.isEmpty then throw .emptySegment
  let (key, order) ← splitOrder cs
  checkKey key
  return ⟨String.ofList key, order⟩

/-- Read a scope pattern. The text is cut into all its raw segments before any of them is read. -/
def Pattern.parse (text : String) : Except PatternError Pattern := do
  let raw ← pieces (trimEnd text.toList)
  let segments ← raw.mapM readSegment
  return ⟨segments⟩

end SyntaxHighlight.Scope
