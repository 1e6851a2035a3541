import SyntaxHighlight.Text.Lines

/-!
# Edits

An edit says which bytes of a text were replaced by how many others, in byte offsets and in
positions, of the old text and of the new one.

`Edit.ofChange` describes any replacement after moving its ends into the text; `Edit.apply` carries
one out, if its ends stand between characters.
-/

namespace SyntaxHighlight

/-- A replacement in a text, in old and new coordinates. -/
structure Edit where
  startByte : Nat
  oldEndByte : Nat
  newEndByte : Nat
  startPosition : Position
  oldEndPosition : Position
  newEndPosition : Position
deriving DecidableEq, Repr

/-- A request to replace the bytes from `start` up to `stop` by a text. -/
structure Replacement where
  start : Nat
  stop : Nat
  inserted : String
deriving DecidableEq, Repr

/-- Cut a text at a byte offset; none if the offset is not between two characters. -/
def Text.splitAt? : List Char → Nat → Option (List Char × List Char)
  | cs, 0 => some ([], cs)
  | [], _ + 1 => none
  | c :: cs, n =>
    if c.utf8Size ≤ n then (splitAt? cs (n - c.utf8Size)).map fun (a, b) => (c :: a, b) else none

namespace Edit

/-- Describe a replacement. An end behind the text is moved to the end of the text, and a start
behind the end of the replacement to that end. -/
def ofChange (text : String) (r : Replacement) : Edit :=
  let bytes := Text.bytes text
  let new := Text.bytes r.inserted
  let stop := min r.stop bytes.length
  let start := min r.start stop
  let startPosition := Position.origin.advance (bytes.take start)
  { startByte := start
    oldEndByte := stop
    newEndByte := start + new.length
    startPosition := startPosition
    oldEndPosition := startPosition.advance ((bytes.drop start).take (stop - start))
    newEndPosition := startPosition.advance new }

/-- Carry out a replacement: the new text and its edit. None if the range is inverted, ends behind
the text or cuts a character. -/
def apply (text : String) (r : Replacement) : Option (String × Edit) := do
  if r.stop < r.start then none
  let (front, rest) ← Text.splitAt? text.toList r.start
  let (_, back) ← Text.splitAt? rest (r.stop - r.start)
  return (String.ofList front ++ r.inserted ++ String.ofList back, ofChange text r)

/-- Carry out replacements one after another: the last text and all edits. -/
def applyAll (text : String) : List Replacement → Option (String × List Edit)
  | [] => some (text, [])
  | r :: rest => do
    let (text, edit) ← apply text r
    let (text, edits) ← applyAll text rest
    return (text, edit :: edits)

def isNoop (e : Edit) : Bool := e.startByte == e.oldEndByte && e.startByte == e.newEndByte

end Edit

end SyntaxHighlight
