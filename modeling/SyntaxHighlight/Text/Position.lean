/-!
# Positions and ranges

A position is a row and a column, both counted from zero; columns count bytes. A range goes from one
position up to, and not including, another.
-/

namespace SyntaxHighlight

structure Position where
  row : Nat
  column : Nat
deriving DecidableEq, Repr

namespace Position

def origin : Position := ⟨0, 0⟩

def before (p q : Position) : Bool := p.row < q.row || (p.row == q.row && p.column < q.column)

def notAfter (p q : Position) : Bool := !q.before p

def text (p : Position) : String := p.row.repr ++ ":" ++ p.column.repr

/-- The position behind one more byte: a line feed starts the next row. -/
def next (p : Position) (byte : UInt8) : Position :=
  if byte = 0x0A then ⟨p.row + 1, 0⟩ else ⟨p.row, p.column + 1⟩

def advance (p : Position) (bytes : List UInt8) : Position := bytes.foldl next p

@[simp] theorem advance_nil (p : Position) : p.advance [] = p := rfl

@[simp] theorem advance_append (p : Position) (a b : List UInt8) :
    p.advance (a ++ b) = (p.advance a).advance b := List.foldl_append

end Position

structure Range where
  start : Position
  stop : Position
deriving DecidableEq, Repr

namespace Range

/-- Whether the range holds nothing, because it ends where it starts or before. -/
def isEmpty (r : Range) : Bool := !r.start.before r.stop

def isMultiline (r : Range) : Bool := r.start.row < r.stop.row

def text (r : Range) : String := r.start.text ++ "-" ++ r.stop.text

/-- Whether a range comes no later than another by start, and by end if they start together. -/
def notAfter (r s : Range) : Bool :=
  r.start.before s.start || (r.start == s.start && r.stop.notAfter s.stop)

end Range

end SyntaxHighlight
