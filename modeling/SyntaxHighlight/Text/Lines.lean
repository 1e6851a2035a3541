import SyntaxHighlight.Text.Position

/-!
# Lines

The lines of a text end at line feeds, and a carriage return in front of a line feed, or at the end
of the text, does not count to its line. A range that goes over several lines is cut into one range
for each line on which it covers something.
-/

namespace SyntaxHighlight

namespace Text

def bytes (s : String) : List UInt8 := s.toList.flatMap String.utf8EncodeChar

/-- The number of bytes of a line without its end. -/
def lineSize (line : List UInt8) : Nat :=
  if line.getLast? = some 0x0D then line.length - 1 else line.length

/-- The bytes of each line, without the line feeds. -/
def lines (bytes : List UInt8) : List (List UInt8) := bytes.splitOn 0x0A

def lineSizes (text : String) : List Nat := (lines (bytes text)).map lineSize

end Text

namespace Range

/-- The part of a range on one of its rows; it may be empty. -/
def onRow (r : Range) (lengths : List Nat) (row : Nat) : Range :=
  let start := if row = r.start.row then r.start.column else 0
  let stop := if row = r.stop.row then r.stop.column else (lengths[row]?).getD 0
  ⟨⟨row, start⟩, ⟨row, stop⟩⟩

/-- Cut a range into its parts on the rows that it touches, and drop the empty ones. A range on a
single row is kept as it is. -/
def split (r : Range) (text : String) : List Range :=
  if r.isMultiline then
    let lengths := Text.lineSizes text
    let rows := List.range' r.start.row (r.stop.row - r.start.row + 1)
    (rows.map (r.onRow lengths)).filter fun part => part.start.column < part.stop.column
  else if r.isEmpty then []
  else [r]

end Range

end SyntaxHighlight
