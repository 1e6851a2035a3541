import SyntaxHighlight.Buckets
import SyntaxHighlight.Legend

/-!
# Semantic tokens

Highlights become a stream of tokens that neither overlap nor go over line ends. On each row the
highlights are cut at every boundary between them, and each span goes to the shortest one that
covers it, the earliest in the list if several are equally short; so the innermost term wins.
Neighbouring spans of one highlight are one token.

Each token is written relative to the one before: the difference of the rows, and of the columns if
both are on one row.
-/

namespace SyntaxHighlight

/-- A token as it is sent, all in 32 bits: how far it is from the token before, its length and the
number of its term. -/
structure Token where
  deltaLine : UInt32
  deltaStart : UInt32
  length : UInt32
  tokenType : UInt32
deriving DecidableEq, Repr

/-- The bits of the modifiers of a token: there are none. -/
def Token.modifiers (_ : Token) : UInt32 := 0

structure RowPart where
  row : Nat
  start : Nat
  stop : Nat
  /-- The number of the highlight's term. -/
  tokenType : UInt32
  /-- The place of the highlight in its list. -/
  order : Nat
deriving DecidableEq, Repr

namespace RowPart

def length (p : RowPart) : Nat := p.stop - p.start

/-- Whether a part comes no later than another: by row, then by start, then by end, then by the
place of its highlight. -/
def notAfter (p q : RowPart) : Bool :=
  p.row < q.row || (p.row == q.row &&
    (p.start < q.start || (p.start == q.start &&
      (p.stop < q.stop || (p.stop == q.stop && p.order ≤ q.order)))))

/-- Whether a part goes before another where both cover a span: the shorter one does, and of two
equally long ones the one that comes first. -/
def wins (p q : RowPart) : Bool :=
  p.length < q.length || (p.length == q.length && p.order < q.order)

/-- The parts of the highlights with a term in the legend. -/
def ofHighlights (highlights : List Highlight) (legend : Legend) (text : String) : List RowPart :=
  highlights.zipIdx.flatMap fun (a, order) =>
    match legend.index? a.term with
    | none => []
    | some tokenType => (a.range.split text).map fun r =>
        ⟨r.start.row, r.start.column, r.stop.column, tokenType, order⟩

/-- The parts row by row, those of one row in the order of their starts. -/
def byRow (parts : List RowPart) : List (List RowPart) :=
  (parts.mergeSort notAfter).splitBy fun p q => p.row == q.row

def winner? (parts : List RowPart) : Option RowPart :=
  parts.foldl (fun best p =>
    match best with
    | none => some p
    | some q => if p.wins q then some p else some q) none

end RowPart

structure Span where
  row : Nat
  start : Nat
  stop : Nat
  tokenType : UInt32
  order : Nat
deriving DecidableEq, Repr

namespace Span

/-- The boundaries of some parts, each once and in increasing order. -/
def bounds (parts : List RowPart) : List Nat :=
  ((parts.flatMap fun p => [p.start, p.stop]).mergeSort (fun a b => a ≤ b)).eraseReps

/-- Go over the boundaries and give the span between each and the next to the part that wins there,
if any. The parts that cover the span are active; those that start later wait, in the order of their
starts. -/
def sweep (waiting active : List RowPart) : List Nat → List Span
  | lo :: hi :: rest =>
    let begun := waiting.takeWhile (·.start ≤ lo)
    let active := active.filter (hi ≤ ·.stop) ++ begun.filter (hi ≤ ·.stop)
    let later := sweep (waiting.dropWhile (·.start ≤ lo)) active (hi :: rest)
    match RowPart.winner? active with
    | none => later
    | some p => ⟨p.row, lo, hi, p.tokenType, p.order⟩ :: later
  | _ => []

/-- Join neighbouring spans of one highlight. -/
def join : List Span → List Span
  | [] => []
  | s :: rest =>
    match join rest with
    | [] => [s]
    | t :: others =>
      if s.order = t.order && s.stop = t.start then { s with stop := t.stop } :: others
      else s :: t :: others

/-- The spans of one row, whose parts come in the order of their starts. -/
def ofRow (parts : List RowPart) : List Span := join (sweep parts [] (bounds parts))

def ofParts (parts : List RowPart) : List Span := (RowPart.byRow parts).flatMap ofRow

end Span

namespace Token

/-- Write spans as tokens relative to the row and the column of the token before. -/
def relative (line start : UInt32) : List Span → List Token
  | [] => []
  | s :: rest =>
    let line' := s.row.toUInt32
    let start' := s.start.toUInt32
    let deltaLine := line' - line
    let deltaStart := if deltaLine = 0 then start' - start else start'
    let length := (s.stop - s.start).toUInt32
    ⟨deltaLine, deltaStart, length, s.tokenType⟩ :: relative line' start' rest

/-- The tokens of some highlights; highlights with a term outside the legend are left out. -/
def encode (highlights : List Highlight) (legend : Legend) (text : String) : List Token :=
  relative 0 0 (Span.ofParts (RowPart.ofHighlights highlights legend text))

end Token

end SyntaxHighlight
