/-!
# Scope patterns

A scope pattern names a chain of nodes, the most distant ancestor first:

    call_expression > identifier        template_string > "$("        argument_list > identifier[-1]

Each segment is a node type, bare for a named node and in double quotes for a token, and may carry
an order qualifier that counts siblings of the same type: `[n]` says that `n` of them come before
the node, `[-n]` that `n - 1` of them come after it.

The canonical key of a pattern writes its segments with one fixed spacing, so that matching a
pattern is comparing keys.
-/

namespace SyntaxHighlight

namespace Scope

/-- How many siblings of the same type stand before or after a node. -/
inductive Order where
  /-- Written `[n]`: `n` of them come before the node. -/
  | forward (n : Nat)
  /-- Written `[-n]`: `n - 1` of them come after the node. -/
  | backward (n : Nat)
deriving DecidableEq, Repr

def Order.text : Order → String
  | .forward n => "[" ++ n.repr ++ "]"
  | .backward n => "[-" ++ n.repr ++ "]"

/-- One element of a pattern: the type of a node and what is asked of its siblings. -/
structure Segment where
  /-- The bare name of a node type, or a token in double quotes. -/
  key : String
  order : Option Order
deriving DecidableEq, Repr

/-- Whether the segment stands for a token. -/
def Segment.isLiteral (s : Segment) : Bool := s.key.toList.head? == some '"'

def Segment.text (s : Segment) : String :=
  match s.order with
  | none => s.key
  | some order => s.key ++ order.text

/-- What stands between two segments of a canonical key. -/
def separator : String := " > "

/-- A chain of segments, the most distant ancestor first. -/
structure Pattern where
  segments : List Segment
deriving DecidableEq, Repr

namespace Pattern

/-- How many ancestors the pattern speaks of. -/
def depth (p : Pattern) : Nat := p.segments.length - 1

def usesOrder (p : Pattern) : Bool := p.segments.any (·.order.isSome)

/-- Whether a segment other than the last carries an order qualifier. Only the node itself is
compared with its siblings, so such a pattern matches nothing. -/
def qualifiesAncestor (p : Pattern) : Bool := p.segments.dropLast.any (·.order.isSome)

/-- The key under which the pattern is stored. -/
def canonical (p : Pattern) : String := separator.intercalate (p.segments.map (·.text))

end Pattern

inductive PatternError where
  | emptySegment
  | unterminatedLiteral (text : String)
  | invalidQualifier (text : String)
  | invalidType (text : String)
deriving DecidableEq, Repr

def PatternError.message : PatternError → String
  | .emptySegment => "empty segment"
  | .unterminatedLiteral text => "unterminated quoted token `" ++ text ++ "`"
  | .invalidQualifier text => "invalid order qualifier `" ++ text ++ "`"
  | .invalidType text => "invalid node type `" ++ text ++ "`"

end Scope

end SyntaxHighlight
