import SyntaxHighlight.Scope.Match
import SyntaxHighlight.Tree.Walk

/-!
# Highlights

A highlight gives a range of text a term. The highlights of a tree are those of its nodes, in
the order in which a walk visits them: children before their parents, from left to right.
-/

namespace SyntaxHighlight

/-- A term for a range of text. -/
structure Highlight where
  term : Term
  range : Range
deriving DecidableEq, Repr

namespace Highlight

/-- The written form `row:column-row:column term`. -/
def text (a : Highlight) : String := a.range.text ++ " " ++ a.term

end Highlight

namespace Cursor

def highlight? (c : Cursor) (g : Grammar) : Option Highlight :=
  (c.term? g).map fun term => ⟨term, c.node.range⟩

def highlights (c : Cursor) (g : Grammar) : List Highlight :=
  c.walk.filterMap (·.highlight? g)

end Cursor

def Tree.highlights (t : Tree) (g : Grammar) : List Highlight := (Cursor.ofTree t).highlights g

end SyntaxHighlight
