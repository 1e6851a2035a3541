import SyntaxHighlight.Grammar.Basic
import SyntaxHighlight.Tree.Cursor

/-!
# Matching nodes with scope patterns

A node is matched with the patterns of a grammar by writing down the canonical keys of all patterns
that it could match, from the least to the most specific: first the node alone, then with its
parent, and so on up to the greatest depth; for each of these plain, with its place among its
siblings counted from the front, and counted from the back. The last key that the grammar knows
gives the term.
-/

namespace SyntaxHighlight

namespace Cursor

def key (c : Cursor) : String := c.node.key

/-- A key and its extensions by ancestors, the nearest first. -/
def extendKey (key : String) : List Node → List String
  | [] => [key]
  | parent :: rest => key :: extendKey (parent.key ++ Scope.separator ++ key) rest

/-- The keys of the node alone, with its parent, and so on for at most `depth` ancestors. -/
def chainKeys (c : Cursor) (depth : Nat) : List String := extendKey c.key (c.ancestors.take depth)

/-- How many siblings of the same type stand before the node and behind it. -/
def siblingRank (c : Cursor) : Nat × Nat :=
  (c.before.countP (·.label.key == c.key), c.after.countP (·.label.key == c.key))

/-- A key plain, and with the node's place among its siblings from the front and from the back. -/
def withOrder (before after : Nat) (key : String) : List String :=
  [key, key ++ (Scope.Order.forward before).text, key ++ (Scope.Order.backward (after + 1)).text]

/-- The keys of all patterns that the node could match, the most specific last. -/
def candidateKeys (c : Cursor) (g : Grammar) : List String :=
  let chain := c.chainKeys g.maxDepth
  if g.usesOrder then
    let (before, after) := c.siblingRank
    chain.flatMap (withOrder before after)
  else chain

def term? (c : Cursor) (g : Grammar) : Option Term :=
  let simple := g.simpleTerm? c.key
  if g.isComplex c.key then
    (c.candidateKeys g).foldl (fun found key => (g.scopeTerm? key).or found) simple
  else simple

end Cursor

end SyntaxHighlight
