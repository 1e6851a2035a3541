import SyntaxHighlight.Text.Position

/-!
# Syntax trees

A syntax tree is a node with its children in order. A node has a kind, the range of text that it
covers, and is either named or a token, whose kind is its text.

Parsers hand trees over as a list of nodes in which every node comes behind its parent;
`Tree.ofListing?` puts such a list together.
-/

namespace SyntaxHighlight

/-- What is known of a node apart from where it stands. -/
structure Node where
  /-- The number of the node in the parser's listing. -/
  index : Nat
  kind : String
  named : Bool
  range : Range
deriving DecidableEq, Repr

/-- The key under which rules know nodes of this type: the kind, in double quotes for a token. -/
def Node.key (n : Node) : String := if n.named then n.kind else "\"" ++ n.kind ++ "\""

inductive Tree where
  | node (label : Node) (children : List Tree)
deriving Repr

namespace Tree

def label : Tree → Node
  | .node l _ => l

def children : Tree → List Tree
  | .node _ cs => cs

mutual

def size : Tree → Nat
  | .node _ cs => forestSize cs + 1

def forestSize : List Tree → Nat
  | [] => 0
  | t :: ts => t.size + forestSize ts

end

theorem size_eq (t : Tree) : t.size = forestSize t.children + 1 := by cases t; simp [size, children]

theorem size_pos (t : Tree) : 0 < t.size := by rw [size_eq]; omega

/-! ### Trees from listings -/

/-- A node in a listing, with the number of its parent; the root has none. -/
structure Listed where
  node : Node
  parent : Option Nat
deriving Repr

/-- The listed nodes below a parent, each with the trees below it. Nodes come behind their parents,
so the children of a node are among the nodes behind it. -/
def forestBelow (parent : Nat) : List Listed → List Tree
  | [] => []
  | l :: rest =>
    if l.parent = some parent then
      .node l.node (forestBelow l.node.index rest) :: forestBelow parent rest
    else forestBelow parent rest

/-- The tree whose root comes first in a listing. -/
def ofListing? : List Listed → Option Tree
  | [] => none
  | root :: rest => some (.node root.node (forestBelow root.node.index rest))

end Tree

end SyntaxHighlight
