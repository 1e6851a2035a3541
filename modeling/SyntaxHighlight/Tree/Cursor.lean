import SyntaxHighlight.Tree.Basic

/-!
# Cursors

A cursor is a place in a tree: the subtree that stands there and, step by step up to the root, the
siblings on both sides and the parent. From a cursor one can go to the parent, the first child and
the siblings next to it; the root has no siblings.
-/

namespace SyntaxHighlight

/-- One step down: the parent, and what stands beside the child that was chosen. -/
structure Crumb where
  parent : Node
  /-- The siblings before the child, the nearest first. -/
  before : List Tree
  /-- The siblings behind the child, the nearest first. -/
  after : List Tree

structure Cursor where
  focus : Tree
  /-- The way up to the root. -/
  crumbs : List Crumb

namespace Cursor

def ofTree (t : Tree) : Cursor := ⟨t, []⟩

def node (c : Cursor) : Node := c.focus.label

/-- The siblings before a place, the nearest first. -/
def before (c : Cursor) : List Tree :=
  match c.crumbs with
  | [] => []
  | crumb :: _ => crumb.before

/-- The siblings behind a place, the nearest first. -/
def after (c : Cursor) : List Tree :=
  match c.crumbs with
  | [] => []
  | crumb :: _ => crumb.after

def parent? (c : Cursor) : Option Cursor :=
  match c.crumbs with
  | [] => none
  | crumb :: crumbs =>
    some ⟨.node crumb.parent (crumb.before.reverse ++ c.focus :: crumb.after), crumbs⟩

def firstChild? (c : Cursor) : Option Cursor :=
  match c.focus with
  | .node _ [] => none
  | .node l (t :: ts) => some ⟨t, ⟨l, [], ts⟩ :: c.crumbs⟩

def nextSibling? (c : Cursor) : Option Cursor :=
  match c.crumbs with
  | ⟨l, before, t :: after⟩ :: crumbs => some ⟨t, ⟨l, c.focus :: before, after⟩ :: crumbs⟩
  | _ => none

def prevSibling? (c : Cursor) : Option Cursor :=
  match c.crumbs with
  | ⟨l, t :: before, after⟩ :: crumbs => some ⟨t, ⟨l, before, c.focus :: after⟩ :: crumbs⟩
  | _ => none

/-- The nodes above a place, the nearest first. -/
def ancestors (c : Cursor) : List Node := c.crumbs.map (·.parent)

/-! ### Places below a place -/

mutual

/-- The places at and below the root of a tree, the children of each from left to right and then
itself. -/
def postorderFrom (crumbs : List Crumb) : Tree → List Cursor
  | .node l children => childrenPostorder l crumbs [] children ++ [⟨.node l children, crumbs⟩]

/-- The places at and below some siblings, given the ones before them. -/
def childrenPostorder (l : Node) (crumbs : List Crumb) (before : List Tree) :
    List Tree → List Cursor
  | [] => []
  | t :: after =>
    postorderFrom (⟨l, before, after⟩ :: crumbs) t ++ childrenPostorder l crumbs (t :: before) after

end

/-- The places at and below a place, children before their parents and from left to right. -/
def postorder (c : Cursor) : List Cursor := postorderFrom c.crumbs c.focus

/-- The place at or below a place whose node has a number. -/
def find? (c : Cursor) (index : Nat) : Option Cursor := c.postorder.find? (·.node.index == index)

/-! ### Sizes, for walks -/

/-- The number of nodes at and below the siblings behind a place. -/
def afterSize (c : Cursor) : Nat := Tree.forestSize c.after

theorem firstChild?_size {c d : Cursor} (h : c.firstChild? = some d) :
    d.focus.size + d.afterSize + 1 = c.focus.size := by
  obtain ⟨⟨l, cs⟩, crumbs⟩ := c
  cases cs with
  | nil => simp [firstChild?] at h
  | cons t ts =>
    simp only [firstChild?, Option.some.injEq] at h
    subst h
    simp [afterSize, after, Tree.size, Tree.forestSize]

theorem nextSibling?_size {c d : Cursor} (h : c.nextSibling? = some d) :
    d.focus.size + d.afterSize = c.afterSize := by
  obtain ⟨t, crumbs⟩ := c
  match crumbs with
  | [] => simp [nextSibling?] at h
  | ⟨l, before, []⟩ :: _ => simp [nextSibling?] at h
  | ⟨l, before, s :: rest⟩ :: _ =>
    simp only [nextSibling?, Option.some.injEq] at h
    subst h
    simp [afterSize, after, Tree.forestSize]

end Cursor

end SyntaxHighlight
