import SyntaxHighlight.Tree.Walk

/-!
# What a walk visits

A walk goes through the places at and below its start with a cursor and a stack. It takes two steps
for each of them, one to enter it and one to visit it (`Walk.takes_subtree`), and what it visits is
what the recursion on the tree lists (`Cursor.walk_eq_postorder`). A place below some siblings is at
or below one of them (`Cursor.mem_childrenPostorder`).
-/

namespace SyntaxHighlight

namespace Walk

open Cursor

/-- A walk takes a number of steps to another state, and visits some places on the way. -/
inductive Takes : Nat → Walk → List Cursor → Walk → Prop
  | rest (w : Walk) : Takes 0 w [] w
  | step {n : Nat} {w w' w'' : Walk} {visited : Option Cursor} {seen : List Cursor}
      (hstep : w.step = some (visited, w')) (hrest : Takes n w' seen w'') :
      Takes (n + 1) w (visited.toList ++ seen) w''

/-- Two stretches of a walk make one. -/
theorem Takes.trans {m n : Nat} {w w' w'' : Walk} {seen seen' : List Cursor}
    (h : Takes m w seen w') (h' : Takes n w' seen' w'') : Takes (m + n) w (seen ++ seen') w'' := by
  induction h with
  | rest w => simpa using h'
  | step hstep _ ih =>
    rw [List.append_assoc, Nat.add_right_comm]
    exact .step hstep (ih h')

/-- What is visited on the way comes first among what is still to be visited. -/
theorem Takes.visits_eq {n : Nat} {w w' : Walk} {seen : List Cursor} (h : Takes n w seen w') :
    w.visits = seen ++ w'.visits := by
  induction h with
  | rest w => rfl
  | step hstep _ ih =>
    rw [visits, List.append_assoc, ← ih]
    split
    · next hnone => rw [hstep] at hnone; cases hnone
    · next hsome =>
      rw [hstep] at hsome
      cases hsome
      rfl

/-- Where a walk goes on behind a place: to the sibling behind, unless the walk started there. -/
def behind (c : Cursor) : List Cursor → Walk
  | [] => ⟨none, []⟩
  | d :: stack => ⟨c.nextSibling?, d :: stack⟩

theorem step_enter (c : Cursor) (stack : List Cursor) :
    step ⟨some c, stack⟩ = some (none, ⟨c.firstChild?, c :: stack⟩) := rfl

theorem step_leave (c : Cursor) (stack : List Cursor) :
    step ⟨none, c :: stack⟩ = some (some c, behind c stack) := by
  cases stack with
  | nil => rfl
  | cons d stack => rfl

/-- The place of the first of some siblings, given the ones before them. -/
def first? (l : Node) (crumbs : List Crumb) (before : List Tree) : List Tree → Option Cursor
  | [] => none
  | t :: after => some ⟨t, ⟨l, before, after⟩ :: crumbs⟩

/-- Going down leads to the first of the children, if there are any. -/
theorem firstChild?_eq (l : Node) (crumbs : List Crumb) (children : List Tree) :
    firstChild? ⟨.node l children, crumbs⟩ = first? l crumbs [] children := by
  cases children with
  | nil => rfl
  | cons t ts => rfl

/-- Going on leads to the first of the siblings that are left. -/
theorem nextSibling?_eq (l : Node) (crumbs : List Crumb) (before : List Tree) (t : Tree)
    (after : List Tree) :
    nextSibling? ⟨t, ⟨l, before, after⟩ :: crumbs⟩ = first? l crumbs (t :: before) after := by
  cases after with
  | nil => rfl
  | cons s after => rfl

mutual

/-- A walk that enters a place visits all places at and below it, and then goes on behind it. -/
theorem takes_subtree (crumbs : List Crumb) (stack : List Cursor) : ∀ t : Tree,
    Takes (2 * t.size) ⟨some ⟨t, crumbs⟩, stack⟩ (postorderFrom crumbs t)
      (behind ⟨t, crumbs⟩ stack)
  | .node l children => by
    -- The place waits on the stack while its children are visited, and is visited behind them.
    have hchildren := takes_siblings l crumbs ⟨.node l children, crumbs⟩ stack [] children
    rw [← firstChild?_eq] at hchildren
    have hleave := hchildren.trans (.step (step_leave _ stack) (.rest _))
    rw [Tree.size, postorderFrom]
    exact .step (step_enter _ stack) hleave

/-- With their parent on the stack, a walk visits the places at and below some siblings. -/
theorem takes_siblings (l : Node) (crumbs : List Crumb) (d : Cursor) (stack : List Cursor)
    (before : List Tree) : ∀ after : List Tree,
    Takes (2 * Tree.forestSize after) ⟨first? l crumbs before after, d :: stack⟩
      (childrenPostorder l crumbs before after) ⟨none, d :: stack⟩
  | [] => by
    rw [childrenPostorder]
    exact .rest _
  | t :: after => by
    have hfirst := takes_subtree (⟨l, before, after⟩ :: crumbs) (d :: stack) t
    rw [behind, nextSibling?_eq] at hfirst
    rw [childrenPostorder, Tree.forestSize, Nat.mul_add]
    exact hfirst.trans (takes_siblings l crumbs d stack (t :: before) after)

end

theorem visits_over : visits ⟨none, []⟩ = [] := by
  rw [visits]
  rfl

end Walk

namespace Cursor

/-- A place below some siblings is at or below one of them. -/
theorem mem_childrenPostorder {l : Node} {crumbs : List Crumb} {c : Cursor} {ts : List Tree} :
    ∀ {before : List Tree}, c ∈ childrenPostorder l crumbs before ts →
      ∃ t ∈ ts, ∃ crumb, c ∈ postorderFrom (crumb :: crumbs) t := by
  induction ts with
  | nil =>
    intro before hc
    rw [childrenPostorder] at hc
    cases hc
  | cons t after ih =>
    intro before hc
    rw [childrenPostorder, List.mem_append] at hc
    rcases hc with hc | hc
    · exact ⟨t, List.mem_cons_self, _, hc⟩
    · obtain ⟨s, hs, crumb, hc⟩ := ih hc
      exact ⟨s, List.mem_cons_of_mem t hs, crumb, hc⟩

/-- A walk visits the places at and below its start, children before their parents. -/
theorem walk_eq_postorder (c : Cursor) : c.walk = c.postorder := by
  rw [walk, (Walk.takes_subtree c.crumbs [] c.focus).visits_eq, postorder]
  -- the walk started with an empty stack, so it is over behind the place it started at
  show _ ++ Walk.visits ⟨none, []⟩ = _
  rw [Walk.visits_over, List.append_nil]

end Cursor

end SyntaxHighlight
