import SyntaxHighlight.Tree.Cursor

/-!
# Walks

A walk visits the places at and below a place with a cursor and a stack, without recursion on the
tree: go down to first children as long as there are any, then visit what was passed last and go on
to its next sibling. The place where the walk starts is the bottom of the stack, and its siblings
are never entered.
-/

namespace SyntaxHighlight

/-- The state of a walk: the place to enter next, and the places entered but not visited, the latest
first. -/
structure Walk where
  cursor : Option Cursor
  stack : List Cursor

namespace Walk

/-- A bound on the steps that are left: two for each node that is still to be entered and one for
each that has been entered and not visited. -/
def measure (w : Walk) : Nat :=
  (match w.cursor with
    | none => 0
    | some c => 2 * (c.focus.size + c.afterSize)) +
  w.stack.foldr (fun c n => 2 * c.afterSize + 1 + n) 0

/-- One step: the state behind it and the place it visits, if any; none when the walk is over. -/
def step (w : Walk) : Option (Option Cursor × Walk) :=
  match w.cursor, w.stack with
  | some c, stack => some (none, ⟨c.firstChild?, c :: stack⟩)
  | none, [] => none
  | none, [c] => some (some c, ⟨none, []⟩)
  | none, c :: stack => some (some c, ⟨c.nextSibling?, stack⟩)

theorem measure_step {w w' : Walk} {visited : Option Cursor} (h : w.step = some (visited, w')) :
    w'.measure < w.measure := by
  obtain ⟨cursor, stack⟩ := w
  match cursor, stack with
  | some c, stack =>
    simp only [step, Option.some.injEq, Prod.mk.injEq] at h
    obtain ⟨_, rfl⟩ := h
    cases hc : c.firstChild? with
    | none => have := c.focus.size_pos; simp [measure]; omega
    | some d => have := Cursor.firstChild?_size hc; simp [measure]; omega
  | none, [] => simp [step] at h
  | none, [c] =>
    simp only [step, Option.some.injEq, Prod.mk.injEq] at h
    obtain ⟨_, rfl⟩ := h
    simp [measure]
  | none, c :: d :: stack =>
    simp only [step, Option.some.injEq, Prod.mk.injEq] at h
    obtain ⟨_, rfl⟩ := h
    cases hc : c.nextSibling? with
    | none => simp [measure]
    | some d => have := Cursor.nextSibling?_size hc; simp [measure]; omega

def visits (w : Walk) : List Cursor :=
  match _h : w.step with
  | none => []
  | some (visited, w') => visited.toList ++ visits w'
termination_by w.measure
decreasing_by exact measure_step _h

end Walk

/-- The places that a walk from a place visits, in order. -/
def Cursor.walk (c : Cursor) : List Cursor := Walk.visits ⟨some c, []⟩

end SyntaxHighlight
