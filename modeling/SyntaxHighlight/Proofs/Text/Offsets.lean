import Mathlib.Data.List.Induction
import SyntaxHighlight.Proofs.Text.Positions

/-!
# Positions of byte offsets

The position of a byte offset is told by the bytes in front of it alone: its row by how many of them
are line feeds, its column by how many stand behind the last line feed (`Text.positionAt`). Going
byte by byte from the start of the text leads there (`Text.positionAt_eq_advance`), and the order of
positions is the order of offsets (`Text.before_positionAt_iff`).
-/

namespace SyntaxHighlight

namespace Position

/-- The position behind some bytes at the start of a text: the number of line feeds among them, and
the number of bytes behind the last line feed. -/
def ofFront (front : List UInt8) : Position :=
  ⟨front.count 0x0A, (front.reverse.takeWhile (· != 0x0A)).length⟩

/-- Going byte by byte counts the line feeds, and the bytes since the last one. -/
theorem advance_origin (front : List UInt8) : origin.advance front = ofFront front := by
  induction front using List.reverseRecOn with
  | nil => rfl
  | append_singleton front b ih =>
    rw [advance_append, ih]
    show (ofFront front).next b = _
    by_cases hb : b = 0x0A <;> simp [next, ofFront, hb]

/-- Every byte takes a position further. -/
theorem before_next (p : Position) (b : UInt8) : p.before (p.next b) = true := by
  rw [before_iff, next]
  split
  · exact .inl (Nat.lt_succ_self _)
  · exact .inr ⟨rfl, Nat.lt_succ_self _⟩

theorem notAfter_advance (p : Position) (bytes : List UInt8) :
    p.notAfter (p.advance bytes) = true := by
  induction bytes generalizing p with
  | nil =>
    rw [advance_nil, notAfter_iff]
    exact .inr ⟨rfl, Nat.le_refl _⟩
  | cons b bytes ih =>
    have hbefore : p.before ((p.next b).advance bytes) = true :=
      before_of_before_of_notAfter (before_next p b) (ih (p.next b))
    rw [before_iff] at hbefore
    show p.notAfter ((p.next b).advance bytes) = true
    rw [notAfter_iff]
    omega

theorem before_advance (p : Position) (b : UInt8) (bytes : List UInt8) :
    p.before (p.advance (b :: bytes)) = true :=
  before_of_before_of_notAfter (before_next p b) (notAfter_advance (p.next b) bytes)

/-- Rows are counted by line feeds. -/
theorem row_advance (p : Position) (bytes : List UInt8) :
    (p.advance bytes).row = p.row + bytes.count 0x0A := by
  induction bytes generalizing p with
  | nil => rfl
  | cons b bytes ih =>
    show ((p.next b).advance bytes).row = _
    rw [ih, next]
    by_cases hb : b = 0x0A
    · rw [if_pos hb, hb, List.count_cons_self]
      dsimp only
      omega
    · rw [if_neg hb, List.count_cons_of_ne hb]

end Position

namespace Text

open Position

/-- The position of a byte offset; behind the text it is that of the end. -/
def positionAt (text : String) (offset : Nat) : Position := ofFront ((bytes text).take offset)

variable {text : String} {m n : Nat}

theorem positionAt_eq_advance (text : String) (offset : Nat) :
    positionAt text offset = origin.advance ((bytes text).take offset) :=
  (advance_origin _).symm

/-- From one offset to a later one it is the bytes between them. -/
theorem advance_positionAt (h : m ≤ n) :
    (positionAt text m).advance (((bytes text).drop m).take (n - m)) = positionAt text n := by
  have htake : (bytes text).take n = (bytes text).take m ++ ((bytes text).drop m).take (n - m) := by
    rw [← List.take_add, Nat.add_sub_cancel' h]
  rw [positionAt_eq_advance, positionAt_eq_advance, htake, advance_append]

/-- A byte stands before an offset exactly if its position does. -/
theorem before_positionAt_iff (hm : m < (bytes text).length) :
    (positionAt text m).before (positionAt text n) = true ↔ m < n := by
  constructor
  · intro hbefore
    apply Nat.lt_of_not_le
    intro hle
    -- from a later offset one would have to go back
    have hnot := notAfter_advance (positionAt text n) (((bytes text).drop n).take (m - n))
    rw [advance_positionAt hle, notAfter, hbefore] at hnot
    cases hnot
  · intro hlt
    rw [← advance_positionAt (Nat.le_of_lt hlt), List.drop_eq_getElem_cons hm,
      show n - m = n - m - 1 + 1 by omega, List.take_succ_cons]
    exact before_advance _ _ _

end Text

end SyntaxHighlight
