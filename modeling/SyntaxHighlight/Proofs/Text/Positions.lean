import SyntaxHighlight.Prelude
import SyntaxHighlight.Proofs.Text.Split

/-!
# Positions of a text

The positions of a text are those behind some of its bytes. On its row such a position stands at
most one column behind the counted part of the line: between a carriage return, which does not
count, and the line feed (`Position.InText.column_le`).

A range contains the cells from its start up to its end. It covers the ones among them that are not
behind the counted part of a line, and on the row where it ends all of them
(`Range.covers_of_contains`).
-/

namespace SyntaxHighlight

namespace Text

/-- The number of bytes of the line on a row; behind the last line there are none. -/
def sizeOfRow (text : String) (row : Nat) : Nat := ((lineSizes text)[row]?).getD 0

/-- At most one byte of a line does not count, its carriage return. -/
theorem length_le_lineSize (line : List UInt8) : line.length ≤ lineSize line + 1 := by
  unfold lineSize
  split <;> omega

/-- A line feed ends an empty line, and any other byte belongs to the first line. -/
theorem lines_cons (b : UInt8) (rest : List UInt8) :
    lines (b :: rest) =
      if b = 0x0A then [] :: lines rest else (lines rest).modifyHead (b :: ·) := by
  simp [lines, List.splitOn_eq_splitOnP, List.splitOnP_cons_eq_if_modifyHead]

end Text

namespace Position

theorem before_iff {p q : Position} :
    p.before q = true ↔ p.row < q.row ∨ p.row = q.row ∧ p.column < q.column := by
  simp [before]

theorem notAfter_iff {p q : Position} :
    p.notAfter q = true ↔ p.row < q.row ∨ p.row = q.row ∧ p.column ≤ q.column := by
  rw [notAfter, Bool.not_eq_true', ← Bool.not_eq_true, before_iff]
  omega

theorem notAfter_trans {p q r : Position} (h : p.notAfter q = true) (h' : q.notAfter r = true) :
    p.notAfter r = true := by
  rw [notAfter_iff] at *
  omega

theorem before_of_before_of_notAfter {p q r : Position} (h : p.before q = true)
    (h' : q.notAfter r = true) : p.before r = true := by
  rw [before_iff] at *
  rw [notAfter_iff] at h'
  omega

/-- A position stands behind some of the bytes of a text. -/
def InText (text : String) (p : Position) : Prop :=
  ∃ front back, Text.bytes text = front ++ back ∧ p = origin.advance front

theorem inText_advance_take (text : String) (n : Nat) :
    (origin.advance ((Text.bytes text).take n)).InText text :=
  ⟨_, (Text.bytes text).drop n, (List.take_append_drop n _).symm, rfl⟩

/-- Behind some bytes one stands on one of the lines, in front of the rest of it; on the first line
the columns count on from where they started. -/
theorem exists_line_advance (back : List UInt8) : ∀ (front : List UInt8) (p : Position),
    ∃ k head,
      (Text.lines (front ++ back))[k]? = some (head ++ back.takeWhile (· != 0x0A)) ∧
      (p.advance front).row = p.row + k ∧
      (p.advance front).column = head.length + if k = 0 then p.column else 0
  | [], p => by
    refine ⟨0, [], ?_, rfl, ?_⟩
    · rw [List.nil_append, List.nil_append, Text.lines, getElem?_splitOn_zero]
    · rw [advance_nil, if_pos rfl, List.length_nil, Nat.zero_add]
  | b :: front, p => by
    obtain ⟨k, head, hline, hrow, hcolumn⟩ := exists_line_advance back front (p.next b)
    show ∃ k head,
      (Text.lines (b :: (front ++ back)))[k]? = some (head ++ back.takeWhile (· != 0x0A)) ∧
      ((p.next b).advance front).row = p.row + k ∧
      ((p.next b).advance front).column = head.length + if k = 0 then p.column else 0
    rw [Text.lines_cons]
    by_cases hb : b = 0x0A
    · -- A line feed: the lines that follow are one row further down, and columns start again.
      have hnext : p.next b = ⟨p.row + 1, 0⟩ := if_pos hb
      rw [if_pos hb]
      rw [hnext] at hrow hcolumn ⊢
      dsimp only at hrow hcolumn
      refine ⟨k + 1, head, hline, by omega, ?_⟩
      rw [if_neg (Nat.succ_ne_zero k)]
      simpa using hcolumn
    · -- Any other byte makes the line it stands on one longer.
      have hnext : p.next b = ⟨p.row, p.column + 1⟩ := if_neg hb
      rw [if_neg hb]
      rw [hnext] at hrow hcolumn ⊢
      dsimp only at hrow hcolumn
      cases k with
      | zero =>
        refine ⟨0, b :: head, ?_, hrow, ?_⟩
        · rw [List.getElem?_modifyHead_zero, hline]
          rfl
        · rw [if_pos rfl] at hcolumn ⊢
          rw [List.length_cons]
          omega
      | succ k =>
        refine ⟨k + 1, head, ?_, hrow, ?_⟩
        · rw [List.getElem?_modifyHead_succ, hline]
        · rw [if_neg (Nat.succ_ne_zero k)] at hcolumn ⊢
          exact hcolumn

/-- The line on whose row one stands behind some bytes of a text, and how far on. -/
theorem exists_line_of_bytes {text : String} {front back : List UInt8}
    (htext : Text.bytes text = front ++ back) :
    ∃ head, Text.sizeOfRow text (origin.advance front).row =
        Text.lineSize (head ++ back.takeWhile (· != 0x0A)) ∧
      (origin.advance front).column = head.length := by
  obtain ⟨k, head, hline, hrow, hcolumn⟩ := exists_line_advance back front origin
  refine ⟨head, ?_, ?_⟩
  · rw [hrow, Text.sizeOfRow, Text.lineSizes, htext]
    show (((Text.lines (front ++ back)).map Text.lineSize)[0 + k]?).getD 0 = _
    rw [Nat.zero_add, List.getElem?_map, hline]
    rfl
  · have hzero : (if k = 0 then origin.column else 0) = 0 := by split <;> rfl
    omega

/-- A position of a text is at most one column behind the counted part of its line. -/
theorem InText.column_le {text : String} {p : Position} (h : p.InText text) :
    p.column ≤ Text.sizeOfRow text p.row + 1 := by
  obtain ⟨front, back, htext, rfl⟩ := h
  obtain ⟨head, hsize, hcolumn⟩ := exists_line_of_bytes htext
  have hlength := Text.length_le_lineSize (head ++ back.takeWhile (· != 0x0A))
  rw [List.length_append] at hlength
  omega

end Position

namespace Range

/-- A range contains a cell: it starts there or before, and ends behind. -/
def Contains (r : Range) (p : Position) : Prop :=
  r.start.notAfter p = true ∧ p.before r.stop = true

/-- A range lies inside another. -/
def Within (r s : Range) : Prop :=
  s.start.notAfter r.start = true ∧ r.stop.notAfter s.stop = true

theorem Within.trans {r s u : Range} (h : r.Within s) (h' : s.Within u) : r.Within u :=
  ⟨Position.notAfter_trans h'.1 h.1, Position.notAfter_trans h.2 h'.2⟩

theorem within_refl (r : Range) : r.Within r := by
  constructor <;>
  · rw [Position.notAfter_iff]
    omega

/-- The column at which a range starts on one of its rows. -/
def startOn (r : Range) (row : Nat) : Nat := if row = r.start.row then r.start.column else 0

/-- The column at which a range ends on one of its rows: where it ends, or else with the line. -/
def stopOn (r : Range) (text : String) (row : Nat) : Nat :=
  if row = r.stop.row then r.stop.column else Text.sizeOfRow text row

/-- A range covers the cells from its start to its end on each of its rows, told row by row. -/
theorem covers_iff {r : Range} {text : String} {row column length : Nat} :
    r.Covers text row column length ↔ r.start.row ≤ row ∧ row ≤ r.stop.row ∧
      r.startOn row ≤ column ∧ column < r.stopOn text row ∧
      length = r.stopOn text row - r.startOn row := by
  constructor
  · rintro ⟨part, hpart, rfl, hlo, hhi, rfl⟩
    obtain ⟨row, hfirst, hlast, rfl, -⟩ := mem_split_iff.1 hpart
    exact ⟨hfirst, hlast, hlo, hhi, rfl⟩
  · rintro ⟨hfirst, hlast, hlo, hhi, rfl⟩
    have hpart : r.onRow (Text.lineSizes text) row ∈ r.split text :=
      mem_split_iff.2 ⟨row, hfirst, hlast, rfl, Nat.lt_of_le_of_lt hlo hhi⟩
    exact ⟨_, hpart, rfl, hlo, hhi, rfl⟩

/-- The cells that a range covers are among those it contains. -/
theorem contains_of_covers {r : Range} {text : String} {row column length : Nat}
    (h : r.Covers text row column length) : r.Contains ⟨row, column⟩ := by
  obtain ⟨hfirst, hlast, hlo, hhi, -⟩ := covers_iff.1 h
  unfold startOn at hlo
  unfold stopOn at hhi
  rw [Contains, Position.notAfter_iff, Position.before_iff]
  dsimp only
  constructor
  · split at hlo <;> omega
  · split at hhi <;> omega

/-- A cell of a range is covered if the range ends on its row, or if it is in the counted part of
its line. -/
theorem covers_of_contains {r : Range} {text : String} {row column : Nat}
    (h : r.Contains ⟨row, column⟩)
    (hcounted : row = r.stop.row ∨ column < Text.sizeOfRow text row) :
    r.Covers text row column (r.stopOn text row - r.startOn row) := by
  rw [Contains, Position.notAfter_iff, Position.before_iff] at h
  dsimp only at h
  rw [covers_iff]
  refine ⟨by omega, by omega, ?_, ?_, rfl⟩
  · unfold startOn
    split <;> omega
  · unfold stopOn
    split <;> omega

section Inside

variable {r s : Range} {text : String} {row column : Nat}

/-- A range inside another starts on no row before it. -/
theorem Within.startOn_le (h : r.Within s) (hr : r.Contains ⟨row, column⟩) :
    s.startOn row ≤ r.startOn row := by
  have hstart := Position.notAfter_iff.1 h.1
  have hfirst := Position.notAfter_iff.1 hr.1
  dsimp only at hfirst
  unfold startOn
  split <;> split <;> omega

/-- Of a range that ends on a row, what lies inside ends there too, or on an earlier one. -/
theorem Within.stop_le (h : r.Within s) (hr : r.Contains ⟨row, column⟩) (hrow : row = s.stop.row) :
    row = r.stop.row ∧ r.stop.column ≤ s.stop.column := by
  have hstop := Position.notAfter_iff.1 h.2
  have hlast := Position.before_iff.1 hr.2
  dsimp only at hlast
  omega

/-- Of the cells that a range covers, one inside it covers those that it contains. -/
theorem Within.covers (h : r.Within s) (hr : r.Contains ⟨row, column⟩) {length : Nat}
    (hs : s.Covers text row column length) :
    r.Covers text row column (r.stopOn text row - r.startOn row) := by
  apply covers_of_contains hr
  obtain ⟨-, -, -, hhi, -⟩ := covers_iff.1 hs
  unfold stopOn at hhi
  split at hhi
  · next hrow => exact .inl (h.stop_le hr hrow).1
  · exact .inr hhi

/-- The part of a range on a row is no longer than that of a range around it, unless only the inner
one ends on the row. -/
theorem Within.length_le (h : r.Within s) (hr : r.Contains ⟨row, column⟩)
    (hrows : row < s.stop.row → row < r.stop.row) (hlast : row ≤ s.stop.row) :
    r.stopOn text row - r.startOn row ≤ s.stopOn text row - s.startOn row := by
  have hstart := h.startOn_le hr
  -- both ranges end on this row, the inner one no later, or both go on to the next
  have hstop : r.stopOn text row ≤ s.stopOn text row := by
    unfold stopOn
    by_cases hrow : row = s.stop.row
    · obtain ⟨hrow', hcolumn⟩ := h.stop_le hr hrow
      rw [if_pos hrow, if_pos hrow']
      exact hcolumn
    · apply Nat.le_of_eq
      rw [if_neg hrow, if_neg (by omega)]
  omega

/-- A range ends behind the counted part of a row, another one goes on to the next row, and both
start at one column of the row. Then the first is the longer one on the row, by the carriage return
that it ends with. -/
structure Overruns (r s : Range) (text : String) (p : Position) : Prop where
  endsOn : p.row = r.stop.row
  endsBehind : Text.sizeOfRow text p.row < r.stop.column
  goesOn : p.row < s.stop.row
  start : r.startOn p.row = s.startOn p.row
  counted : p.column < Text.sizeOfRow text p.row

/-- A range can only be longer on a row than a range around it by overrunning it. -/
theorem Within.overruns (h : r.Within s) (hr : r.Contains ⟨row, column⟩)
    (htext : r.stop.InText text) {length : Nat} (hs : s.Covers text row column length)
    (hlonger : length < r.stopOn text row - r.startOn row) :
    r.Overruns s text ⟨row, column⟩ := by
  obtain ⟨-, hlast, -, hhi, rfl⟩ := covers_iff.1 hs
  -- otherwise the part would be no longer
  have hrows : ¬ (row < s.stop.row → row < r.stop.row) := by
    intro hrows
    exact Nat.not_le_of_lt hlonger (h.length_le hr hrows hlast)
  have hends : row ≤ r.stop.row := by
    have := Position.before_iff.1 hr.2
    dsimp only at this
    omega
  -- So only the inner range ends on the row, and it can do so one column behind the line at most.
  have hrow : row = r.stop.row := by omega
  have hstop := htext.column_le
  have hstart := h.startOn_le hr
  rw [← hrow] at hstop
  rw [stopOn, if_neg (by omega)] at hhi hlonger
  rw [stopOn, if_pos hrow] at hlonger
  constructor
  all_goals dsimp only
  all_goals omega

/-- A range that overruns another is the longer one on the row. -/
theorem Overruns.shorter (h : r.Overruns s text ⟨row, column⟩) (hs : s.Contains ⟨row, column⟩)
    {length : Nat} (hr : r.Covers text row column length) :
    ∃ length', s.Covers text row column length' ∧ length' < length := by
  refine ⟨_, covers_of_contains hs (.inr h.counted), ?_⟩
  obtain ⟨-, -, hlo, -, rfl⟩ := covers_iff.1 hr
  obtain ⟨hends, hbehind, hgoes, hstart, hcounted⟩ := h
  dsimp only at *
  -- the outer range goes on, so its part stops where the counted part of the line does
  have hrow : row ≠ s.stop.row := by omega
  rw [stopOn, stopOn, if_pos hends, if_neg hrow]
  omega

end Inside

end Range

end SyntaxHighlight
