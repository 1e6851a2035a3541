import SyntaxHighlight.Text.Lines

/-!
# Ranges row by row

Whether a range is kept as it is or cut at line ends, its parts are described in one way: there is
one for each row from its first to its last on which something of it is left (`mem_split_iff`). A
range covers the cells of its parts.
-/

namespace SyntaxHighlight

namespace Range

/-- A range on a single row is its part on that row. -/
theorem onRow_of_row_eq {r : Range} (h : r.start.row = r.stop.row) (sizes : List Nat) :
    r.onRow sizes r.start.row = r := by
  obtain ⟨⟨row, start⟩, ⟨row', stop⟩⟩ := r
  obtain rfl : row = row' := h
  simp [onRow]

/-- The parts of a range are what is left of it on its rows, one for each row on which something
is. -/
theorem mem_split_iff {r part : Range} {text : String} :
    part ∈ r.split text ↔ ∃ row, r.start.row ≤ row ∧ row ≤ r.stop.row ∧
      part = r.onRow (Text.lineSizes text) row ∧ part.start.column < part.stop.column := by
  unfold split
  split
  · -- several rows: each has its part, and the empty ones are dropped
    next hmulti =>
    have hlt : r.start.row < r.stop.row := by simpa [isMultiline] using hmulti
    simp only [List.mem_filter, List.mem_map, List.mem_range'_1, decide_eq_true_eq]
    constructor
    · rintro ⟨⟨row, ⟨hlo, hhi⟩, rfl⟩, hpart⟩
      exact ⟨row, hlo, by omega, rfl, hpart⟩
    · rintro ⟨row, hlo, hhi, rfl, hpart⟩
      exact ⟨⟨row, ⟨hlo, by omega⟩, rfl⟩, hpart⟩
  · -- a single row, or an inverted range: it is kept whole, or dropped if nothing of it is left
    next hmulti =>
    have hge : r.stop.row ≤ r.start.row := by simpa [isMultiline] using hmulti
    -- on a single row, empty means that the columns are not in order
    have hempty : r.isEmpty = true ↔
        ¬ (r.start.row = r.stop.row ∧ r.start.column < r.stop.column) := by
      simp only [isEmpty, Position.before, Bool.not_eq_true', ← Bool.not_eq_true, Bool.or_eq_true,
        Bool.and_eq_true, decide_eq_true_eq, beq_iff_eq]
      omega
    split
    · next h =>
      rw [hempty] at h
      constructor
      · intro hpart
        cases hpart
      · rintro ⟨row, hlo, hhi, rfl, hpart⟩
        obtain rfl : r.start.row = row := by omega
        rw [onRow_of_row_eq (by omega)] at hpart
        exact absurd ⟨by omega, hpart⟩ h
    · next h =>
      rw [hempty, Decidable.not_not] at h
      rw [List.mem_singleton]
      constructor
      · rintro rfl
        exact ⟨part.start.row, Nat.le_refl _, Nat.le_of_eq h.1, (onRow_of_row_eq h.1 _).symm, h.2⟩
      · rintro ⟨row, hlo, hhi, rfl, -⟩
        obtain rfl : r.start.row = row := by omega
        exact onRow_of_row_eq h.1 _

/-- A part lies on one row and is not empty. -/
theorem lt_of_mem_split {r part : Range} {text : String} (h : part ∈ r.split text) :
    part.stop.row = part.start.row ∧ part.start.column < part.stop.column := by
  obtain ⟨row, -, -, rfl, hlt⟩ := mem_split_iff.1 h
  exact ⟨rfl, hlt⟩

/-- A range has at most one part on a row. -/
theorem eq_of_mem_split {r part part' : Range} {text : String} (h : part ∈ r.split text)
    (h' : part' ∈ r.split text) (hrow : part.start.row = part'.start.row) : part = part' := by
  obtain ⟨row, -, -, rfl, -⟩ := mem_split_iff.1 h
  obtain ⟨row', -, -, rfl, -⟩ := mem_split_iff.1 h'
  obtain rfl : row = row' := hrow
  rfl

/-- A range covers a cell, and its part on the row of the cell has that length. -/
def Covers (r : Range) (text : String) (row column length : Nat) : Prop :=
  ∃ part ∈ r.split text, part.start.row = row ∧ part.start.column ≤ column ∧
    column < part.stop.column ∧ length = part.stop.column - part.start.column

end Range

end SyntaxHighlight
