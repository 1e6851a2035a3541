import SyntaxHighlight.Proofs.Text.Offsets

/-!
# Cutting ranges at line ends loses nothing

A range between two byte offsets is cut into parts, one for a row. The bytes of the parts are the
bytes of the range without its line ends: the line feeds, and a carriage return in front of a line
feed of the range (`Range.split_lossless`). A carriage return whose line feed is behind the range,
or missing, is a byte like any other.

A row on which a range goes on is cut where the counted part of the line ends, and the row on which
it ends is cut at the end of the range (`Range.exists_mem_split_contains_iff`). So all hangs on
which bytes belong to the counted part of their line (`Text.column_lt_sizeOfRow_iff`), and on where
a range that goes on from a byte to another row has its next line feed.
-/

namespace SyntaxHighlight

namespace Text

open Position

/-- A byte between two offsets that is not part of a line end between them. -/
structure IsContent (bytes : List UInt8) (start stop offset : Nat) : Prop where
  start_le : start ≤ offset
  lt_stop : offset < stop
  ne_lineFeed : bytes[offset]? ≠ some 0x0A
  not_lineEnd : ¬ (bytes[offset]? = some 0x0D ∧ bytes[offset + 1]? = some 0x0A ∧ offset + 1 < stop)

variable {text : String} {front rest : List UInt8} {x : UInt8}

/-- A byte is in the counted part of its line unless it is a line feed or a carriage return that
ends the line. -/
theorem column_lt_sizeOfRow_iff (htext : bytes text = front ++ x :: rest) :
    (origin.advance front).column < sizeOfRow text (origin.advance front).row ↔
      x ≠ 0x0A ∧ ¬ (x = 0x0D ∧ rest.takeWhile (· != 0x0A) = []) := by
  obtain ⟨head, hsize, hcolumn⟩ := exists_line_of_bytes htext
  rw [hsize, hcolumn]
  by_cases hx : x = 0x0A
  · -- The line ends in front of a line feed.
    have hline : (x :: rest).takeWhile (· != 0x0A) = [] := by simp [hx]
    rw [hline, List.append_nil]
    have hle : lineSize head ≤ head.length := by unfold lineSize; split <;> omega
    simp only [hx, ne_eq, not_true_eq_false, false_and, iff_false]
    omega
  · -- The byte is on the line itself: it counts unless it is its last byte and a carriage return.
    have hline : (x :: rest).takeWhile (· != 0x0A) = x :: rest.takeWhile (· != 0x0A) := by simp [hx]
    rw [hline]
    cases hafter : rest.takeWhile (· != 0x0A) with
    | nil =>
      by_cases hreturn : x = 0x0D <;> simp [lineSize, hx, hreturn]
    | cons y after =>
      have hle := length_le_lineSize (head ++ x :: y :: after)
      rw [List.length_append, List.length_cons, List.length_cons] at hle
      simp only [hx, ne_eq, not_false_eq_true, reduceCtorEq, and_false, and_self, iff_true]
      omega

/-- A byte of a range is no line end of it exactly if the range does not leave the row of the byte,
or the byte is in the counted part of its line. -/
theorem row_eq_or_column_lt_iff (htext : bytes text = front ++ x :: rest) (more : Nat) :
    ((origin.advance front).row = (origin.advance (front ++ x :: rest.take more)).row ∨
        (origin.advance front).column < sizeOfRow text (origin.advance front).row) ↔
      x ≠ 0x0A ∧ ¬ (x = 0x0D ∧ rest[0]? = some 0x0A ∧ 0 < more) := by
  rw [column_lt_sizeOfRow_iff htext, advance_append, row_advance (origin.advance front)]
  by_cases hx : x = 0x0A
  · have hcount := List.count_cons_self (a := x) (l := rest.take more)
    rw [hx] at hcount
    simp only [hx, hcount, ne_eq, not_true_eq_false, false_and, or_false, iff_false]
    omega
  · -- not a line feed: whether the range leaves the row is told by the bytes behind this one
    rw [List.count_cons_of_ne hx]
    cases rest with
    | nil => simp [hx]
    | cons y rest =>
      by_cases hy : y = 0x0A
      · -- A line end: it is cut off if the range goes on to the line feed.
        cases more with
        | zero => simp [hx]
        | succ more => simp [hx, hy]
      · simp [hx, hy]

end Text

namespace Range

open Position

variable {r part : Range} {text : String}

/-- A part lies inside its range. -/
theorem within_of_mem_split (h : part ∈ r.split text) : part.Within r := by
  obtain ⟨row, hfirst, hlast, rfl, -⟩ := mem_split_iff.1 h
  rw [Within, Position.notAfter_iff, Position.notAfter_iff]
  dsimp only [onRow]
  constructor
  · split <;> omega
  · split <;> omega

/-- The parts stand in order, each on a later row than the one before. -/
theorem pairwise_split (r : Range) (text : String) :
    (r.split text).Pairwise fun p q => p.start.row < q.start.row := by
  unfold split
  split
  · apply List.Pairwise.filter
    rw [List.pairwise_map]
    exact List.pairwise_lt_range'
  · split
    · exact .nil
    · exact List.pairwise_singleton _ _

/-- A part contains the cells of its row between its ends. -/
theorem contains_iff_of_mem_split (h : part ∈ r.split text) {p : Position} :
    part.Contains p ↔
      part.start.row = p.row ∧ part.start.column ≤ p.column ∧ p.column < part.stop.column := by
  obtain ⟨hrow, -⟩ := lt_of_mem_split h
  rw [Contains, notAfter_iff, before_iff, hrow]
  omega

/-- The parts of a range contain what the range contains, less the ends of the lines that it goes
on from. -/
theorem exists_mem_split_contains_iff {p : Position} :
    (∃ part ∈ r.split text, part.Contains p) ↔
      r.Contains p ∧ (p.row = r.stop.row ∨ p.column < Text.sizeOfRow text p.row) := by
  constructor
  · rintro ⟨part, hpart, hcontains⟩
    obtain ⟨hrow, hlo, hhi⟩ := (contains_iff_of_mem_split hpart).1 hcontains
    -- the part ends with the range, or in front of the end of its line
    have hcovers : r.Covers text p.row p.column (part.stop.column - part.start.column) :=
      ⟨part, hpart, hrow, hlo, hhi, rfl⟩
    refine ⟨contains_of_covers hcovers, ?_⟩
    obtain ⟨-, -, -, hstop, -⟩ := covers_iff.1 hcovers
    unfold stopOn at hstop
    split at hstop
    · next hlast => exact .inl hlast
    · exact .inr hstop
  · rintro ⟨hcontains, hcounted⟩
    obtain ⟨part, hpart, hrow, hlo, hhi, -⟩ := covers_of_contains hcontains hcounted
    exact ⟨part, hpart, (contains_iff_of_mem_split hpart).2 ⟨hrow, hlo, hhi⟩⟩

/-- A range that ends where it starts, or before, has no parts. -/
theorem split_of_notAfter (h : r.stop.notAfter r.start = true) : r.split text = [] := by
  rw [List.eq_nil_iff_forall_not_mem]
  intro part hpart
  obtain ⟨row, hfirst, hlast, rfl, hlt⟩ := mem_split_iff.1 hpart
  rw [notAfter_iff] at h
  have hrow : row = r.start.row := by omega
  have hrow' : row = r.stop.row := by omega
  rw [onRow, if_pos hrow, if_pos hrow'] at hlt
  dsimp only at hlt
  omega

/-- The range between two byte offsets of a text. -/
def between (text : String) (start stop : Nat) : Range :=
  ⟨Text.positionAt text start, Text.positionAt text stop⟩

/-- The range between two offsets contains the bytes between them. -/
theorem between_contains_iff {start stop offset : Nat}
    (h : offset < (Text.bytes text).length) :
    (between text start stop).Contains (Text.positionAt text offset) ↔
      start ≤ offset ∧ offset < stop := by
  show (Text.positionAt text start).notAfter (Text.positionAt text offset) = true ∧
    (Text.positionAt text offset).before (Text.positionAt text stop) = true ↔ _
  rw [Position.notAfter, Bool.not_eq_true', ← Bool.not_eq_true, Text.before_positionAt_iff h,
    Text.before_positionAt_iff h, Nat.not_lt]

/-- The parts of a range contain its bytes that are not line ends, and no others. -/
theorem exists_mem_split_between_iff {start stop offset : Nat}
    (h : offset < (Text.bytes text).length) :
    (∃ part ∈ (between text start stop).split text,
        part.Contains (Text.positionAt text offset)) ↔
      Text.IsContent (Text.bytes text) start stop offset := by
  rw [exists_mem_split_contains_iff, between_contains_iff h]
  -- The text in front of the byte, the byte, and what stands behind it.
  obtain ⟨x, hx⟩ : ∃ x, (Text.bytes text)[offset]? = some x := ⟨_, List.getElem?_eq_getElem h⟩
  have hdrop : (Text.bytes text).drop offset = x :: (Text.bytes text).drop (offset + 1) := by
    obtain ⟨-, rfl⟩ := List.getElem?_eq_some_iff.1 hx
    exact List.drop_eq_getElem_cons h
  have htext := (List.take_append_drop offset (Text.bytes text)).symm
  rw [hdrop] at htext
  have hbehind : ((Text.bytes text).drop (offset + 1))[0]? = (Text.bytes text)[offset + 1]? := by
    rw [List.getElem?_drop, Nat.add_zero]
  by_cases hin : start ≤ offset ∧ offset < stop
  · -- the end of the range is reached from the byte by the bytes that are left of the range
    have hstop : (between text start stop).stop = origin.advance ((Text.bytes text).take offset ++
        x :: ((Text.bytes text).drop (offset + 1)).take (stop - (offset + 1))) := by
      have hlast : offset + (stop - (offset + 1) + 1) = stop := by omega
      rw [← List.take_succ_cons, ← hdrop, ← List.take_add, hlast, ← Text.positionAt_eq_advance]
      rfl
    have hkept := Text.row_eq_or_column_lt_iff htext (stop - (offset + 1))
    rw [← hstop, ← Text.positionAt_eq_advance, hbehind, Nat.sub_pos_iff_lt] at hkept
    rw [hkept]
    constructor
    · rintro ⟨⟨hlo, hhi⟩, hfeed, hreturn⟩
      exact ⟨hlo, hhi, by simpa [hx] using hfeed, by simpa [hx] using hreturn⟩
    · rintro ⟨-, -, hfeed, hreturn⟩
      exact ⟨hin, by simpa [hx] using hfeed, by simpa [hx] using hreturn⟩
  · constructor
    · rintro ⟨h, -⟩
      exact absurd h hin
    · rintro ⟨hlo, hhi, -, -⟩
      exact absurd ⟨hlo, hhi⟩ hin

/-- **Cutting at line ends loses nothing.** A range between two byte offsets is cut into parts that
each lie on one row and inside the range and are not empty, on later and later rows. A byte of the
range is in exactly one part if it is no line feed and no carriage return in front of a line feed of
the range, and every other byte of the text is in none. A range that ends where it starts, or
before, has no parts. -/
theorem split_lossless (text : String) (start stop : Nat) :
    (∀ part ∈ (between text start stop).split text,
      part.start.row = part.stop.row ∧ part.start.column < part.stop.column ∧
        part.Within (between text start stop)) ∧
    ((between text start stop).split text).Pairwise (fun p q => p.start.row < q.start.row) ∧
    (∀ offset < (Text.bytes text).length,
      (Text.IsContent (Text.bytes text) start stop offset →
        ∃! part, part ∈ (between text start stop).split text ∧
          part.Contains (Text.positionAt text offset)) ∧
      (¬ Text.IsContent (Text.bytes text) start stop offset →
        ∀ part ∈ (between text start stop).split text,
          ¬ part.Contains (Text.positionAt text offset))) ∧
    (∀ r : Range, r.stop.notAfter r.start = true → r.split text = []) := by
  refine ⟨?_, pairwise_split _ _, ?_, fun r h => split_of_notAfter h⟩
  · intro part hpart
    obtain ⟨hrow, hlt⟩ := lt_of_mem_split hpart
    exact ⟨hrow.symm, hlt, within_of_mem_split hpart⟩
  · intro offset hoffset
    constructor
    · intro hcontent
      obtain ⟨part, hpart, hcontains⟩ := (exists_mem_split_between_iff hoffset).2 hcontent
      -- two parts that contain one byte are on its row, and there is one part for a row
      refine ⟨part, ⟨hpart, hcontains⟩, ?_⟩
      rintro other ⟨hother, hothers⟩
      apply eq_of_mem_split hother hpart
      rw [((contains_iff_of_mem_split hpart).1 hcontains).1,
        ((contains_iff_of_mem_split hother).1 hothers).1]
    · intro hnot part hpart hcontains
      exact hnot ((exists_mem_split_between_iff hoffset).1 ⟨part, hpart, hcontains⟩)

/-- In a text of two lines the carriage return is in no part, and the byte behind the line end is in
one. -/
theorem split_lossless_two_lines :
    (∀ part ∈ (between "a\r\nb" 0 4).split "a\r\nb",
      ¬ part.Contains (Text.positionAt "a\r\nb" 1)) ∧
    ∃! part, part ∈ (between "a\r\nb" 0 4).split "a\r\nb" ∧
      part.Contains (Text.positionAt "a\r\nb" 3) := by
  obtain ⟨-, -, hbytes, -⟩ := split_lossless "a\r\nb" 0 4
  have hreturn : ¬ Text.IsContent (Text.bytes "a\r\nb") 0 4 1 :=
    fun h => h.not_lineEnd (by decide)
  have hletter : Text.IsContent (Text.bytes "a\r\nb") 0 4 3 :=
    ⟨by decide, by decide, by decide, by decide⟩
  exact ⟨(hbytes 1 (by decide)).2 hreturn, (hbytes 3 (by decide)).1 hletter⟩

-- A carriage return stays if the range does not reach its line feed.
example : (between "a\r\nb" 0 2).split "a\r\nb" = [⟨⟨0, 0⟩, ⟨0, 2⟩⟩] := by decide

end Range

end SyntaxHighlight
