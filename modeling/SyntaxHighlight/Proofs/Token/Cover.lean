import SyntaxHighlight.Proofs.Text.Split
import SyntaxHighlight.Proofs.Token.Stream

/-!
# The flattened cover

A highlight covers the cells of its range. Among the highlights with a term in the legend that cover
a cell, the one with the shortest part on the row owns it, and the first of the list if several are
equally short. `Token.decode_encode_runs` says that the tokens, read back, are the maximal runs of
cells of one row with one owner.
-/

namespace SyntaxHighlight

namespace Highlight

/-- The highlight at a place of a list owns a cell, and its term has that number: no other highlight
with a term in the legend covers the cell with a shorter part, or with an equally long one and from
an earlier place. -/
def Owns (highlights : List Highlight) (legend : Legend) (text : String) (row column order : Nat)
    (tokenType : UInt32) : Prop :=
  ∃ a length, highlights[order]? = some a ∧ legend.index? a.term = some tokenType ∧
    a.range.Covers text row column length ∧
    ∀ (order' : Nat) b length', highlights[order']? = some b →
      (legend.index? b.term).isSome = true → b.range.Covers text row column length' →
      length < length' ∨ length = length' ∧ order ≤ order'

end Highlight

namespace RowPart

section Parts

variable {highlights : List Highlight} {legend : Legend} {text : String}

/-- The parts to encode are the parts of the highlights whose terms are in the legend. -/
theorem mem_ofHighlights {p : RowPart} :
    p ∈ ofHighlights highlights legend text ↔ ∃ a, highlights[p.order]? = some a ∧
      legend.index? a.term = some p.tokenType ∧
      ⟨⟨p.row, p.start⟩, ⟨p.row, p.stop⟩⟩ ∈ a.range.split text := by
  rw [ofHighlights, List.mem_flatMap]
  constructor
  · rintro ⟨⟨a, order⟩, ha, hp⟩
    rw [List.mem_zipIdx_iff_getElem?] at ha
    dsimp only at ha hp
    split at hp
    · cases hp
    · next tokenType hindex =>
      obtain ⟨r, hr, rfl⟩ := List.mem_map.1 hp
      refine ⟨a, ha, hindex, ?_⟩
      -- a part of a range is on one row, so it is known by its row and its columns
      have hrow := (Range.lt_of_mem_split hr).1
      obtain ⟨⟨row, start⟩, ⟨row', stop⟩⟩ := r
      obtain rfl : row' = row := hrow
      exact hr
  · rintro ⟨a, ha, hindex, hr⟩
    refine ⟨(a, p.order), List.mem_zipIdx_iff_getElem?.2 ha, ?_⟩
    dsimp only
    rw [hindex]
    exact List.mem_map.2 ⟨_, hr, rfl⟩

/-- No part is empty. -/
theorem start_lt_stop {p : RowPart} (hp : p ∈ ofHighlights highlights legend text) :
    p.start < p.stop := by
  obtain ⟨a, -, -, hr⟩ := mem_ofHighlights.1 hp
  exact (Range.lt_of_mem_split hr).2

/-- A highlight has at most one part on a row. -/
theorem eq_of_row_eq_of_order_eq {p q : RowPart} (hp : p ∈ ofHighlights highlights legend text)
    (hq : q ∈ ofHighlights highlights legend text) (hrow : p.row = q.row)
    (horder : p.order = q.order) : p = q := by
  obtain ⟨a, ha, hindex, hr⟩ := mem_ofHighlights.1 hp
  obtain ⟨b, hb, hindex', hr'⟩ := mem_ofHighlights.1 hq
  rw [horder, hb] at ha
  obtain rfl := Option.some.inj ha
  have hpart := Range.eq_of_mem_split hr hr' hrow
  rw [hindex'] at hindex
  have htype := Option.some.inj hindex
  cases p
  cases q
  simp_all

/-- The cells that a highlight covers are those of its parts. -/
theorem covers_iff {row column length order : Nat} {a : Highlight} {tokenType : UInt32}
    (ha : highlights[order]? = some a) (hindex : legend.index? a.term = some tokenType) :
    a.range.Covers text row column length ↔ ∃ p ∈ ofHighlights highlights legend text,
      p.order = order ∧ p.tokenType = tokenType ∧ p.row = row ∧ p.Covers column ∧
        p.length = length := by
  constructor
  · rintro ⟨r, hr, hrow, hlo, hhi, rfl⟩
    refine ⟨⟨row, r.start.column, r.stop.column, tokenType, order⟩, ?_, rfl, rfl, rfl,
      ⟨hlo, hhi⟩, rfl⟩
    refine mem_ofHighlights.2 ⟨a, ha, hindex, ?_⟩
    have hrow' := (Range.lt_of_mem_split hr).1
    obtain ⟨⟨row', start⟩, ⟨row'', stop⟩⟩ := r
    obtain rfl : row' = row := hrow
    obtain rfl : row'' = row' := hrow'
    exact hr
  · rintro ⟨p, hp, rfl, -, rfl, ⟨hlo, hhi⟩, rfl⟩
    obtain ⟨b, hb, -, hr⟩ := mem_ofHighlights.1 hp
    rw [hb] at ha
    obtain rfl := Option.some.inj ha
    exact ⟨_, hr, rfl, hlo, hhi, rfl⟩

/-- The owner of a cell among the highlights is the owner among their parts. -/
theorem owns_iff {row column order : Nat} {tokenType : UInt32} :
    Highlight.Owns highlights legend text row column order tokenType ↔
      ∃ p, Owns (ofHighlights highlights legend text) row column p ∧ p.order = order ∧
        p.tokenType = tokenType := by
  constructor
  · -- parts win as highlights do: the shorter one, and of two of one length the first
    rintro ⟨a, length, ha, hindex, hcovers, hleast⟩
    obtain ⟨p, hp, horder, htype, hrow, hc, hlength⟩ := (covers_iff ha hindex).1 hcovers
    refine ⟨p, ⟨hp, hrow, hc, ?_⟩, horder, htype⟩
    intro q hq hqrow hqc
    obtain ⟨b, hb, hindex', -⟩ := mem_ofHighlights.1 hq
    have hqcovers : b.range.Covers text row column q.length :=
      (covers_iff hb hindex').2 ⟨q, hq, rfl, rfl, hqrow, hqc, rfl⟩
    rw [wins_eq_false_iff, hlength, horder]
    exact hleast q.order b q.length hb (by rw [hindex']; rfl) hqcovers
  · rintro ⟨p, hown, rfl, rfl⟩
    obtain ⟨a, ha, hindex, -⟩ := mem_ofHighlights.1 hown.mem
    refine ⟨a, p.length, ha, hindex, ?_, ?_⟩
    · exact (covers_iff ha hindex).2 ⟨p, hown.mem, rfl, rfl, hown.onRow, hown.covers, rfl⟩
    · intro order' b length' hb hsome hcovers
      obtain ⟨tokenType', hindex'⟩ := Option.isSome_iff_exists.1 hsome
      obtain ⟨q, hq, rfl, -, hqrow, hqc, rfl⟩ := (covers_iff hb hindex').1 hcovers
      exact wins_eq_false_iff.1 (hown.wins q hq hqrow hqc)

/-- On one row, to be owned by a highlight is to be owned by its part there. -/
theorem owns_part_iff {p : RowPart} (hp : p ∈ ofHighlights highlights legend text)
    {column : Nat} :
    Highlight.Owns highlights legend text p.row column p.order p.tokenType ↔
      Owns (ofHighlights highlights legend text) p.row column p := by
  rw [owns_iff]
  constructor
  · rintro ⟨q, hq, horder, -⟩
    obtain rfl : q = p := eq_of_row_eq_of_order_eq hq.mem hp hq.onRow horder
    exact hq
  · intro h
    exact ⟨p, h, rfl, rfl⟩

end Parts

end RowPart

namespace Token

variable (highlights : List Highlight) (legend : Legend) (text : String)

def spans : List Span := Span.ofParts (RowPart.ofHighlights highlights legend text)

/-- All rows and columns of the parts of some highlights can be written in 32 bits. -/
def AllFit : Prop :=
  ∀ a ∈ highlights, ∀ r ∈ a.range.split text,
    r.start.row < UInt32.size ∧ r.stop.column < UInt32.size

/-- No difference of unsigned numbers is negative: neither of the rows of a range that is cut, nor
of the columns of a part, nor of the rows and columns in the stream. -/
structure NoneNegative : Prop where
  rows : ∀ a ∈ highlights, a.range.isMultiline = true → a.range.start.row ≤ a.range.stop.row
  parts : ∀ p ∈ RowPart.ofHighlights highlights legend text, p.start ≤ p.stop
  stream : relative? 0 0 (spans highlights legend text) = some (encode highlights legend text)

variable {highlights legend text}

theorem mem_spans_iff {s : Span} :
    s ∈ spans highlights legend text ↔
      IsRun (fun column => Highlight.Owns highlights legend text s.row column s.order s.tokenType)
        s.start s.stop := by
  rw [spans, Span.mem_ofParts_iff fun p hp q hq => RowPart.eq_of_row_eq_of_order_eq hp hq]
  constructor
  · rintro ⟨p, hsp, hrun⟩
    -- the part of a span wins at the first column, and is told by its row and highlight
    have hown := hrun.inside s.start (Nat.le_refl _) hrun.nonempty
    refine hrun.congr fun column => ?_
    rw [hsp]
    exact (RowPart.owns_part_iff hown.mem).symm
  · intro hrun
    obtain ⟨p, hown, horder, htype⟩ :=
      RowPart.owns_iff.1 (hrun.inside s.start (Nat.le_refl _) hrun.nonempty)
    have hrow := hown.onRow
    refine ⟨p, ?_, hrun.congr fun column => ?_⟩
    · rw [Span.ofPart, horder, htype, hrow]
    · rw [← horder, ← htype, ← hrow]
      exact RowPart.owns_part_iff hown.mem

/-- The spans have rows and columns of 32 bits if the parts do. -/
theorem fits_of_mem_spans (hfit : AllFit highlights text) {s : Span}
    (hs : s ∈ spans highlights legend text) : Fits s := by
  have hrun := mem_spans_iff.1 hs
  -- The last column is covered by a part, and with it the row and the end are bounded.
  have hpos := hrun.nonempty
  obtain ⟨a, length, ha, -, ⟨r, hr, hrow, -, hlast, -⟩, -⟩ :=
    hrun.inside (s.stop - 1) (by omega) (by omega)
  have hbound := hfit a (List.mem_of_getElem? ha) r hr
  exact ⟨hpos, by omega, by omega⟩

theorem behind_origin (l : List Span) : Behind 0 0 l := by
  intro s _
  omega

/-- Read back, the tokens are the spans. -/
theorem decode_encode (hfit : AllFit highlights text) :
    decode (encode highlights legend text) =
      (spans highlights legend text).map Placed.ofSpan :=
  placeFrom_relative (fun _ hs => fits_of_mem_spans hfit hs) (Span.pairwise_ofParts _)
    (behind_origin _)

/-- Nothing is subtracted from a smaller number. -/
theorem noneNegative (hfit : AllFit highlights text) : NoneNegative highlights legend text where
  rows a _ hmulti := Nat.le_of_lt (by simpa [Range.isMultiline] using hmulti)
  parts _ hp := Nat.le_of_lt (RowPart.start_lt_stop hp)
  stream := relative?_eq_some (fun _ hs => fits_of_mem_spans hfit hs) (Span.pairwise_ofParts _)
    (behind_origin _)

/-- A token that is read back is a run of cells with one owner. -/
theorem mem_decode_encode_iff (hfit : AllFit highlights text) {t : Placed} :
    t ∈ decode (encode highlights legend text) ↔ ∃ order,
      IsRun (fun column => Highlight.Owns highlights legend text t.row column order t.tokenType)
        t.start (t.start + t.length) := by
  rw [decode_encode hfit, List.mem_map]
  constructor
  · rintro ⟨s, hs, rfl⟩
    have hrun := mem_spans_iff.1 hs
    have hstop : s.start + (s.stop - s.start) = s.stop := by
      have := hrun.nonempty
      omega
    refine ⟨s.order, ?_⟩
    show IsRun _ s.start (s.start + (s.stop - s.start))
    rw [hstop]
    exact hrun
  · rintro ⟨order, hrun⟩
    refine ⟨⟨t.row, t.start, t.start + t.length, t.tokenType, order⟩, mem_spans_iff.2 hrun, ?_⟩
    show (⟨t.row, t.start, t.start + t.length - t.start, t.tokenType⟩ : Placed) = t
    rw [Nat.add_sub_cancel_left]

/-- Tokens come in order and do not overlap. -/
theorem pairwise_decode_encode (hfit : AllFit highlights text) :
    (decode (encode highlights legend text)).Pairwise Placed.Before := by
  rw [decode_encode hfit, List.pairwise_map]
  refine (Span.pairwise_ofParts _).imp_of_mem ?_
  intro s t hs _ hst
  have hpos := (fits_of_mem_spans hfit hs).nonempty
  show s.row < t.row ∨ s.row = t.row ∧ s.start + (s.stop - s.start) ≤ t.start
  rcases hst with hlt | ⟨heq, hle⟩
  · exact .inl hlt
  · exact .inr ⟨heq, by omega⟩

/-- A cell is in a token if a highlight with a term in the legend covers it, and only then. -/
theorem holds_iff_covers (hfit : AllFit highlights text) {row column : Nat} :
    (∃ t ∈ decode (encode highlights legend text), t.Holds row column) ↔
      ∃ a ∈ highlights, (legend.index? a.term).isSome = true ∧
        ∃ length, a.range.Covers text row column length := by
  constructor
  · rintro ⟨t, ht, rfl, hlo, hhi⟩
    obtain ⟨order, hrun⟩ := (mem_decode_encode_iff hfit).1 ht
    obtain ⟨a, length, ha, hindex, hcovers, -⟩ := hrun.inside column hlo hhi
    exact ⟨a, List.mem_of_getElem? ha, by rw [hindex]; rfl, length, hcovers⟩
  · rintro ⟨a, ha, hsome, length, hcovers⟩
    obtain ⟨order, hget⟩ := List.mem_iff_getElem?.1 ha
    obtain ⟨tokenType, hindex⟩ := Option.isSome_iff_exists.1 hsome
    -- the highlight need not own the cell, but somebody does
    obtain ⟨p, hp, -, -, hrow, hc, -⟩ := (RowPart.covers_iff hget hindex).1 hcovers
    obtain ⟨s, hs, hsrow, hlo, hhi⟩ := Span.exists_mem_ofParts hp hc
    rw [decode_encode hfit]
    refine ⟨Placed.ofSpan s, List.mem_map.2 ⟨s, hs, rfl⟩, hsrow.trans hrow, hlo, ?_⟩
    show column < s.start + (s.stop - s.start)
    omega

/-- **The flattened cover.** If all rows and columns fit in 32 bits, no difference is negative, and
the tokens, read back, are the maximal runs of cells of one row with one owner, in order and with
the number of the owner's term. So they are not empty, do not overlap, and hold a cell exactly if a
highlight with a term in the legend covers it. -/
theorem decode_encode_runs (highlights : List Highlight) (legend : Legend) (text : String)
    (hfit : AllFit highlights text) :
    NoneNegative highlights legend text ∧
    (decode (encode highlights legend text)).Pairwise Placed.Before ∧
    (∀ t, t ∈ decode (encode highlights legend text) ↔ ∃ order,
      IsRun (fun column => Highlight.Owns highlights legend text t.row column order t.tokenType)
        t.start (t.start + t.length)) ∧
    (∀ t ∈ decode (encode highlights legend text), 0 < t.length) ∧
    (∀ row column, (∃ t ∈ decode (encode highlights legend text), t.Holds row column) ↔
      ∃ a ∈ highlights, (legend.index? a.term).isSome = true ∧
        ∃ length, a.range.Covers text row column length) := by
  refine ⟨noneNegative hfit, pairwise_decode_encode hfit, fun t => mem_decode_encode_iff hfit,
    fun t ht => ?_, fun row column => holds_iff_covers hfit⟩
  -- a token is a run, and runs are not empty
  obtain ⟨order, hrun⟩ := (mem_decode_encode_iff hfit).1 ht
  have := hrun.nonempty
  omega

/-- Two ranges that cross, one that is inverted, and a term that no legend has. -/
def crossing : List Highlight :=
  [⟨"string", ⟨⟨0, 0⟩, ⟨0, 3⟩⟩⟩, ⟨"comment", ⟨⟨0, 2⟩, ⟨1, 5⟩⟩⟩, ⟨"number", ⟨⟨1, 3⟩, ⟨0, 1⟩⟩⟩,
    ⟨"unknown", ⟨⟨1, 6⟩, ⟨1, 7⟩⟩⟩]

theorem decode_encode_runs_crossing :
    AllFit crossing "/* a\r\nbc */ x" ∧
    NoneNegative crossing Legend.default "/* a\r\nbc */ x" ∧
    (∃ t ∈ decode (encode crossing Legend.default "/* a\r\nbc */ x"), t.Holds 1 4) ∧
    ¬ ∃ t ∈ decode (encode crossing Legend.default "/* a\r\nbc */ x"), t.Holds 1 6 := by
  have hfit : AllFit crossing "/* a\r\nbc */ x" := by
    unfold AllFit
    decide
  obtain ⟨hnone, -, -, -, hholds⟩ := decode_encode_runs crossing Legend.default _ hfit
  refine ⟨hfit, hnone, ?_, ?_⟩
  · rw [hholds]
    refine ⟨crossing[1], by decide, by decide, 5, ?_⟩
    unfold Range.Covers
    decide
  · rw [hholds]
    rintro ⟨a, ha, hsome, length, part, hpart, hrow, hlo, hhi, -⟩
    -- Only the term outside the legend covers the cell.
    have hnot : ∀ a ∈ crossing, (Legend.default.index? a.term).isSome = true →
        ∀ part ∈ a.range.split "/* a\r\nbc */ x", part.start.row = 1 → part.stop.column ≤ 6 := by
      decide
    exact absurd (hnot a ha hsome part hpart hrow) (by omega)

end Token

end SyntaxHighlight
