import Mathlib.Data.List.SplitBy
import SyntaxHighlight.Proofs.Token.Sweep

/-!
# Maximal runs

Behind the sweep, neighbouring spans of one highlight are joined, and this is done row by row. What
comes out are the maximal runs of cells with one owner:

* `Span.mem_ofRow_iff` for the columns of one row,
* `Span.mem_ofParts_iff` for all cells, where a group of parts holds all parts of its row.

Two spans that touch were left apart only because their highlights differ (`Span.Apart`). So a span
cannot be extended: the column next to it would be in a span of the same highlight that touches it.
-/

namespace SyntaxHighlight

/-! ### Runs -/

/-- The columns from `start` up to `stop` have a property, and their neighbours do not. -/
structure IsRun (P : Nat → Prop) (start stop : Nat) : Prop where
  nonempty : start < stop
  inside : ∀ column, start ≤ column → column < stop → P column
  before : ∀ column, column + 1 = start → ¬ P column
  behind : ¬ P stop

/-- Properties with the same columns have the same runs. -/
theorem IsRun.congr {P Q : Nat → Prop} {start stop : Nat} (h : IsRun P start stop)
    (hPQ : ∀ column, P column ↔ Q column) : IsRun Q start stop where
  nonempty := h.nonempty
  inside column hlo hhi := (hPQ column).1 (h.inside column hlo hhi)
  before column hc hQ := h.before column hc ((hPQ column).2 hQ)
  behind hQ := h.behind ((hPQ stop).2 hQ)

/-- Runs of one property that share a column are the same. -/
theorem IsRun.eq_of_common {P : Nat → Prop} {a b a' b' column : Nat} (h : IsRun P a b)
    (h' : IsRun P a' b') (hlo : a ≤ column) (hhi : column < b) (hlo' : a' ≤ column)
    (hhi' : column < b') : a = a' ∧ b = b' := by
  constructor
  · rcases Nat.lt_trichotomy a a' with hlt | heq | hgt
    · exact absurd (h.inside (a' - 1) (by omega) (by omega)) (h'.before (a' - 1) (by omega))
    · exact heq
    · exact absurd (h'.inside (a - 1) (by omega) (by omega)) (h.before (a - 1) (by omega))
  · rcases Nat.lt_trichotomy b b' with hlt | heq | hgt
    · exact absurd (h'.inside b (by omega) hlt) h.behind
    · exact heq
    · exact absurd (h.inside b' (by omega) hgt) h'.behind

namespace Span

open RowPart (OwnsColumn)

/-! ### Joining -/

def Holds (s : Span) (column : Nat) : Prop := s.start ≤ column ∧ column < s.stop

/-- Spans that are not empty, from left to right. -/
structure Ordered (spans : List Span) : Prop where
  nonempty : ∀ s ∈ spans, s.start < s.stop
  apart : spans.Pairwise fun s t => s.stop ≤ t.start

theorem Ordered.tail {s : Span} {rest : List Span} (h : Ordered (s :: rest)) : Ordered rest where
  nonempty t ht := h.nonempty t (List.mem_cons_of_mem _ ht)
  apart := (List.pairwise_cons.1 h.apart).2

/-- A span comes before another and is not to be joined with it. -/
def Apart (s t : Span) : Prop := s.stop ≤ t.start ∧ (s.stop = t.start → s.order ≠ t.order)

/-- Joining moves the end of a span and nothing else. -/
theorem exists_of_mem_join {spans : List Span} {s : Span} (hs : s ∈ join spans) :
    ∃ t ∈ spans, s = { t with stop := s.stop } := by
  induction spans generalizing s with
  | nil => cases hs
  | cons a rest ih =>
    -- What was there before the last step is a span of the rest.
    have hrest : ∀ x, x ∈ join rest → ∃ t ∈ a :: rest, x = { t with stop := x.stop } := by
      intro x hx
      obtain ⟨t, ht, h⟩ := ih hx
      exact ⟨t, List.mem_cons_of_mem _ ht, h⟩
    rw [join] at hs
    split at hs
    · exact ⟨a, List.mem_cons_self .., by rw [List.mem_singleton.1 hs]⟩
    · next t others hjoin =>
      rw [hjoin] at hrest
      split at hs
      · rcases List.mem_cons.1 hs with rfl | hs
        · exact ⟨a, List.mem_cons_self .., rfl⟩
        · exact hrest s (List.mem_cons_of_mem _ hs)
      · rcases List.mem_cons.1 hs with rfl | hs
        · exact ⟨s, List.mem_cons_self .., rfl⟩
        · exact hrest s hs

/-- Neighbours that touch belong to different highlights. -/
theorem pairwise_join {spans : List Span} (h : Ordered spans) :
    (∀ s ∈ join spans, s.start < s.stop) ∧ (join spans).Pairwise Apart := by
  induction spans with
  | nil => exact ⟨fun s hs => absurd hs List.not_mem_nil, List.Pairwise.nil⟩
  | cons a rest ih =>
    obtain ⟨hnonempty, hapart⟩ := ih h.tail
    have ha := h.nonempty a (List.mem_cons_self ..)
    -- Everything that was joined behind `a` starts where a span behind `a` starts.
    have hbehind : ∀ x ∈ join rest, a.stop ≤ x.start := by
      intro x hx
      obtain ⟨t, ht, heq⟩ := exists_of_mem_join hx
      rw [heq]
      exact (List.pairwise_cons.1 h.apart).1 t ht
    rw [join]
    split
    · refine ⟨fun s hs => ?_, List.pairwise_singleton ..⟩
      rw [List.mem_singleton.1 hs]
      exact ha
    · next t others hjoin =>
      rw [hjoin] at hnonempty hapart hbehind
      obtain ⟨ht, hothers⟩ := List.pairwise_cons.1 hapart
      have htpos := hnonempty t (List.mem_cons_self ..)
      have hat := hbehind t (List.mem_cons_self ..)
      split
      · -- `a` and the span behind it become one, which ends where that span does
        next hjoined =>
        obtain ⟨horder, -⟩ : a.order = t.order ∧ a.stop = t.start := by simpa using hjoined
        constructor
        · intro s hs
          rcases List.mem_cons.1 hs with rfl | hs
          · show a.start < t.stop
            omega
          · exact hnonempty s (List.mem_cons_of_mem _ hs)
        · refine List.pairwise_cons.2 ⟨fun u hu => ?_, hothers⟩
          show t.stop ≤ u.start ∧ (t.stop = u.start → a.order ≠ u.order)
          rw [horder]
          exact ht u hu
      · -- `a` stays, since it does not touch the next span or is of another highlight
        next hapart' =>
        constructor
        · intro s hs
          rcases List.mem_cons.1 hs with rfl | hs
          · exact ha
          · exact hnonempty s hs
        · refine List.pairwise_cons.2 ⟨fun u hu => ?_, hapart⟩
          rcases List.mem_cons.1 hu with rfl | hu
          · refine ⟨hat, fun htouch horder => hapart' ?_⟩
            simp [htouch, horder]
          · have := (ht u hu).1
            exact ⟨by omega, by omega⟩

/-- Joining keeps the columns of every highlight. -/
theorem holds_join_iff {spans : List Span} (h : Ordered spans) {order column : Nat} :
    (∃ s ∈ join spans, s.order = order ∧ s.Holds column) ↔
      ∃ s ∈ spans, s.order = order ∧ s.Holds column := by
  induction spans with
  | nil => exact Iff.rfl
  | cons a rest ih =>
    have ih := ih h.tail
    have ha := h.nonempty a (List.mem_cons_self ..)
    rw [join]
    split
    · next hjoin =>
      rw [hjoin] at ih
      simp only [List.mem_cons, exists_eq_or_imp, ← ih]
    · next t others hjoin =>
      have htpos := (pairwise_join h.tail).1 t (by rw [hjoin]; exact List.mem_cons_self ..)
      rw [hjoin] at ih
      split
      · next hjoined =>
        obtain ⟨horder, htouch⟩ : a.order = t.order ∧ a.stop = t.start := by simpa using hjoined
        simp only [List.mem_cons, exists_eq_or_imp] at ih ⊢
        rw [← ih, ← or_assoc]
        apply or_congr_left
        -- The joined span holds what its two halves hold.
        simp only [Holds, horder]
        constructor
        · rintro ⟨ho, hlo, hhi⟩
          rcases Nat.lt_or_ge column a.stop with hlt | hge
          · exact .inl ⟨ho, hlo, hlt⟩
          · exact .inr ⟨ho, by omega, hhi⟩
        · rintro (⟨ho, hlo, hhi⟩ | ⟨ho, hlo, hhi⟩)
          · exact ⟨ho, hlo, by omega⟩
          · exact ⟨ho, by omega, hhi⟩
      · simp only [List.mem_cons, exists_eq_or_imp] at ih ⊢
        rw [ih]

/-! ### The spans of a row -/

section Row

variable {parts : List RowPart} (hsorted : parts.Pairwise fun p q => p.start ≤ q.start)
  (hunique : ∀ p ∈ parts, ∀ q ∈ parts, p.order = q.order → p = q)

include hsorted in
/-- The spans of a row are cut at its boundaries, and joined where a highlight goes on. -/
theorem ofRow_eq_join_cut : ofRow parts = join (cut parts (bounds parts)) := by
  have hbegun : ∀ p ∈ ([] : List RowPart), ∀ b ∈ bounds parts, p.start ≤ b := by
    intro p hp
    cases hp
  rw [ofRow, sweep_eq_cut hsorted (increasing_bounds parts) hbegun fun _ _ => rfl]
  rfl

/-- The boundaries of a row are complete. -/
theorem complete_bounds (parts : List RowPart) : Complete parts (bounds parts) :=
  fun p hp _ hb => .inl (mem_bounds.2 ⟨p, hp, hb⟩)

/-- The spans cut at the boundaries of a row are in order. -/
theorem ordered_cut (parts : List RowPart) : Ordered (cut parts (bounds parts)) where
  nonempty _ hs := (mem_cut (complete_bounds parts) (increasing_bounds parts) hs).1
  apart := pairwise_cut (increasing_bounds parts)

include hunique in
/-- Two parts that win at one column are the same. -/
theorem ownsColumn_unique {column : Nat} {p q : RowPart} (hp : OwnsColumn parts column p)
    (hq : OwnsColumn parts column q) : p = q := by
  have hpq := RowPart.wins_eq_false_iff.1 (hp.wins q hq.mem hq.covers)
  have hqp := RowPart.wins_eq_false_iff.1 (hq.wins p hp.mem hp.covers)
  exact hunique p hp.mem q hq.mem (by omega)

include hsorted hunique in
/-- A column that a part owns is in a span of that part's highlight, and in no other's. -/
theorem ownsColumn_iff_holds {column : Nat} {p : RowPart} (hp : p ∈ parts) :
    OwnsColumn parts column p ↔ ∃ s ∈ ofRow parts, s.order = p.order ∧ s.Holds column := by
  rw [ofRow_eq_join_cut hsorted, holds_join_iff (ordered_cut parts)]
  constructor
  · intro hown
    -- some span holds the column, and who owns the span owns the column
    obtain ⟨s, hs, hlo, hhi⟩ := exists_mem_cut (complete_bounds parts) (increasing_bounds parts) hp
      hown.covers (mem_bounds.2 ⟨p, hp, .inl rfl⟩) hown.covers.1
    obtain ⟨-, q, hsq, hq⟩ := mem_cut (complete_bounds parts) (increasing_bounds parts) hs
    have hpq : p = q := ownsColumn_unique hunique hown (hq column hlo hhi)
    exact ⟨s, hs, by rw [hsq, hpq]; rfl, hlo, hhi⟩
  · rintro ⟨s, hs, horder, hlo, hhi⟩
    obtain ⟨-, q, hsq, hq⟩ := mem_cut (complete_bounds parts) (increasing_bounds parts) hs
    have hown := hq column hlo hhi
    rw [hsq] at horder
    obtain rfl : q = p := hunique q hown.mem p hp horder
    exact hown

include hsorted in
/-- A column that a part covers is in a span. -/
theorem exists_mem_ofRow {p : RowPart} (hp : p ∈ parts) {column : Nat} (hc : p.Covers column) :
    ∃ s ∈ ofRow parts, s.Holds column := by
  obtain ⟨s, hs, hholds⟩ := exists_mem_cut (complete_bounds parts) (increasing_bounds parts) hp hc
    (mem_bounds.2 ⟨p, hp, .inl rfl⟩) hc.1
  obtain ⟨t, ht, -, hholds⟩ := (holds_join_iff (ordered_cut parts)).2 ⟨s, hs, rfl, hholds⟩
  rw [ofRow_eq_join_cut hsorted]
  exact ⟨t, ht, hholds⟩

include hsorted in
/-- The spans of a row are not empty, and neighbours that touch belong to different highlights. -/
theorem pairwise_ofRow :
    (∀ s ∈ ofRow parts, s.start < s.stop) ∧ (ofRow parts).Pairwise Apart := by
  rw [ofRow_eq_join_cut hsorted]
  exact pairwise_join (ordered_cut parts)

include hsorted in
/-- Every span of a row belongs to one of its parts. -/
theorem exists_ofPart_of_mem_ofRow {s : Span} (hs : s ∈ ofRow parts) :
    ∃ p ∈ parts, s = ofPart s.start s.stop p := by
  rw [ofRow_eq_join_cut hsorted] at hs
  obtain ⟨t, ht, hst⟩ := exists_of_mem_join hs
  obtain ⟨hpos, p, htp, hp⟩ := mem_cut (complete_bounds parts) (increasing_bounds parts) ht
  refine ⟨p, (hp t.start (Nat.le_refl _) hpos).mem, ?_⟩
  rw [hst, htp]
  rfl

include hsorted hunique in
/-- A span is a run of the columns that its part owns. -/
theorem isRun_of_mem_ofRow {s : Span} (hs : s ∈ ofRow parts) {p : RowPart} (hp : p ∈ parts)
    (hsp : s = ofPart s.start s.stop p) :
    IsRun (fun column => OwnsColumn parts column p) s.start s.stop := by
  obtain ⟨hnonempty, hapart⟩ := pairwise_ofRow hsorted
  have hpos := hnonempty s hs
  have horder : s.order = p.order := by rw [hsp]; rfl
  -- A span of the same highlight that holds a column next to `s` would have been joined with it.
  have hother : ∀ column, ¬ s.Holds column → OwnsColumn parts column p →
      column + 1 ≠ s.start ∧ column ≠ s.stop := by
    intro column hout hown
    obtain ⟨t, ht, htorder, hlo, hhi⟩ := (ownsColumn_iff_holds hsorted hunique hp).1 hown
    have hsame : s.order = t.order := horder.trans htorder.symm
    have htpos := hnonempty t ht
    rcases eq_or_related hapart hs ht with rfl | ⟨hle, htouch⟩ | ⟨hle, htouch⟩
    · exact absurd ⟨hlo, hhi⟩ hout
    · have : s.stop ≠ t.start := fun h => htouch h hsame
      omega
    · have : t.stop ≠ s.start := fun h => htouch h hsame.symm
      omega
  refine ⟨hpos, ?_, ?_, ?_⟩
  · intro column hlo hhi
    exact (ownsColumn_iff_holds hsorted hunique hp).2 ⟨s, hs, horder, hlo, hhi⟩
  · intro column hc hown
    exact (hother column (fun h => by have := h.1; omega) hown).1 hc
  · intro hown
    exact (hother s.stop (fun h => by have := h.2; omega) hown).2 rfl

include hsorted hunique in
/-- The spans of a row are the maximal runs of columns with one owner. -/
theorem mem_ofRow_iff {s : Span} :
    s ∈ ofRow parts ↔ ∃ p, s = ofPart s.start s.stop p ∧
      IsRun (fun column => OwnsColumn parts column p) s.start s.stop := by
  constructor
  · intro hs
    obtain ⟨p, hp, hsp⟩ := exists_ofPart_of_mem_ofRow hsorted hs
    exact ⟨p, hsp, isRun_of_mem_ofRow hsorted hunique hs hp hsp⟩
  · rintro ⟨p, hsp, hrun⟩
    -- The run and the span that holds its first column are the same.
    have hown := hrun.inside s.start (Nat.le_refl _) hrun.nonempty
    obtain ⟨t, ht, horder, hlo, hhi⟩ := (ownsColumn_iff_holds hsorted hunique hown.mem).1 hown
    obtain ⟨q, hq, htq⟩ := exists_ofPart_of_mem_ofRow hsorted ht
    obtain rfl : q = p := by
      apply hunique q hq p hown.mem
      rw [← horder, htq]
      rfl
    have hrun' := isRun_of_mem_ofRow hsorted hunique ht hq htq
    obtain ⟨hstart, hstop⟩ := hrun'.eq_of_common hrun hlo hhi (Nat.le_refl _) hrun.nonempty
    rw [hsp, ← hstart, ← hstop, ← htq]
    exact ht

end Row

end Span

/-! ### All rows -/

namespace RowPart

/-- A part wins among all parts that cover a cell. -/
structure Owns (parts : List RowPart) (row column : Nat) (p : RowPart) : Prop where
  mem : p ∈ parts
  onRow : p.row = row
  covers : p.Covers column
  wins : ∀ q ∈ parts, q.row = row → q.Covers column → q.wins p = false

theorem notAfter_iff {p q : RowPart} :
    p.notAfter q = true ↔ p.row < q.row ∨ p.row = q.row ∧ (p.start < q.start ∨
      p.start = q.start ∧ (p.stop < q.stop ∨ p.stop = q.stop ∧ p.order ≤ q.order)) := by
  simp [notAfter]

/-- Sorted, the parts of one row stand together, in the order of their starts. -/
theorem pairwise_mergeSort_notAfter (parts : List RowPart) :
    (parts.mergeSort notAfter).Pairwise fun p q =>
      p.row < q.row ∨ p.row = q.row ∧ p.start ≤ q.start := by
  refine (List.pairwise_mergeSort ?_ ?_ parts).imp ?_
  · intro p q r hpq hqr
    rw [notAfter_iff] at hpq hqr ⊢
    omega
  · intro p q
    rw [Bool.or_eq_true, notAfter_iff, notAfter_iff]
    omega
  · intro p q hpq
    rw [notAfter_iff] at hpq
    omega

/-- Grouping by rows loses no part. -/
theorem mem_byRow_iff {parts : List RowPart} {p : RowPart} :
    (∃ g ∈ byRow parts, p ∈ g) ↔ p ∈ parts := by
  rw [← List.mem_flatten, byRow, List.flatten_splitBy, List.mem_mergeSort]

def SameRow (p q : RowPart) : Prop := p.row = q.row

instance : Trans SameRow SameRow SameRow := ⟨Eq.trans⟩

/-- The parts of a group are on one row. -/
theorem row_eq_of_mem_byRow {parts g : List RowPart} (hg : g ∈ byRow parts) {p q : RowPart}
    (hp : p ∈ g) (hq : q ∈ g) : p.row = q.row := by
  have hsame : g.Pairwise SameRow := by
    apply List.IsChain.pairwise
    exact (List.isChain_of_mem_splitBy hg).imp fun p q h => beq_iff_eq.1 h
  exact List.Pairwise.forall_of_forall_of_flip (R := SameRow) (fun _ _ => rfl) hsame
    (hsame.imp Eq.symm) hp hq

/-- Two groups that are not empty stand on different rows, one above the other. -/
def Above (g h : List RowPart) : Prop :=
  g ≠ [] ∧ h ≠ [] ∧ ∀ p ∈ g, ∀ q ∈ h, p.row < q.row

instance : Trans Above Above Above where
  trans := by
    rintro g h k ⟨hg, hh, hgh⟩ ⟨-, hk, hhk⟩
    refine ⟨hg, hk, fun p hp q hq => ?_⟩
    obtain ⟨r, hr⟩ := List.exists_mem_of_ne_nil h hh
    exact Nat.lt_trans (hgh p hp r hr) (hhk r hr q hq)

/-- The groups stand from top to bottom, each on a row of its own. -/
theorem pairwise_byRow (parts : List RowPart) : (byRow parts).Pairwise Above := by
  -- sorting alone gives that no group is above an earlier one
  have hle : (byRow parts).Pairwise fun g h => ∀ p ∈ g, ∀ q ∈ h, p.row ≤ q.row := by
    have hsorted := pairwise_mergeSort_notAfter parts
    rw [← List.flatten_splitBy (fun p q : RowPart => p.row == q.row) (parts.mergeSort notAfter),
      List.pairwise_flatten] at hsorted
    refine hsorted.2.imp fun h p hp q hq => ?_
    have := h p hp q hq
    omega
  apply List.IsChain.pairwise
  rw [List.isChain_iff_getElem]
  intro i hi
  -- The last part of a group and the first of the next one are on different rows.
  obtain ⟨hg, hh, hne⟩ := List.isChain_iff_getElem.1
    (List.isChain_getLast_head_splitBy (fun p q : RowPart => p.row == q.row)
      (parts.mergeSort notAfter)) i hi
  refine ⟨hg, hh, fun p hp q hq => ?_⟩
  have hpq := List.pairwise_iff_getElem.1 hle i (i + 1) (by omega) hi (by omega) p hp q hq
  have hlast := row_eq_of_mem_byRow (List.getElem_mem _) hp (List.getLast_mem hg)
  have hhead := row_eq_of_mem_byRow (List.getElem_mem _) hq (List.head_mem hh)
  rw [beq_eq_false_iff_ne] at hne
  omega

/-- A group holds all parts of its row. -/
theorem mem_of_mem_byRow {parts g : List RowPart} (hg : g ∈ byRow parts) {p : RowPart}
    (hp : p ∈ g) {q : RowPart} : q ∈ g ↔ q ∈ parts ∧ q.row = p.row := by
  constructor
  · intro hq
    exact ⟨mem_byRow_iff.1 ⟨g, hg, hq⟩, row_eq_of_mem_byRow hg hq hp⟩
  · rintro ⟨hq, hrow⟩
    obtain ⟨h, hh, hqh⟩ := mem_byRow_iff.2 hq
    rcases eq_or_related (pairwise_byRow parts) hg hh with rfl | hlt | hlt
    · exact hqh
    · have := hlt.2.2 p hp q hqh
      omega
    · have := hlt.2.2 q hqh p hp
      omega

/-- The parts of a group stand in the order of their starts. -/
theorem sorted_of_mem_byRow {parts g : List RowPart} (hg : g ∈ byRow parts) :
    g.Pairwise fun p q => p.start ≤ q.start := by
  have hsub : g.Sublist (parts.mergeSort notAfter) := by
    rw [← List.flatten_splitBy (fun p q : RowPart => p.row == q.row) (parts.mergeSort notAfter)]
    exact List.sublist_flatten_of_mem hg
  refine ((pairwise_mergeSort_notAfter parts).sublist hsub).imp_of_mem ?_
  intro p q hp hq hpq
  have := row_eq_of_mem_byRow hg hp hq
  omega

end RowPart

namespace Span

open RowPart (byRow Owns OwnsColumn)

def Before (s t : Span) : Prop := s.row < t.row ∨ s.row = t.row ∧ s.stop ≤ t.start

/-- The spans stand from top to bottom, and on a row from left to right. -/
theorem pairwise_ofParts (parts : List RowPart) : (ofParts parts).Pairwise Before := by
  rw [ofParts, List.pairwise_flatMap]
  constructor
  · intro g hg
    -- on one row
    have hsorted := RowPart.sorted_of_mem_byRow hg
    refine (pairwise_ofRow hsorted).2.imp_of_mem ?_
    intro s t hs ht hst
    obtain ⟨p, hp, hsp⟩ := exists_ofPart_of_mem_ofRow hsorted hs
    obtain ⟨q, hq, htq⟩ := exists_ofPart_of_mem_ofRow hsorted ht
    refine .inr ⟨?_, hst.1⟩
    rw [hsp, htq]
    exact RowPart.row_eq_of_mem_byRow hg hp hq
  · -- on different rows: the spans of a group are on the row of the group
    refine (RowPart.pairwise_byRow parts).imp_of_mem ?_
    intro g h hg hh hgh s hs t ht
    obtain ⟨p, hp, hsp⟩ := exists_ofPart_of_mem_ofRow (RowPart.sorted_of_mem_byRow hg) hs
    obtain ⟨q, hq, htq⟩ := exists_ofPart_of_mem_ofRow (RowPart.sorted_of_mem_byRow hh) ht
    left
    rw [hsp, htq]
    exact hgh.2.2 p hp q hq

/-- Every cell that a part covers is in a span. -/
theorem exists_mem_ofParts {parts : List RowPart} {p : RowPart} (hp : p ∈ parts) {column : Nat}
    (hc : p.Covers column) : ∃ s ∈ ofParts parts, s.row = p.row ∧ s.Holds column := by
  obtain ⟨g, hg, hpg⟩ := RowPart.mem_byRow_iff.2 hp
  have hsorted := RowPart.sorted_of_mem_byRow hg
  obtain ⟨s, hs, hholds⟩ := exists_mem_ofRow hsorted hpg hc
  obtain ⟨q, hq, hsq⟩ := exists_ofPart_of_mem_ofRow hsorted hs
  refine ⟨s, List.mem_flatMap.2 ⟨g, hg, hs⟩, ?_, hholds⟩
  rw [hsq]
  exact RowPart.row_eq_of_mem_byRow hg hq hpg

/-- The owner of a cell is found in the group of its row. -/
theorem ownsColumn_iff_owns {parts g : List RowPart} (hg : g ∈ byRow parts) {p : RowPart}
    (hp : p ∈ g) {column : Nat} : OwnsColumn g column p ↔ Owns parts p.row column p := by
  constructor
  · intro h
    refine ⟨((RowPart.mem_of_mem_byRow hg hp).1 hp).1, rfl, h.covers, fun q hq hrow hc => ?_⟩
    exact h.wins q ((RowPart.mem_of_mem_byRow hg hp).2 ⟨hq, hrow⟩) hc
  · intro h
    refine ⟨hp, h.covers, fun q hq hc => ?_⟩
    obtain ⟨hmem, hrow⟩ := (RowPart.mem_of_mem_byRow hg hp).1 hq
    exact h.wins q hmem hrow hc

/-- The spans are the maximal runs of cells of one row with one owner, given that a highlight has at
most one part on a row. -/
theorem mem_ofParts_iff {parts : List RowPart}
    (hunique : ∀ p ∈ parts, ∀ q ∈ parts, p.row = q.row → p.order = q.order → p = q) {s : Span} :
    s ∈ ofParts parts ↔ ∃ p, s = ofPart s.start s.stop p ∧
      IsRun (fun column => Owns parts s.row column p) s.start s.stop := by
  -- inside a group a highlight has one part only
  have hgroup : ∀ g ∈ byRow parts, ∀ p ∈ g, ∀ q ∈ g, p.order = q.order → p = q := by
    intro g hg p hp q hq
    exact hunique p (RowPart.mem_byRow_iff.1 ⟨g, hg, hp⟩) q
      (RowPart.mem_byRow_iff.1 ⟨g, hg, hq⟩) (RowPart.row_eq_of_mem_byRow hg hp hq)
  rw [ofParts, List.mem_flatMap]
  constructor
  · rintro ⟨g, hg, hs⟩
    obtain ⟨p, hsp, hrun⟩ :=
      (mem_ofRow_iff (RowPart.sorted_of_mem_byRow hg) (hgroup g hg)).1 hs
    have hp := (hrun.inside s.start (Nat.le_refl _) hrun.nonempty).mem
    have hrow : s.row = p.row := by rw [hsp]; rfl
    refine ⟨p, hsp, hrun.congr fun column => ?_⟩
    rw [hrow]
    exact ownsColumn_iff_owns hg hp
  · rintro ⟨p, hsp, hrun⟩
    have hown := hrun.inside s.start (Nat.le_refl _) hrun.nonempty
    obtain ⟨g, hg, hp⟩ := RowPart.mem_byRow_iff.2 hown.mem
    have hrow : s.row = p.row := by rw [hsp]; rfl
    refine ⟨g, hg, (mem_ofRow_iff (RowPart.sorted_of_mem_byRow hg) (hgroup g hg)).2 ⟨p, hsp, ?_⟩⟩
    refine hrun.congr fun column => ?_
    rw [hrow]
    exact (ownsColumn_iff_owns hg hp).symm

end Span

end SyntaxHighlight
