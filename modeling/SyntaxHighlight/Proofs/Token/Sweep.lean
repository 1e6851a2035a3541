import Mathlib.Data.List.TakeWhile
import SyntaxHighlight.Token

/-!
# The sweep over one row

On a row every column belongs to the part that wins among those that cover it. The sweep never asks
for single columns: it goes from boundary to boundary and keeps a list of active parts up to date.

    sweep   spans between neighbouring boundaries, each with the winner of the active parts
    cut     the same, with the winner of all parts that cover the span

`sweep_eq_cut` is the invariant of the active list. Between two neighbouring boundaries no part
starts or ends, so that the winner of a span owns each of its columns (`mem_cut`), and no column
that is covered is left out (`exists_mem_cut`).
-/

namespace SyntaxHighlight

/-! ### The winner of a list -/

namespace RowPart

/-- A part does not win against a shorter one, nor against one of its length that was listed
before. -/
theorem wins_eq_false_iff {p q : RowPart} :
    q.wins p = false ↔ p.length < q.length ∨ (p.length = q.length ∧ p.order ≤ q.order) := by
  rw [← Bool.not_eq_true]
  simp only [wins, Bool.or_eq_true, Bool.and_eq_true, decide_eq_true_eq, beq_iff_eq]
  omega

/-- The winner is looked for from left to right, and the best part so far is kept. -/
theorem foldl_winner (parts : List RowPart) (best : RowPart) :
    ∃ p, parts.foldl (fun best p =>
        match best with
        | none => some p
        | some q => if p.wins q then some p else some q) (some best) = some p ∧
      (p = best ∨ p ∈ parts) ∧ ∀ q, q = best ∨ q ∈ parts → q.wins p = false := by
  induction parts generalizing best with
  | nil =>
    refine ⟨best, rfl, .inl rfl, ?_⟩
    rintro q (rfl | hq)
    · exact wins_eq_false_iff.2 (.inr ⟨rfl, Nat.le_refl _⟩)
    · cases hq
  | cons a rest ih =>
    simp only [List.foldl_cons]
    -- Either way the new best is beaten by neither the old one nor by `a`.
    split
    · -- `a` beats the old best: if `a` does not win against the result, neither does that one
      next hwins =>
      obtain ⟨p, hp, hmem, hbest⟩ := ih a
      refine ⟨p, hp, ?_, ?_⟩
      · rcases hmem with rfl | hmem
        · exact .inr (List.mem_cons_self ..)
        · exact .inr (List.mem_cons_of_mem _ hmem)
      · rintro q (rfl | hq)
        · have ha := wins_eq_false_iff.1 (hbest a (.inl rfl))
          have hqa : a.length < q.length ∨ (a.length = q.length ∧ a.order < q.order) := by
            simpa [wins] using hwins
          rw [wins_eq_false_iff]
          omega
        · rcases List.mem_cons.1 hq with rfl | hq
          · exact hbest q (.inl rfl)
          · exact hbest q (.inr hq)
    · -- `a` does not: if the old best does not win against the result, neither does `a`
      next hwins =>
      obtain ⟨p, hp, hmem, hbest⟩ := ih best
      refine ⟨p, hp, hmem.imp_right (List.mem_cons_of_mem _), ?_⟩
      rintro q (rfl | hq)
      · exact hbest q (.inl rfl)
      · rcases List.mem_cons.1 hq with rfl | hq
        · have hb := wins_eq_false_iff.1 (hbest best (.inl rfl))
          have hqb := wins_eq_false_iff.1 (Bool.eq_false_iff.2 hwins)
          rw [wins_eq_false_iff]
          omega
        · exact hbest q (.inr hq)

theorem winner?_eq_none_iff {parts : List RowPart} : winner? parts = none ↔ parts = [] := by
  cases parts with
  | nil => exact ⟨fun _ => rfl, fun _ => rfl⟩
  | cons a rest =>
    obtain ⟨p, hp, _⟩ := foldl_winner rest a
    constructor
    · intro h
      have : winner? (a :: rest) = some p := hp
      rw [h] at this
      cases this
    · intro h
      cases h

/-- The winner of a list is one of its parts, and no other wins against it. -/
theorem winner?_eq_some {parts : List RowPart} {p : RowPart} (h : winner? parts = some p) :
    p ∈ parts ∧ ∀ q ∈ parts, q.wins p = false := by
  cases parts with
  | nil => cases h
  | cons a rest =>
    obtain ⟨p', hp', hmem, hbest⟩ := foldl_winner rest a
    obtain rfl : p' = p := Option.some.inj (hp'.symm.trans h)
    refine ⟨?_, fun q hq => hbest q (List.mem_cons.1 hq)⟩
    rcases hmem with rfl | hmem
    · exact List.mem_cons_self ..
    · exact List.mem_cons_of_mem _ hmem

def Covers (p : RowPart) (column : Nat) : Prop := p.start ≤ column ∧ column < p.stop

/-- A part wins among all parts that cover a column. -/
structure OwnsColumn (parts : List RowPart) (column : Nat) (p : RowPart) : Prop where
  mem : p ∈ parts
  covers : p.Covers column
  wins : ∀ q ∈ parts, q.Covers column → q.wins p = false

end RowPart

/-! ### The active parts -/

namespace Span

open RowPart (winner? OwnsColumn)

def ofPart (lo hi : Nat) (p : RowPart) : Span := ⟨p.row, lo, hi, p.tokenType, p.order⟩

/-- The spans between neighbouring boundaries, each given to the winner of all parts that cover
it. -/
def cut (parts : List RowPart) : List Nat → List Span
  | lo :: hi :: rest =>
    ((winner? (parts.filter fun p => p.start ≤ lo && hi ≤ p.stop)).map (ofPart lo hi)).toList ++
      cut parts (hi :: rest)
  | _ => []

/-- Parts come in the order of their starts, so those that wait start behind the boundary. -/
theorem lt_start_of_mem_dropWhile {parts : List RowPart} {lo : Nat}
    (hsorted : parts.Pairwise fun p q => p.start ≤ q.start) {p : RowPart}
    (hp : p ∈ parts.dropWhile (·.start ≤ lo)) : lo < p.start := by
  induction parts with
  | nil => cases hp
  | cons a rest ih =>
    obtain ⟨ha, hrest⟩ := List.pairwise_cons.1 hsorted
    rw [List.dropWhile_cons] at hp
    split at hp
    · exact ih hrest hp
    · next hlo =>
      have hlo : lo < a.start := by simpa using hlo
      rcases List.mem_cons.1 hp with rfl | hp
      · exact hlo
      · exact Nat.lt_of_lt_of_le hlo (ha p hp)

theorem append_eq_takeWhile (begun waiting : List RowPart) (lo : Nat) :
    begun ++ waiting =
      (begun ++ waiting.takeWhile (·.start ≤ lo)) ++ waiting.dropWhile (·.start ≤ lo) := by
  rw [List.append_assoc, List.takeWhile_append_dropWhile]

/-- The active parts and those that have just begun are the parts that cover the next span. -/
theorem active_eq_filter {begun waiting : List RowPart} {lo hi : Nat}
    (hsorted : waiting.Pairwise fun p q => p.start ≤ q.start)
    (hbegun : ∀ p ∈ begun, p.start ≤ lo) :
    (begun ++ waiting.takeWhile (·.start ≤ lo)).filter (hi ≤ ·.stop) =
      (begun ++ waiting).filter fun p => p.start ≤ lo && hi ≤ p.stop := by
  have hbefore : ∀ p ∈ begun ++ waiting.takeWhile (·.start ≤ lo), p.start ≤ lo := by
    intro p hp
    rcases List.mem_append.1 hp with hp | hp
    · exact hbegun p hp
    · simpa using List.mem_takeWhile_imp hp
  have hbehind : (waiting.dropWhile (·.start ≤ lo)).filter
      (fun p => p.start ≤ lo && hi ≤ p.stop) = [] := by
    rw [List.filter_eq_nil_iff]
    intro p hp
    have := lt_start_of_mem_dropWhile hsorted hp
    simp only [Bool.and_eq_true, decide_eq_true_eq]
    omega
  rw [append_eq_takeWhile begun waiting lo, List.filter_append (begun ++ _), hbehind,
    List.append_nil]
  apply List.filter_congr
  intro p hp
  simp [hbefore p hp]

/-- The sweep gives each span to the winner of all parts that cover it. What is active need not be
known in full: only parts that reach the next boundary matter from there on. -/
theorem sweep_eq_cut {begun waiting active : List RowPart} {bounds : List Nat}
    (hsorted : waiting.Pairwise fun p q => p.start ≤ q.start)
    (hbounds : bounds.Pairwise (· < ·))
    (hbegun : ∀ p ∈ begun, ∀ b ∈ bounds, p.start ≤ b)
    (hactive : ∀ b ∈ bounds.tail, active.filter (b ≤ ·.stop) = begun.filter (b ≤ ·.stop)) :
    sweep waiting active bounds = cut (begun ++ waiting) bounds := by
  match bounds, hbounds, hbegun, hactive with
  | [], _, _, _ => rfl
  | [_], _, _, _ => rfl
  | lo :: hi :: rest, hbounds, hbegun, hactive =>
    obtain ⟨hlo, htail⟩ := List.pairwise_cons.1 hbounds
    obtain ⟨hhi, _⟩ := List.pairwise_cons.1 htail
    -- the parts that reach the next boundary: those still active, and those that begin here
    have hnow : active.filter (hi ≤ ·.stop) ++
        (waiting.takeWhile (·.start ≤ lo)).filter (hi ≤ ·.stop) =
        (begun ++ waiting).filter fun p => p.start ≤ lo && hi ≤ p.stop := by
      rw [hactive hi (List.mem_cons_self ..), ← List.filter_append]
      exact active_eq_filter hsorted fun p hp => hbegun p hp lo (List.mem_cons_self ..)
    -- Behind the boundary, what has begun is what had begun before and what begins here; to forget
    -- the parts that end there does not matter for the boundaries that follow.
    have hlater : sweep (waiting.dropWhile (·.start ≤ lo))
        (active.filter (hi ≤ ·.stop) ++ (waiting.takeWhile (·.start ≤ lo)).filter (hi ≤ ·.stop))
        (hi :: rest) = cut (begun ++ waiting) (hi :: rest) := by
      rw [append_eq_takeWhile begun waiting lo]
      apply sweep_eq_cut (hsorted.sublist (List.dropWhile_sublist _)) htail
      · intro p hp b hb
        rcases List.mem_append.1 hp with hp | hp
        · exact hbegun p hp b (List.mem_cons_of_mem _ hb)
        · have : p.start ≤ lo := by simpa using List.mem_takeWhile_imp hp
          exact Nat.le_trans this (Nat.le_of_lt (hlo b hb))
      · intro b hb
        have hle : hi ≤ b := Nat.le_of_lt (hhi b hb)
        rw [hactive hi (List.mem_cons_self ..), ← List.filter_append, List.filter_filter]
        apply List.filter_congr
        intro p _
        by_cases hstop : b ≤ p.stop
        · simp [hstop, Nat.le_trans hle hstop]
        · simp [hstop]
    rw [sweep, hlater, hnow, cut]
    cases winner? ((begun ++ waiting).filter fun p => p.start ≤ lo && hi ≤ p.stop) <;> rfl

/-! ### Boundaries -/

/-- The boundaries of a row are the starts and the ends of its parts. -/
theorem mem_bounds {parts : List RowPart} {b : Nat} :
    b ∈ bounds parts ↔ ∃ p ∈ parts, b = p.start ∨ b = p.stop := by
  rw [bounds, mem_eraseReps, List.mem_mergeSort, List.mem_flatMap]
  simp

/-- They are sorted, and none is listed twice. -/
theorem increasing_bounds (parts : List RowPart) : (bounds parts).Pairwise (· < ·) := by
  apply increasing_eraseReps
  refine (List.pairwise_mergeSort ?_ ?_ _).imp of_decide_eq_true
  · intro a b c hab hbc
    simp only [decide_eq_true_eq] at hab hbc ⊢
    exact Nat.le_trans hab hbc
  · intro a b
    simpa using Nat.le_total a b

/-! ### The spans between boundaries -/

/-- Every start and every end of a part is listed, or comes before everything that is listed. -/
def Complete (parts : List RowPart) (bounds : List Nat) : Prop :=
  ∀ p ∈ parts, ∀ b, b = p.start ∨ b = p.stop → b ∈ bounds ∨ ∀ b' ∈ bounds, b < b'

/-- Past its first boundary a list of boundaries is still complete. -/
theorem Complete.tail {parts : List RowPart} {lo : Nat} {rest : List Nat}
    (h : Complete parts (lo :: rest)) (hbounds : (lo :: rest).Pairwise (· < ·)) :
    Complete parts rest := by
  intro p hp b hb
  rcases h p hp b hb with hmem | hlt
  · rcases List.mem_cons.1 hmem with rfl | hmem
    · exact .inr (List.pairwise_cons.1 hbounds).1
    · exact .inl hmem
  · exact .inr fun b' hb' => hlt b' (List.mem_cons_of_mem _ hb')

/-- Between neighbouring boundaries a part covers all columns or none. -/
theorem covers_iff_of_complete {parts : List RowPart} {lo hi : Nat} {rest : List Nat}
    (hcomplete : Complete parts (lo :: hi :: rest))
    (hbounds : (lo :: hi :: rest).Pairwise (· < ·)) {p : RowPart} (hp : p ∈ parts) {column : Nat}
    (hlo : lo ≤ column) (hhi : column < hi) :
    p.Covers column ↔ p.start ≤ lo ∧ hi ≤ p.stop := by
  -- A listed boundary is `lo` or not below `hi`.
  have hlisted : ∀ b ∈ lo :: hi :: rest, b = lo ∨ hi ≤ b := by
    intro b hb
    rcases List.mem_cons.1 hb with rfl | hb
    · exact .inl rfl
    · rcases List.mem_cons.1 hb with rfl | hb
      · exact .inr (Nat.le_refl _)
      · have := (List.pairwise_cons.1 (List.pairwise_cons.1 hbounds).2).1 b hb
        exact .inr (Nat.le_of_lt this)
  constructor
  · rintro ⟨hstart, hstop⟩
    constructor
    · rcases hcomplete p hp p.start (.inl rfl) with hmem | hlt
      · have := hlisted _ hmem
        omega
      · exact Nat.le_of_lt (hlt lo (List.mem_cons_self ..))
    · rcases hcomplete p hp p.stop (.inr rfl) with hmem | hlt
      · have := hlisted _ hmem
        omega
      · have := hlt lo (List.mem_cons_self ..)
        omega
  · rintro ⟨hstart, hstop⟩
    exact ⟨Nat.le_trans hstart hlo, Nat.lt_of_lt_of_le hhi hstop⟩

/-- The winner of a span owns each of its columns. -/
theorem ownsColumn_of_winner? {parts : List RowPart} {lo hi : Nat} {rest : List Nat}
    (hcomplete : Complete parts (lo :: hi :: rest))
    (hbounds : (lo :: hi :: rest).Pairwise (· < ·)) {p : RowPart}
    (hp : winner? (parts.filter fun p => p.start ≤ lo && hi ≤ p.stop) = some p) {column : Nat}
    (hlo : lo ≤ column) (hhi : column < hi) : OwnsColumn parts column p := by
  obtain ⟨hmem, hwins⟩ := RowPart.winner?_eq_some hp
  obtain ⟨hparts, hspan⟩ := List.mem_filter.1 hmem
  -- the parts over the column are those over the whole span
  have hcovers {q : RowPart} (hq : q ∈ parts) :=
    covers_iff_of_complete hcomplete hbounds hq hlo hhi
  refine ⟨hparts, (hcovers hparts).2 (by simpa using hspan), ?_⟩
  intro q hq hqc
  apply hwins
  rw [List.mem_filter]
  exact ⟨hq, by simpa using (hcovers hq).1 hqc⟩

/-- Spans start at boundaries. -/
theorem start_mem_of_mem_cut {parts : List RowPart} {bounds : List Nat} {s : Span}
    (hs : s ∈ cut parts bounds) : s.start ∈ bounds := by
  match bounds, hs with
  | lo :: hi :: rest, hs =>
    rw [cut, List.mem_append] at hs
    rcases hs with hs | hs
    · obtain ⟨p, -, rfl⟩ := Option.map_eq_some_iff.1 (Option.mem_toList.1 hs)
      exact List.mem_cons_self ..
    · exact List.mem_cons_of_mem _ (start_mem_of_mem_cut hs)

/-- Spans are not empty, and each has one owner. -/
theorem mem_cut {parts : List RowPart} {bounds : List Nat} (hcomplete : Complete parts bounds)
    (hbounds : bounds.Pairwise (· < ·)) {s : Span} (hs : s ∈ cut parts bounds) :
    s.start < s.stop ∧ ∃ p, s = ofPart s.start s.stop p ∧
      ∀ column, s.start ≤ column → column < s.stop → OwnsColumn parts column p := by
  match bounds, hcomplete, hbounds, hs with
  | lo :: hi :: rest, hcomplete, hbounds, hs =>
    rw [cut, List.mem_append] at hs
    rcases hs with hs | hs
    · obtain ⟨p, hp, rfl⟩ := Option.map_eq_some_iff.1 (Option.mem_toList.1 hs)
      refine ⟨(List.pairwise_cons.1 hbounds).1 hi (List.mem_cons_self ..), p, rfl, ?_⟩
      intro column hlo hhi
      exact ownsColumn_of_winner? hcomplete hbounds hp hlo hhi
    · exact mem_cut (hcomplete.tail hbounds) (List.pairwise_cons.1 hbounds).2 hs

/-- Every column that a part covers is in a span. -/
theorem exists_mem_cut {parts : List RowPart} {bounds : List Nat}
    (hcomplete : Complete parts bounds) (hbounds : bounds.Pairwise (· < ·)) {p : RowPart}
    (hp : p ∈ parts) {column : Nat} (hcovers : p.Covers column) {first : Nat}
    (hfirst : first ∈ bounds) (hle : first ≤ column) :
    ∃ s ∈ cut parts bounds, s.start ≤ column ∧ column < s.stop := by
  match bounds, hcomplete, hbounds, hfirst with
  | [b], hcomplete, _, hfirst =>
    -- The part ends behind the column, but no boundary is left there.
    rw [List.mem_singleton] at hfirst
    have hstop := hcovers.2
    rcases hcomplete p hp p.stop (.inr rfl) with hmem | hlt
    · have := List.mem_singleton.1 hmem
      omega
    · have := hlt b (List.mem_singleton.2 rfl)
      omega
  | lo :: hi :: rest, hcomplete, hbounds, hfirst =>
    obtain ⟨hlo, htail⟩ := List.pairwise_cons.1 hbounds
    rcases Nat.lt_or_ge column hi with hhi | hhi
    · have hlo : lo ≤ column := by
        rcases List.mem_cons.1 hfirst with rfl | hfirst
        · exact hle
        · have := hlo first hfirst
          omega
      -- the part covers the whole span up to the next boundary, so somebody wins there
      have hspan := (covers_iff_of_complete hcomplete hbounds hp hlo hhi).1 hcovers
      cases hw : winner? (parts.filter fun p => p.start ≤ lo && hi ≤ p.stop) with
      | none =>
        have hnil := RowPart.winner?_eq_none_iff.1 hw
        have := List.filter_eq_nil_iff.1 hnil p hp
        exact absurd (by simpa using hspan) this
      | some q =>
        refine ⟨ofPart lo hi q, ?_, hlo, hhi⟩
        rw [cut, hw]
        exact List.mem_append_left _ (List.mem_singleton.2 rfl)
    · -- the column is behind the next boundary
      obtain ⟨s, hs, hcol⟩ := exists_mem_cut (hcomplete.tail hbounds) htail hp hcovers
        (List.mem_cons_self ..) hhi
      refine ⟨s, ?_, hcol⟩
      rw [cut]
      exact List.mem_append_right _ hs

/-- Spans come from left to right and do not overlap: a span ends at the boundary behind its start,
and the spans cut later start at that boundary or behind it. -/
theorem pairwise_cut {parts : List RowPart} {bounds : List Nat}
    (hbounds : bounds.Pairwise (· < ·)) :
    (cut parts bounds).Pairwise fun s t => s.stop ≤ t.start := by
  match bounds, hbounds with
  | [], _ => exact List.Pairwise.nil
  | [_], _ => exact List.Pairwise.nil
  | lo :: hi :: rest, hbounds =>
    have htail := (List.pairwise_cons.1 hbounds).2
    rw [cut, List.pairwise_append]
    refine ⟨?_, pairwise_cut htail, ?_⟩
    · cases winner? (parts.filter fun p => p.start ≤ lo && hi ≤ p.stop) with
      | none => exact List.Pairwise.nil
      | some p => exact List.pairwise_singleton ..
    · intro s hs t ht
      obtain ⟨p, -, rfl⟩ := Option.map_eq_some_iff.1 (Option.mem_toList.1 hs)
      rcases List.mem_cons.1 (start_mem_of_mem_cut ht) with h | h
      · exact Nat.le_of_eq h.symm
      · exact Nat.le_of_lt ((List.pairwise_cons.1 htail).1 _ h)

end Span

end SyntaxHighlight
