import SyntaxHighlight.Proofs.Token.Runs

/-!
# Reading the stream back

A client adds up the differences in a stream of tokens and gets tokens at absolute places. As long
as rows and columns fit in 32 bits and the spans come in order, no difference is negative
(`relative?_eq_some`) and reading gives back what was written (`placeFrom_relative`).
-/

namespace SyntaxHighlight

namespace Token

structure Placed where
  row : Nat
  start : Nat
  length : Nat
  tokenType : UInt32
deriving DecidableEq, Repr

/-- Read tokens, given the row and the column of the token before. -/
def placeFrom (row start : Nat) : List Token → List Placed
  | [] => []
  | t :: rest =>
    let row' := row + t.deltaLine.toNat
    let start' := if t.deltaLine = 0 then start + t.deltaStart.toNat else t.deltaStart.toNat
    ⟨row', start', t.length.toNat, t.tokenType⟩ :: placeFrom row' start' rest

def decode (tokens : List Token) : List Placed := placeFrom 0 0 tokens

def Placed.Holds (t : Placed) (row column : Nat) : Prop :=
  t.row = row ∧ t.start ≤ column ∧ column < t.start + t.length

def Placed.Before (t u : Placed) : Prop :=
  t.row < u.row ∨ t.row = u.row ∧ t.start + t.length ≤ u.start

/-- The difference of two numbers in 32 bits, unless it is negative. -/
def difference? (a b : UInt32) : Option UInt32 := if b ≤ a then some (a - b) else none

/-- The difference of two columns, if they are on one row. -/
def columnDifference? (deltaLine start' start : UInt32) : Option UInt32 :=
  if deltaLine = 0 then difference? start' start else some start'

/-- The length of a span, unless it is negative. -/
def length? (s : Span) : Option UInt32 :=
  if s.start ≤ s.stop then some (s.stop - s.start).toUInt32 else none

/-- Write spans as `relative` does, but give up as soon as a difference is negative. -/
def relative? (line start : UInt32) : List Span → Option (List Token)
  | [] => some []
  | s :: rest => do
    let line' := s.row.toUInt32
    let start' := s.start.toUInt32
    let deltaLine ← difference? line' line
    let deltaStart ← columnDifference? deltaLine start' start
    let length ← length? s
    let later ← relative? line' start' rest
    return ⟨deltaLine, deltaStart, length, s.tokenType⟩ :: later

def Placed.ofSpan (s : Span) : Placed := ⟨s.row, s.start, s.stop - s.start, s.tokenType⟩

/-- A span can be written in 32 bits. -/
structure Fits (s : Span) : Prop where
  nonempty : s.start < s.stop
  row : s.row < UInt32.size
  stop : s.stop < UInt32.size

/-- All spans come behind a place. -/
def Behind (row start : Nat) (spans : List Span) : Prop :=
  ∀ s ∈ spans, row < s.row ∨ row = s.row ∧ start ≤ s.start

/-- Each span is a place from which the spans behind it can be reached. -/
theorem behind_of_before {s : Span} {rest : List Span} (hs : Fits s)
    (h : (s :: rest).Pairwise Span.Before) : Behind s.row s.start rest := by
  intro t ht
  have := hs.nonempty
  rcases (List.pairwise_cons.1 h).1 t ht with hlt | ⟨heq, hle⟩
  · exact .inl hlt
  · exact .inr ⟨heq, by omega⟩

section

variable {spans : List Span} (hfits : ∀ s ∈ spans, Fits s) (hbefore : spans.Pairwise Span.Before)

include hfits hbefore in
/-- No difference is negative. -/
theorem relative?_eq_some {row start : Nat} (hbehind : Behind row start spans) :
    relative? row.toUInt32 start.toUInt32 spans =
      some (relative row.toUInt32 start.toUInt32 spans) := by
  induction spans generalizing row start with
  | nil => rfl
  | cons s rest ih =>
    have hs := hfits s (List.mem_cons_self ..)
    have hfirst := hbehind s (List.mem_cons_self ..)
    have ⟨hpos, hrow, hstop⟩ := hs
    have hle : row ≤ s.row := by omega
    have hlater := ih (fun t ht => hfits t (List.mem_cons_of_mem _ ht))
      (List.pairwise_cons.1 hbefore).2 (behind_of_before hs hbefore)
    -- the rows do not go back, and neither do the columns of one row
    have hline : difference? s.row.toUInt32 row.toUInt32 =
        some (s.row.toUInt32 - row.toUInt32) := if_pos (toUInt32_le_toUInt32 hle hrow)
    have hcolumn : columnDifference? (s.row.toUInt32 - row.toUInt32) s.start.toUInt32
          start.toUInt32 =
        some (if s.row.toUInt32 - row.toUInt32 = 0 then s.start.toUInt32 - start.toUInt32
          else s.start.toUInt32) := by
      unfold columnDifference?
      split
      · next hsame =>
        rw [toUInt32_sub_eq_zero_iff hle hrow] at hsame
        exact if_pos (toUInt32_le_toUInt32 (by omega) (by omega))
      · rfl
    have hlength : length? s = some (s.stop - s.start).toUInt32 := if_pos (Nat.le_of_lt hpos)
    simp only [relative?, hline, hcolumn, hlength, hlater, relative, bind, Option.bind_some, pure]

include hfits hbefore in
/-- Reading gives back what was written. -/
theorem placeFrom_relative {row start : Nat} (hbehind : Behind row start spans) :
    placeFrom row start (relative row.toUInt32 start.toUInt32 spans) =
      spans.map Placed.ofSpan := by
  induction spans generalizing row start with
  | nil => rfl
  | cons s rest ih =>
    have hs := hfits s (List.mem_cons_self ..)
    have hfirst := hbehind s (List.mem_cons_self ..)
    have ⟨hpos, hrow, hstop⟩ := hs
    have hle : row ≤ s.row := by omega
    -- row and start are found again from the differences
    have hrow' : row + (s.row.toUInt32 - row.toUInt32).toNat = s.row := by
      rw [toNat_toUInt32_sub hle hrow]
      omega
    have hstart' : (if s.row.toUInt32 - row.toUInt32 = 0
          then start + (if s.row.toUInt32 - row.toUInt32 = 0
            then s.start.toUInt32 - start.toUInt32 else s.start.toUInt32).toNat
          else (if s.row.toUInt32 - row.toUInt32 = 0
            then s.start.toUInt32 - start.toUInt32 else s.start.toUInt32).toNat) = s.start := by
      split
      · next hsame =>
        rw [toUInt32_sub_eq_zero_iff hle hrow] at hsame
        rw [toNat_toUInt32_sub (by omega) (by omega)]
        omega
      · exact toNat_toUInt32 (by omega)
    rw [relative, placeFrom, hrow', hstart', toNat_toUInt32 (by omega),
      ih (fun t ht => hfits t (List.mem_cons_of_mem _ ht)) (List.pairwise_cons.1 hbefore).2
        (behind_of_before hs hbefore)]
    rfl

end

end Token

end SyntaxHighlight
