import SyntaxHighlight.Proofs.Scope.Segment

/-!
# What a scope pattern can be written as

A text is read as a pattern in two steps that look ahead differently, so it is not plain that the
two agree on where a segment ends. This file splits the question in two: how a list of segments is
laid out in a text (`Written`), and which lists of segments are read back from their layouts
(`Readable`),

    parse_eq_ok_iff : Pattern.parse text = .ok p ↔
      Readable p.segments ∧ Written p.segments (trimEnd text.toList)

`Readable` does not mention the text. Looking for the end of a quoted token, the reader may skip
from a `[` in the token to a `]` in a segment behind it; whether it stops there depends on the
segments and not on their spacing or on the spelling of their qualifiers.
-/

namespace SyntaxHighlight.Scope

open Text

/-! ### Ends of segments -/

/-- Whether a segment may end here: blanks, and then the end of the text or a `>`. -/
def endsHere (cs : List Char) : Bool :=
  match trimStart cs with
  | [] => true
  | c :: _ => c == '>'

def afterBracket? (cs : List Char) : Option (List Char) :=
  match cs.dropWhile (· != ']') with
  | [] => none
  | _ :: rest => some rest

def EndsProper (cs : List Char) : Prop := ∀ c, cs.getLast? = some c → isBlank c = false ∧ c ≠ '>'

theorem EndsProper.of_append {a b : List Char} (h : EndsProper (a ++ b)) : EndsProper b := by
  intro c hc
  apply h c
  rw [List.getLast?_append, hc, Option.some_or]

theorem EndsProper.append {b : List Char} (h : EndsProper b) (hb : b ≠ []) (a : List Char) :
    EndsProper (a ++ b) := by
  intro c hc
  apply h c
  rwa [List.getLast?_append, Option.or_of_isSome (by simpa using hb)] at hc

theorem EndsProper.endsSolid {cs : List Char} (h : EndsProper cs) : EndsSolid cs :=
  fun c hc => (h c hc).1

theorem endsHere_of_nil {cs : List Char} (h : trimStart cs = []) : endsHere cs = true := by
  simp [endsHere, h]

theorem endsHere_of_cons {cs rest : List Char} {c : Char} (h : trimStart cs = c :: rest) :
    endsHere cs = (c == '>') := by
  simp [endsHere, h]

/-- If a text is not all blanks, what follows it does not matter. -/
theorem endsHere_append {a : List Char} (h : trimStart a ≠ []) (b : List Char) :
    endsHere (a ++ b) = endsHere a := by
  obtain ⟨c, t, ht⟩ := List.exists_cons_of_ne_nil h
  simp only [endsHere, trimStart_append_right h, ht, List.cons_append]

theorem afterBracket?_of_notMem {cs : List Char} (h : ']' ∉ cs) : afterBracket? cs = none := by
  simp [afterBracket?, dropWhile_ne_of_notMem h]

theorem afterBracket?_cut {a : List Char} (h : ']' ∉ a) (b : List Char) :
    afterBracket? (a ++ ']' :: b) = some b := by
  simp [afterBracket?, dropWhile_ne_append h]

theorem afterBracket?_eq_some {cs rest : List Char} (h : afterBracket? cs = some rest) :
    ∃ a, ']' ∉ a ∧ cs = a ++ ']' :: rest := by
  by_cases hmem : ']' ∈ cs
  · obtain ⟨a, b, rfl, ha⟩ := List.eq_append_cons_of_mem hmem
    rw [afterBracket?_cut ha] at h
    obtain rfl := Option.some.inj h
    exact ⟨a, ha, rfl⟩
  · rw [afterBracket?_of_notMem hmem] at h
    simp at h

theorem afterBracket?_append_of_none {a : List Char} (h : afterBracket? a = none) (b : List Char) :
    afterBracket? (a ++ b) = afterBracket? b := by
  -- no `]` stands in the first text, so all of it is skipped
  have ha : ']' ∉ a := by
    intro hmem
    obtain ⟨a₁, a₂, rfl, ha₁⟩ := List.eq_append_cons_of_mem hmem
    rw [afterBracket?_cut ha₁] at h
    simp at h
  simp [afterBracket?, List.dropWhile_append_of_pos (bne_of_notMem ha)]

theorem afterBracket?_append_of_some {a rest : List Char} (h : afterBracket? a = some rest)
    (b : List Char) : afterBracket? (a ++ b) = some (rest ++ b) := by
  obtain ⟨front, hfront, rfl⟩ := afterBracket?_eq_some h
  rw [List.append_assoc, List.cons_append, afterBracket?_cut hfront]

theorem afterBrackets_bracket (inner : List Char) :
    afterBrackets ('[' :: inner) = (afterBracket? inner).getD ('[' :: inner) := by
  simp only [afterBrackets, afterBracket?]
  cases inner.dropWhile (· != ']') <;> rfl

theorem afterBrackets_of_head {cs : List Char} (h : cs.head? ≠ some '[') :
    afterBrackets cs = cs := by
  unfold afterBrackets
  split
  · simp at h
  · rfl

/-- Brackets are dropped whole or not at all. -/
theorem exists_append_afterBrackets (cs : List Char) :
    ∃ a, cs = a ++ afterBrackets cs ∧ (a = [] ∨ a.getLast? = some ']') := by
  by_cases hhead : cs.head? = some '['
  · obtain ⟨inner, rfl⟩ := List.head?_eq_some_iff.1 hhead
    rw [afterBrackets_bracket]
    cases hb : afterBracket? inner with
    | none => exact ⟨[], rfl, .inl rfl⟩
    | some rest =>
      obtain ⟨a, -, rfl⟩ := afterBracket?_eq_some hb
      exact ⟨'[' :: (a ++ [']']), by simp, .inr (by rw [← List.cons_append, List.getLast?_concat])⟩
  · exact ⟨[], by rw [afterBrackets_of_head hhead]; rfl, .inl rfl⟩

/-! ### Ends of tokens -/

/-- What `afterLiteral?` leaves, apart from a `>` at the end of the text. -/
theorem afterLiteral?_quote {cs : List Char} (h : EndsProper cs) :
    afterLiteral? ('"' :: cs) =
      if endsHere (afterBrackets cs) then some (afterBrackets cs) else afterLiteral? cs := by
  obtain ⟨a, hcs, -⟩ := exists_append_afterBrackets cs
  obtain ⟨g, -, hg⟩ := exists_blanks_append_trimStart (afterBrackets cs)
  simp only [afterLiteral?, if_true]
  split
  · next hnil => rw [endsHere_of_nil hnil, if_pos rfl]
  · next next hnext =>
    -- Blanks behind the `>` would end the text, and so would the `>` without them.
    have hproper : EndsProper ('>' :: next) := by
      rw [hcs, hg, hnext] at h
      exact h.of_append.of_append
    have hmore : (trimStart next).isEmpty = false := by
      cases ht : trimStart next with
      | cons c t => rfl
      | nil =>
        have hsolid : EndsSolid next := (EndsProper.of_append (a := ['>']) hproper).endsSolid
        have hnil : next = [] := hsolid.eq_nil (trimStart_eq_nil_iff.1 ht)
        rw [hnil] at hproper
        exact absurd rfl (hproper '>' rfl).2
    rw [endsHere_of_cons hnext]
    simp [hmore]
  · next hne hgt =>
    obtain ⟨c, t, ht⟩ := List.exists_cons_of_ne_nil hne
    have hc : (c == '>') = false := by
      rw [beq_eq_false_iff_ne]
      rintro rfl
      exact hgt t ht
    rw [endsHere_of_cons ht, hc]
    simp

/-- Only a quote can end a token. -/
theorem afterLiteral?_of_ne {c : Char} (h : c ≠ '"') (cs : List Char) :
    afterLiteral? (c :: cs) = afterLiteral? cs := by
  simp [afterLiteral?, h]

/-- Behind a token and its brackets a segment may end, and what is skipped ends in a quote or in a
bracket. -/
theorem afterLiteral?_eq_some {cs rest : List Char} (h : afterLiteral? cs = some rest) :
    endsHere rest = true ∧
      ∃ a, cs = a ++ rest ∧ (a.getLast? = some '"' ∨ a.getLast? = some ']') := by
  induction cs with
  | nil => simp [afterLiteral?] at h
  | cons c cs ih =>
    -- Either a quote further on closes the token, or this one does.
    have hor : afterLiteral? cs = some rest ∨
        c = '"' ∧ afterBrackets cs = rest ∧ endsHere rest = true := by
      simp only [afterLiteral?] at h
      split at h
      · next hc =>
        split at h
        · next ht => exact .inr ⟨hc, Option.some.inj h, Option.some.inj h ▸ endsHere_of_nil ht⟩
        · next next ht =>
          have hends : endsHere (afterBrackets cs) = true := endsHere_of_cons ht
          split at h
          · rcases Option.or_eq_some_iff.1 h with h | ⟨-, h⟩
            · exact .inl h
            · exact .inr ⟨hc, Option.some.inj h, Option.some.inj h ▸ hends⟩
          · exact .inr ⟨hc, Option.some.inj h, Option.some.inj h ▸ hends⟩
        · exact .inl h
      · exact .inl h
    -- In the first case the text skipped grows by one character and keeps its end; in the second it
    -- is the quote and the brackets behind it.
    rcases hor with h | ⟨rfl, rfl, hends⟩
    · obtain ⟨hends, a, ha, hlast⟩ := ih h
      refine ⟨hends, c :: a, by rw [ha]; rfl, ?_⟩
      have hne : a ≠ [] := by rintro rfl; simp at hlast
      rwa [List.getLast?_cons_of_ne_nil hne]
    · obtain ⟨a, ha, hlast⟩ := exists_append_afterBrackets cs
      refine ⟨hends, '"' :: a, by rw [List.cons_append, ← ha], ?_⟩
      rcases hlast with rfl | hlast
      · exact .inl rfl
      · have hne : a ≠ [] := by rintro rfl; simp at hlast
        exact .inr (by rwa [List.getLast?_cons_of_ne_nil hne])

/-- A text that ends in a quote or in a bracket does not end in a blank. -/
theorem endsSolid_cons_of_getLast? (c : Char) {a : List Char}
    (h : a.getLast? = some '"' ∨ a.getLast? = some ']') : EndsSolid (c :: a) := by
  have hne : a ≠ [] := by rintro rfl; simp at h
  intro d hd
  rw [List.getLast?_cons_of_ne_nil hne] at hd
  rcases h with h | h
  · obtain rfl := Option.some.inj (h.symm.trans hd)
    decide
  · obtain rfl := Option.some.inj (h.symm.trans hd)
    decide

/-! ### Layouts -/

/-- The segments that can be read on their own. -/
structure Segment.Valid (s : Segment) : Prop where
  isKey : IsKey s.key.toList
  /-- A bare name ends at a `>`. -/
  bare : s.isLiteral = false → '>' ∉ s.key.toList
  /-- A `]` at the end belongs to a qualifier. -/
  plain : s.order = none → s.key.toList.getLast? ≠ some ']'
  order : ∀ o, s.order = some o → o.InRange

/-- The texts that add segments to a pattern: each behind a `>`, with blanks on both sides of it. -/
inductive Continues : List Segment → List Char → Prop
  | nil : Continues [] []
  | cons {s : Segment} {ss : List Segment} {g g' q rest : List Char} :
      Blanks g → Blanks g' → Spells s.order q → Continues ss rest →
      Continues (s :: ss) (g ++ '>' :: (g' ++ (s.key.toList ++ (q ++ rest))))

inductive Written : List Segment → List Char → Prop
  | intro {s : Segment} {ss : List Segment} {g q rest : List Char} :
      Blanks g → Spells s.order q → Continues ss rest →
      Written (s :: ss) (g ++ (s.key.toList ++ (q ++ rest)))

/-- Whether a segment ends behind the first `]` of some segments. -/
def firstBracketEnds : List Segment → Bool
  | [] => false
  | s :: ss =>
    match afterBracket? s.key.toList with
    | some rest => !rest.isEmpty && endsHere rest
    | none => s.order.isSome || firstBracketEnds ss

/-- Whether a quote ends its token, given what is left of the token behind it: at the right place,
at a wrong place, or not at all. -/
def closing (order : Option Order) (ss : List Segment) : List Char → Option Bool
  | [] => some true
  | '[' :: inner =>
    match afterBracket? inner with
    | some rest => if endsHere rest then some false else none
    | none =>
      if order.isSome then some true
      else if firstBracketEnds ss then some false
      else none
  | cs => if endsHere cs then some false else none

/-- Whether the first quote that ends a token does so at the right place. -/
def closes (order : Option Order) (ss : List Segment) : List Char → Bool
  | [] => false
  | c :: cs =>
    if c = '"' then (closing order ss cs).getD (closes order ss cs) else closes order ss cs

/-- Whether every token among the segments is read up to its end. -/
def legible : List Segment → Bool
  | [] => true
  | s :: ss => (!s.isLiteral || closes s.order ss s.key.toList.tail) && legible ss

/-- The lists of segments that are read back from their texts. -/
structure Readable (ss : List Segment) : Prop where
  ne_nil : ss ≠ []
  valid : ∀ s ∈ ss, s.Valid
  legible : legible ss = true

/-- What follows a segment in a layout starts with a `>`, or there is nothing left. -/
theorem Continues.endsHere_eq {ss : List Segment} {rest : List Char} (h : Continues ss rest) :
    endsHere rest = true := by
  cases h with
  | nil => rfl
  | cons hg _ _ _ =>
    rw [endsHere_of_cons ((trimStart_append hg _).trans (trimStart_cons (c := '>') (by decide) _))]
    rfl

/-- The key of a bare segment is a name without blanks, quotes and `>`. -/
theorem Segment.Valid.bare_key {s : Segment} (h : s.Valid) (hbare : s.isLiteral = false) :
    s.key.toList ≠ [] ∧ ∀ c ∈ s.key.toList, isBlank c = false ∧ c ≠ '"' ∧ c ≠ '>' := by
  have hkey := h.isKey
  unfold IsKey at hkey
  split at hkey
  · exact hkey.elim
  · next inner heq => simp [Segment.isLiteral, heq] at hbare
  · next hne _ =>
    refine ⟨hne, fun c hc => ⟨hkey.1 c hc, ?_, ?_⟩⟩
    · rintro rfl
      exact hkey.2 hc
    · rintro rfl
      exact h.bare hbare hc

/-- The key of a literal segment is a token in quotes. -/
theorem Segment.Valid.literal_key {s : Segment} (h : s.Valid) (hliteral : s.isLiteral = true) :
    ∃ token, token ≠ [] ∧ s.key.toList = '"' :: (token ++ ['"']) := by
  have hkey := h.isKey
  unfold IsKey at hkey
  split at hkey
  · exact hkey.elim
  · next inner heq =>
    obtain ⟨hlength, hlast⟩ := hkey
    obtain ⟨token, rfl⟩ := List.getLast?_eq_some_iff.1 hlast
    refine ⟨token, ?_, heq⟩
    rintro rfl
    simp at hlength
  · next hquote =>
    rw [Segment.isLiteral, beq_iff_eq] at hliteral
    obtain ⟨inner, hinner⟩ := List.head?_eq_some_iff.1 hliteral
    exact absurd hinner (hquote inner)

/-- The key of a segment is a token in quotes or a bare name. -/
theorem Segment.Valid.token_or_name {s : Segment} (h : s.Valid) :
    (s.isLiteral = true ∧ ∃ inner, s.key.toList = '"' :: inner ∧ inner.getLast? = some '"') ∨
    (s.isLiteral = false ∧ s.key.toList ≠ [] ∧
      ∀ c ∈ s.key.toList, isBlank c = false ∧ c ≠ '>') := by
  cases hliteral : s.isLiteral with
  | true =>
    obtain ⟨token, -, hkey⟩ := h.literal_key hliteral
    exact .inl ⟨rfl, token ++ ['"'], hkey, List.getLast?_concat⟩
  | false =>
    obtain ⟨hne, hchars⟩ := h.bare_key hliteral
    exact .inr ⟨rfl, hne, fun c hc => ⟨(hchars c hc).1, (hchars c hc).2.2⟩⟩

theorem Segment.Valid.key_ne_nil {s : Segment} (h : s.Valid) : s.key.toList ≠ [] := by
  rcases h.token_or_name with ⟨-, inner, heq, -⟩ | ⟨-, hne, -⟩
  · simp [heq]
  · exact hne

/-- A key ends neither in a blank nor in a `>`. -/
theorem Segment.Valid.endsProper_key {s : Segment} (h : s.Valid) : EndsProper s.key.toList := by
  intro c hc
  rcases h.token_or_name with ⟨-, inner, heq, hlast⟩ | ⟨-, -, hchars⟩
  · have hne : inner ≠ [] := by rintro rfl; simp at hlast
    rw [heq, List.getLast?_cons_of_ne_nil hne, hlast] at hc
    obtain rfl := Option.some.inj hc
    exact ⟨by decide, by decide⟩
  · exact hchars c (List.mem_of_getLast? hc)

theorem EndsProper.trimStart_ne_nil {cs : List Char} (h : EndsProper cs) (hcs : cs ≠ []) :
    trimStart cs ≠ [] :=
  fun ht => hcs (h.endsSolid.eq_nil (trimStart_eq_nil_iff.1 ht))

theorem Spells.eq_nil_iff {order : Option Order} {q : List Char} (h : Spells order q) :
    q = [] ↔ order = none := by
  cases h <;> simp

/-- The first `]` of a qualifier is the one that ends it. -/
theorem Spells.afterBracket?_append {o : Order} {q : List Char} (h : Spells (some o) q)
    (rest : List Char) : afterBracket? (q ++ rest) = some rest := by
  cases h with
  | @bracketed _ body horder =>
    have hbody := (isOrderChar_ne_bracket (readOrder_eq_some horder).2).2
    have hinner : ']' ∉ '[' :: body := by simpa using hbody
    have hq : '[' :: (body ++ [']']) ++ rest = ('[' :: body) ++ ']' :: rest := by simp
    rw [hq, afterBracket?_cut hinner]

theorem Spells.endsHere_append {o : Order} {q : List Char} (h : Spells (some o) q)
    (rest : List Char) : endsHere (q ++ rest) = false := by
  cases h with
  | bracketed _ => exact endsHere_of_cons (trimStart_cons (c := '[') (by decide) _)

/-- Whether a segment ends behind the first `]` of a layout is seen from its segments. -/
theorem Continues.any_afterBracket? {ss : List Segment} {rest : List Char}
    (h : Continues ss rest) (hvalid : ∀ s ∈ ss, s.Valid) :
    (afterBracket? rest).any endsHere = firstBracketEnds ss := by
  induction h with
  | nil => rfl
  | @cons s ss g g' q rest hg hg' hq hrest ih =>
    have hs : s.Valid := hvalid s (by simp)
    -- the blanks and the `>` in front of the segment hold no `]`
    have hgap : afterBracket? (g ++ '>' :: g') = none := by
      have hblank : ∀ {b : List Char}, Blanks b → ']' ∉ b := fun hb hmem =>
        absurd (hb _ hmem) (by decide)
      apply afterBracket?_of_notMem
      simp [hblank hg, hblank hg']
    have hlayout : g ++ '>' :: (g' ++ (s.key.toList ++ (q ++ rest))) =
        (g ++ '>' :: g') ++ (s.key.toList ++ (q ++ rest)) := by simp
    rw [hlayout, afterBracket?_append_of_none hgap]
    cases hkey : afterBracket? s.key.toList with
    | none =>
      -- the key holds no `]`: the first one is that of its qualifier, or stands further on
      rw [afterBracket?_append_of_none hkey]
      simp only [firstBracketEnds, hkey]
      cases horder : s.order with
      | none =>
        rw [horder] at hq
        rw [hq.eq_nil_iff.2 rfl, List.nil_append, ih fun t ht => hvalid t (by simp [ht])]
        simp
      | some o =>
        rw [horder] at hq
        rw [hq.afterBracket?_append rest]
        simp [hrest.endsHere_eq]
    | some behind =>
      -- the key holds one, and what stands behind it in the key decides
      rw [afterBracket?_append_of_some hkey]
      simp only [firstBracketEnds, hkey, Option.any_some]
      obtain ⟨a, -, ha⟩ := afterBracket?_eq_some hkey
      cases hbehind : behind with
      | nil =>
        -- The key ends in `]`, so a qualifier follows.
        cases horder : s.order with
        | none => exact absurd (by rw [ha, hbehind]; simp) (hs.plain horder)
        | some o =>
          rw [horder] at hq
          simpa using hq.endsHere_append rest
      | cons c t =>
        have hproper : EndsProper (c :: t) := by
          have hkeyproper := hs.endsProper_key
          rw [ha, hbehind] at hkeyproper
          exact EndsProper.of_append (a := a ++ [']']) (by simpa using hkeyproper)
        rw [endsHere_append (hproper.trimStart_ne_nil (by simp))]
        simp

/-! ### Tokens in their layouts -/

/-- The spelling of a qualifier is skipped whole, and without one nothing is skipped. -/
theorem Spells.afterBrackets_append {order : Option Order} {q : List Char} (h : Spells order q)
    {ss : List Segment} {rest : List Char} (hrest : Continues ss rest) :
    afterBrackets (q ++ rest) = rest := by
  cases h with
  | plain =>
    apply afterBrackets_of_head
    -- no `[` follows: a segment behind this one starts with blanks or with its `>`
    cases hrest with
    | nil => simp
    | @cons _ _ g _ _ _ hg _ _ _ =>
      cases g with
      | nil => simp
      | cons c t =>
        have hc := hg c (by simp)
        rintro hhead
        obtain rfl : c = '[' := by simpa using hhead
        exact absurd hc (by decide)
  | @bracketed o body horder =>
    have h := (Spells.bracketed horder).afterBracket?_append rest
    have hq : '[' :: (body ++ [']']) = ['['] ++ (body ++ [']']) := rfl
    rw [hq, List.append_assoc, afterBracket?_append_of_none (by decide)] at h
    rw [List.cons_append, afterBrackets_bracket, h]
    rfl

theorem closing_of_head {order : Option Order} {ss : List Segment} {cs : List Char} (hne : cs ≠ [])
    (h : cs.head? ≠ some '[') :
    closing order ss cs = if endsHere cs then some false else none := by
  unfold closing
  split
  · exact absurd rfl hne
  · simp at h
  · rfl

theorem EndsProper.of_quote {cs : List Char} (h : cs.getLast? = some '"') : EndsProper cs := by
  intro c hc
  obtain rfl := Option.some.inj (h.symm.trans hc)
  exact ⟨by decide, by decide⟩

/-- What a quote does, seen from the text behind it, fits what is seen from the segments: `left` is
what stands behind the brackets at the quote, `rest` what stands behind the segment. -/
def Fits (left rest : List Char) : Option Bool → Prop
  | some true => left = rest
  | some false => endsHere left = true ∧ left ≠ rest
  | none => endsHere left = false

theorem fits_ite {left rest : List Char} (hne : left ≠ rest) :
    Fits left rest (if endsHere left then some false else none) := by
  cases hends : endsHere left with
  | true => exact ⟨hends, hne⟩
  | false => exact hends

section Closing

variable {order : Option Order} {ss : List Segment} {q rest : List Char}
  (hq : Spells order q) (hrest : Continues ss rest) (hvalid : ∀ s ∈ ss, s.Valid)

include hq hrest hvalid

/-- A `[` in a token without a `]` is closed by the qualifier of the token, by a segment behind it,
or not at all. -/
theorem fits_closing_open {inner : List Char} (hinner : afterBracket? inner = none) :
    Fits (afterBrackets ('[' :: (inner ++ (q ++ rest)))) rest
      (closing order ss ('[' :: inner)) := by
  simp only [closing, hinner]
  rw [afterBrackets_bracket, afterBracket?_append_of_none hinner]
  cases order with
  | some o =>
    -- the qualifier of the token itself ends the bracket
    show (afterBracket? (q ++ rest)).getD _ = rest
    rw [hq.afterBracket?_append rest]
    rfl
  | none =>
    -- without one the bracket reaches into the segments behind
    have hfirst := hrest.any_afterBracket? hvalid
    rw [hq.eq_nil_iff.2 rfl, List.nil_append, ← hfirst]
    cases hbracket : afterBracket? rest with
    | none =>
      show endsHere ('[' :: (inner ++ rest)) = false
      exact endsHere_of_cons (trimStart_cons (c := '[') (by decide) _)
    | some behind =>
      obtain ⟨a, -, rfl⟩ := afterBracket?_eq_some hbracket
      have hcut : a ++ ']' :: behind = (a ++ [']']) ++ behind := by simp
      apply fits_ite
      rw [hcut]
      exact Ne.symm (mt List.append_left_eq_self.1 (by simp))

/-- What a quote inside a token does is seen from the rest of the token and from the segments behind
it, whatever the layout. -/
theorem fits_closing {cs : List Char} (hcs : cs = [] ∨ cs.getLast? = some '"') :
    Fits (afterBrackets (cs ++ (q ++ rest))) rest (closing order ss cs) := by
  rcases hcs with rfl | hlast
  · exact hq.afterBrackets_append hrest
  have hne : cs ≠ [] := by rintro rfl; simp at hlast
  by_cases hhead : cs.head? = some '['
  · obtain ⟨inner, rfl⟩ := List.head?_eq_some_iff.1 hhead
    cases hinner : afterBracket? inner with
    | none => exact fits_closing_open hq hrest hvalid hinner
    | some behind =>
      -- The brackets end inside the token.
      simp only [closing, hinner]
      rw [List.cons_append, afterBrackets_bracket, afterBracket?_append_of_some hinner,
        Option.getD_some]
      obtain ⟨a, -, rfl⟩ := afterBracket?_eq_some hinner
      have hbehind : behind ≠ [] := by
        rintro rfl
        have hcut : '[' :: (a ++ [']']) = ('[' :: a) ++ [']'] := rfl
        rw [hcut, List.getLast?_concat] at hlast
        exact absurd hlast (by decide)
      have hproper : EndsProper behind :=
        EndsProper.of_append (a := '[' :: (a ++ [']'])) (by simpa using EndsProper.of_quote hlast)
      rw [← endsHere_append (hproper.trimStart_ne_nil hbehind) (q ++ rest)]
      apply fits_ite
      rw [← List.append_assoc]
      exact mt List.append_left_eq_self.1 (by simp [hbehind])
  · -- no bracket behind the quote: what the token goes on with decides, and it is not all blanks
    have hhead' : (cs ++ (q ++ rest)).head? ≠ some '[' := by
      obtain ⟨c, t, rfl⟩ := List.exists_cons_of_ne_nil hne
      exact hhead
    rw [closing_of_head hne hhead, afterBrackets_of_head hhead',
      ← endsHere_append ((EndsProper.of_quote hlast).trimStart_ne_nil hne) (q ++ rest)]
    apply fits_ite
    rw [← List.append_assoc]
    exact mt List.append_left_eq_self.1 (by simp [hne])

/-- A token is read up to its end in one layout if it is in every other. -/
theorem afterLiteral?_eq_rest_iff {cs : List Char} (hcs : cs.getLast? = some '"')
    (hproper : EndsProper (cs ++ (q ++ rest))) :
    afterLiteral? (cs ++ (q ++ rest)) = some rest ↔ closes order ss cs = true := by
  induction cs with
  | nil => simp at hcs
  | cons c cs ih =>
    have hproper' : EndsProper (cs ++ (q ++ rest)) := EndsProper.of_append (a := [c]) hproper
    have hcs' : cs = [] ∨ cs.getLast? = some '"' := by
      by_cases hnil : cs = []
      · exact .inl hnil
      · exact .inr (by rwa [List.getLast?_cons_of_ne_nil hnil] at hcs)
    rw [List.cons_append]
    by_cases hc : c = '"'
    · subst hc
      -- a quote is the end, or a wrong end, or is passed over, as `closing` says
      rw [afterLiteral?_quote hproper']
      simp only [closes, if_true]
      have hfits := fits_closing hq hrest hvalid hcs'
      match hclosing : closing order ss cs with
      | some true =>
        have hleft : afterBrackets (cs ++ (q ++ rest)) = rest := by rwa [hclosing] at hfits
        simp [hleft, hrest.endsHere_eq]
      | some false =>
        rw [hclosing] at hfits
        obtain ⟨hends, hne⟩ := hfits
        simp [hends, hne]
      | none =>
        have hends : endsHere (afterBrackets (cs ++ (q ++ rest))) = false := by
          rwa [hclosing] at hfits
        -- a quote that is passed over is not the last one
        have hlast : cs.getLast? = some '"' := by
          refine hcs'.resolve_left ?_
          rintro rfl
          simp [closing] at hclosing
        rw [if_neg (by rw [hends]; decide), ih hlast hproper']
        rfl
    · have hlast : cs.getLast? = some '"' := by
        refine hcs'.resolve_left ?_
        rintro rfl
        exact hc (by simpa using hcs)
      rw [afterLiteral?_of_ne hc, ih hlast hproper']
      simp only [closes, if_neg hc]

end Closing

/-! ### Every layout is read -/

theorem Spells.forall_ne_gt {order : Option Order} {q : List Char} (h : Spells order q) :
    '>' ∉ q := by
  cases h with
  | plain => simp
  | @bracketed o body horder =>
    have hbody : '>' ∉ body := fun hmem => absurd ((readOrder_eq_some horder).2 _ hmem) (by decide)
    simp [hbody]

theorem Spells.inRange {order : Option Order} {q : List Char} (h : Spells order q) :
    ∀ o, order = some o → o.InRange := by
  cases h with
  | plain => simp
  | bracketed horder =>
    intro o ho
    obtain rfl := Option.some.inj ho
    exact (readOrder_eq_some horder).1

theorem Segment.Valid.trimStart_key {s : Segment} (h : s.Valid) {g : List Char} (hg : Blanks g)
    (rest : List Char) : trimStart (g ++ (s.key.toList ++ rest)) = s.key.toList ++ rest := by
  rw [trimStart_append hg]
  rcases h.token_or_name with ⟨-, inner, heq, -⟩ | ⟨-, hne, hchars⟩
  · rw [heq]
    exact trimStart_cons (by decide) _
  · obtain ⟨c, t, ht⟩ := List.exists_cons_of_ne_nil hne
    have hc := (hchars c (by rw [ht]; simp)).1
    rw [ht]
    exact trimStart_cons hc _

theorem Segment.Valid.endsProper_append {s : Segment} (h : s.Valid) {q : List Char}
    (hq : Spells s.order q) : EndsProper (s.key.toList ++ q) := by
  cases horder : s.order with
  | none =>
    rw [horder] at hq
    rw [hq.eq_nil_iff.2 rfl, List.append_nil]
    exact h.endsProper_key
  | some o =>
    rw [horder] at hq
    cases hq with
    | @bracketed _ body _ =>
      intro c hc
      have hcut : s.key.toList ++ '[' :: (body ++ [']']) =
          (s.key.toList ++ '[' :: body) ++ [']'] := by simp
      rw [hcut, List.getLast?_concat] at hc
      obtain rfl := Option.some.inj hc
      exact ⟨by decide, by decide⟩

/-- A valid segment is read back from its key and a spelling of its order, with blanks behind. -/
theorem Segment.Valid.readSegment_append {s : Segment} (h : s.Valid) {q g : List Char}
    (hq : Spells s.order q) (hg : Blanks g) : readSegment (s.key.toList ++ q ++ g) = .ok s := by
  refine readSegment_eq_ok_iff.2 ⟨h.isKey, q, hq, ?_, h.plain⟩
  have hstart := h.trimStart_key blanks_nil (q ++ g)
  rw [List.nil_append, ← List.append_assoc] at hstart
  rw [trim, hstart, trimEnd_append hg]
  exact trimEnd_eq_self (h.endsProper_append hq).endsSolid

/-- No layout ends in a blank or in a `>`, since its last segment does not. -/
theorem Continues.endsProper {ss : List Segment} {rest : List Char} (h : Continues ss rest)
    (hvalid : ∀ s ∈ ss, s.Valid) {s : Segment} (hs : s.Valid) {q : List Char}
    (hq : Spells s.order q) : EndsProper (s.key.toList ++ (q ++ rest)) := by
  induction h generalizing s q with
  | nil =>
    rw [List.append_nil]
    exact hs.endsProper_append hq
  | @cons t ss g g' q' rest _ _ hq' _ ih =>
    -- a segment follows, and the layout ends where that one's does
    have ht : t.Valid := hvalid t (by simp)
    have hlast := ih (fun u hu => hvalid u (by simp [hu])) ht hq'
    have hne : t.key.toList ++ (q' ++ rest) ≠ [] := by simp [ht.key_ne_nil]
    have hcut : s.key.toList ++ (q ++ (g ++ '>' :: (g' ++ (t.key.toList ++ (q' ++ rest))))) =
        (s.key.toList ++ q ++ g ++ '>' :: g') ++ (t.key.toList ++ (q' ++ rest)) := by simp
    rw [hcut]
    exact hlast.append hne _

/-- What stands behind a raw segment: the end of the text, or a `>` and the rest of it. -/
inductive Behind : Option (List Char) → List Char → Prop
  | last : Behind none []
  | more {g next : List Char} : Blanks g → Behind (some next) (g ++ '>' :: next)

/-- The first segment of a layout is cut off where it ends, up to blanks. -/
theorem firstPiece_layout {s : Segment} {ss : List Segment} {q rest : List Char}
    {next : Option (List Char)} (hs : s.Valid) (hq : Spells s.order q) (hrest : Continues ss rest)
    (hvalid : ∀ t ∈ ss, t.Valid) (hlegible : legible (s :: ss) = true)
    (hbehind : Behind next rest) :
    ∃ piece, firstPiece (s.key.toList ++ (q ++ rest)) = .ok (piece, next) ∧
      readSegment piece = .ok s := by
  have hproper := hrest.endsProper hvalid hs hq
  -- the piece is the key with its qualifier, and maybe the blanks in front of the `>`
  have hread : ∀ g, Blanks g → readSegment (s.key.toList ++ q ++ g) = .ok s :=
    fun _ hg => hs.readSegment_append hq hg
  rcases hs.token_or_name with ⟨hliteral, inner, heq, hlast⟩ | ⟨hbare, hne, hchars⟩
  · -- a token: by legibility its first quote that ends anything is the right one
    have hcloses : closes s.order ss inner = true := by
      simpa [legible, hliteral, heq] using (Bool.and_eq_true_iff.1 hlegible).1
    have hafter : afterLiteral? (inner ++ (q ++ rest)) = some rest := by
      rw [heq] at hproper
      exact (afterLiteral?_eq_rest_iff hq hrest hvalid hlast
        (EndsProper.of_append (a := ['"']) hproper)).2 hcloses
    refine ⟨s.key.toList ++ q, ?_, by simpa using hread [] blanks_nil⟩
    rw [heq, List.cons_append]
    simp only [firstPiece, hafter]
    cases hbehind with
    | last => simp [trimStart]
    | @more g next hg =>
      have hcut : '"' :: (inner ++ (q ++ (g ++ '>' :: next))) =
          ('"' :: inner ++ q) ++ (g ++ '>' :: next) := by simp
      rw [trimStart_append hg, trimStart_cons (c := '>') (by decide), hcut]
      simp only [take_length_sub]
  · -- a bare name: neither it nor its qualifier holds a `>`, so the first one ends the piece
    have hquote : ∀ t, s.key.toList ++ (q ++ rest) ≠ '"' :: t := by
      intro t heq
      obtain ⟨c, u, hcu⟩ := List.exists_cons_of_ne_nil hne
      rw [hcu, List.cons_append] at heq
      simp [Segment.isLiteral, hcu, (List.cons.inj heq).1] at hbare
    have hgt : '>' ∉ s.key.toList ++ q := by
      have hkey : '>' ∉ s.key.toList := hs.bare hbare
      simp [hkey, hq.forall_ne_gt]
    rw [firstPiece.eq_def]
    split
    · next inner heq => exact absurd heq (hquote inner)
    · cases hbehind with
      | last =>
        rw [List.append_nil, dropWhile_ne_of_notMem hgt]
        exact ⟨_, rfl, by simpa using hread [] blanks_nil⟩
      | @more g next hg =>
        have hgap : '>' ∉ s.key.toList ++ q ++ g := by
          have hblank : '>' ∉ g := fun hmem => absurd (hg _ hmem) (by decide)
          simpa [hblank] using hgt
        have hcut : s.key.toList ++ (q ++ (g ++ '>' :: next)) =
            (s.key.toList ++ q ++ g) ++ '>' :: next := by simp
        rw [hcut, dropWhile_ne_append hgap, takeWhile_ne_append hgap]
        exact ⟨_, rfl, hread g hg⟩

theorem pieces_of_last {text piece : List Char} (hne : trimStart text ≠ [])
    (h : firstPiece (trimStart text) = .ok (piece, none)) : pieces text = .ok [piece] := by
  rw [pieces]
  simp only [List.isEmpty_iff, hne, if_false]
  split
  · next heq => simp [h] at heq
  · next heq => simp [h] at heq; simp [heq]
  · next heq => simp [h] at heq

theorem pieces_of_more {text piece next : List Char} {raws : List (List Char)}
    (hne : trimStart text ≠ []) (h : firstPiece (trimStart text) = .ok (piece, some next))
    (hnext : pieces next = .ok raws) : pieces text = .ok (piece :: raws) := by
  rw [pieces]
  simp only [List.isEmpty_iff, hne, if_false]
  split
  · next heq => simp [h] at heq
  · next heq => simp [h] at heq
  · next heq =>
    simp only [h, Except.ok.injEq, Prod.mk.injEq, Option.some.injEq] at heq
    obtain ⟨rfl, rfl⟩ := heq
    rw [hnext]
    rfl

/-- The pieces of a text are read one by one, each on its own. -/
theorem mapM_readSegment_cons_iff {piece : List Char} {raws : List (List Char)}
    {ss : List Segment} :
    (piece :: raws).mapM readSegment = .ok ss ↔
      ∃ t ts, readSegment piece = .ok t ∧ raws.mapM readSegment = .ok ts ∧ ss = t :: ts := by
  rw [List.mapM_cons, bind_eq_ok_iff]
  constructor
  · rintro ⟨t, ht, h⟩
    obtain ⟨ts, hts, h⟩ := bind_eq_ok_iff.1 h
    exact ⟨t, ts, ht, hts, (Except.ok.inj h).symm⟩
  · rintro ⟨t, ts, ht, hts, rfl⟩
    exact ⟨t, ht, bind_eq_ok_iff.2 ⟨ts, hts, rfl⟩⟩

/-- Every layout of legible segments is cut into pieces that are read back as these segments. -/
theorem pieces_layout {ss : List Segment} {rest : List Char} (h : Continues ss rest) {s : Segment}
    {g q : List Char} (hg : Blanks g) (hq : Spells s.order q) (hvalid : ∀ t ∈ s :: ss, t.Valid)
    (hlegible : legible (s :: ss) = true) :
    ∃ raws, pieces (g ++ (s.key.toList ++ (q ++ rest))) = .ok raws ∧
      raws.mapM readSegment = .ok (s :: ss) := by
  induction h generalizing s g q with
  | nil =>
    have hs : s.Valid := hvalid s (by simp)
    obtain ⟨piece, hpiece, hread⟩ := firstPiece_layout hs hq .nil (by simp) hlegible .last
    refine ⟨[piece], ?_, mapM_readSegment_cons_iff.2 ⟨s, [], hread, rfl, rfl⟩⟩
    apply pieces_of_last
    · rw [hs.trimStart_key hg]
      simp [hs.key_ne_nil]
    · rw [hs.trimStart_key hg, hpiece]
  | cons hg₁ hg₂ hq' hrest ih =>
    -- the gap in front of the segment is trimmed away, and so the piece starts with its key
    have hs : s.Valid := hvalid s (by simp)
    have hvalid' := fun t ht => hvalid t (List.mem_cons_of_mem s ht)
    obtain ⟨raws, hraws, hmap⟩ := ih hg₂ hq' hvalid' (Bool.and_eq_true_iff.1 hlegible).2
    obtain ⟨piece, hpiece, hread⟩ :=
      firstPiece_layout hs hq (.cons hg₁ hg₂ hq' hrest) hvalid' hlegible (.more hg₁)
    refine ⟨piece :: raws, ?_, mapM_readSegment_cons_iff.2 ⟨s, _, hread, hmap, rfl⟩⟩
    apply pieces_of_more _ _ hraws
    · rw [hs.trimStart_key hg]
      simp [hs.key_ne_nil]
    · rw [hs.trimStart_key hg, hpiece]

/-! ### Every text that is read is a layout -/

/-- A text is cut at the end of its first piece, and what is left is cut in the same way. -/
theorem pieces_eq_ok {text : List Char} {raws : List (List Char)} (h : pieces text = .ok raws) :
    trimStart text ≠ [] ∧ ∃ piece next, firstPiece (trimStart text) = .ok (piece, next) ∧
      (next = none ∧ raws = [piece] ∨
        ∃ rest others, next = some rest ∧ pieces rest = .ok others ∧ raws = piece :: others) := by
  rw [pieces] at h
  simp only [List.isEmpty_iff] at h
  split at h
  · simp at h
  · next hne =>
    refine ⟨hne, ?_⟩
    split at h
    · simp at h
    · next piece hpiece =>
      exact ⟨piece, none, hpiece, .inl ⟨rfl, (Except.ok.inj h).symm⟩⟩
    · next piece rest hpiece =>
      obtain ⟨others, hothers, h⟩ := bind_eq_ok_iff.1 h
      exact ⟨piece, some rest, hpiece,
        .inr ⟨rest, others, rfl, hothers, (Except.ok.inj h).symm⟩⟩

/-- A quoted token is cut off with its brackets, and does not end in a blank. -/
theorem firstPiece_quote_eq_ok {inner piece : List Char} {next : Option (List Char)}
    (hcs : EndsSolid ('"' :: inner)) (h : firstPiece ('"' :: inner) = .ok (piece, next)) :
    ∃ rest, '"' :: inner = piece ++ rest ∧ Behind next rest ∧
      afterLiteral? inner = some rest ∧ EndsSolid piece := by
  simp only [firstPiece] at h
  split at h
  · simp at h
  · next rest hafter =>
    -- the piece goes up to the last quote or bracket, and `rest` is what follows
    obtain ⟨hends, a, ha, hlast⟩ := afterLiteral?_eq_some hafter
    have hsolid : EndsSolid ('"' :: a) := endsSolid_cons_of_getLast? '"' hlast
    have hcut : '"' :: inner = ('"' :: a) ++ rest := by rw [ha]; rfl
    split at h
    · -- behind the token stand blanks and a `>`, which are not part of the piece
      next next ht =>
      obtain ⟨rfl, rfl⟩ := Prod.mk.inj (Except.ok.inj h)
      obtain ⟨g, hg, hrest⟩ := exists_blanks_append_trimStart rest
      rw [ht] at hrest
      rw [hcut, take_length_sub]
      exact ⟨rest, rfl, hrest ▸ .more hg, hafter, hsolid⟩
    · next hgt =>
      obtain ⟨rfl, rfl⟩ := Prod.mk.inj (Except.ok.inj h)
      -- nothing but blanks is left, and the text does not end in one
      have hblank : Blanks rest := by
        rw [← trimStart_eq_nil_iff]
        cases ht : trimStart rest with
        | nil => rfl
        | cons c t =>
          rw [endsHere_of_cons ht] at hends
          exact absurd (by rw [ht, eq_of_beq hends]) (hgt t)
      rw [hcut] at hcs ⊢
      obtain rfl : rest = [] := hcs.of_append.eq_nil hblank
      rw [List.append_nil]
      exact ⟨[], by simp, .last, hafter, hsolid⟩

/-- A bare name is cut off at the first `>`, with the blanks in front of it. -/
theorem firstPiece_bare_eq_ok {cs piece : List Char} {next : Option (List Char)}
    (hhead : cs.head? ≠ some '"') (h : firstPiece cs = .ok (piece, next)) :
    ∃ rest, cs = piece ++ rest ∧ Behind next rest ∧ '>' ∉ piece := by
  unfold firstPiece at h
  split at h
  · simp at hhead
  · by_cases hgt : '>' ∈ cs
    · obtain ⟨a, b, rfl, ha⟩ := List.eq_append_cons_of_mem hgt
      rw [dropWhile_ne_append ha, takeWhile_ne_append ha] at h
      obtain ⟨rfl, rfl⟩ := Prod.mk.inj (Except.ok.inj h)
      exact ⟨'>' :: b, rfl, .more blanks_nil, ha⟩
    · rw [dropWhile_ne_of_notMem hgt] at h
      obtain ⟨rfl, rfl⟩ := Prod.mk.inj (Except.ok.inj h)
      exact ⟨[], by simp, .last, hgt⟩

/-- How a text is cut at the end of its first raw segment. -/
theorem firstPiece_eq_ok {cs piece : List Char} {next : Option (List Char)} (hcs : EndsSolid cs)
    (h : firstPiece cs = .ok (piece, next)) :
    ∃ rest, cs = piece ++ rest ∧ Behind next rest ∧
      ((∃ inner, cs = '"' :: inner ∧ afterLiteral? inner = some rest ∧ EndsSolid piece) ∨
        cs.head? ≠ some '"' ∧ '>' ∉ piece) := by
  by_cases hhead : cs.head? = some '"'
  · obtain ⟨inner, rfl⟩ := List.head?_eq_some_iff.1 hhead
    obtain ⟨rest, hcut, hbehind, hafter, hsolid⟩ := firstPiece_quote_eq_ok hcs h
    exact ⟨rest, hcut, hbehind, .inl ⟨inner, rfl, hafter, hsolid⟩⟩
  · obtain ⟨rest, hcut, hbehind, hgt⟩ := firstPiece_bare_eq_ok hhead h
    exact ⟨rest, hcut, hbehind, .inr ⟨hhead, hgt⟩⟩

/-- A raw segment that is read stands in the text as its key and a spelling of its order, with
blanks behind it. -/
theorem firstPiece_readSegment {cs piece : List Char} {next : Option (List Char)} {s : Segment}
    (hcs : EndsSolid cs) (hstart : trimStart cs = cs) (h : firstPiece cs = .ok (piece, next))
    (hread : readSegment piece = .ok s) :
    s.Valid ∧ ∃ q rest, cs = s.key.toList ++ (q ++ rest) ∧ Spells s.order q ∧ Behind next rest ∧
      (s.isLiteral = true → afterLiteral? (s.key.toList.tail ++ (q ++ rest)) = some rest) := by
  obtain ⟨rest, hcut, hbehind, hkind⟩ := firstPiece_eq_ok hcs h
  obtain ⟨hkey, q, hq, htrim, hplain⟩ := readSegment_eq_ok_iff.1 hread
  have hkeyne : s.key.toList ≠ [] := by intro hnil; rw [hnil] at hkey; exact hkey
  obtain ⟨c, key, hck⟩ := List.exists_cons_of_ne_nil hkeyne
  -- The text starts with the key.
  have hpiece : ∃ g, Blanks g ∧ piece = s.key.toList ++ (q ++ g) := by
    have hpstart : trimStart piece = piece := by
      cases piece with
      | nil => rfl
      | cons d t =>
        rw [hcut, List.cons_append] at hstart
        exact trimStart_cons (isBlank_of_trimStart_eq_cons hstart) t
    rw [trim, hpstart] at htrim
    obtain ⟨g, hg, hg'⟩ := exists_trimEnd_append_blanks piece
    exact ⟨g, hg, by rw [hg', htrim]; simp⟩
  obtain ⟨g, hg, rfl⟩ := hpiece
  have hliteral : s.isLiteral = true ↔ cs.head? = some '"' := by
    simp [Segment.isLiteral, hcut, hck]
  -- blanks that the piece ends in belong to the gap behind it
  have hbehind' : Behind next (g ++ rest) := by
    cases hbehind with
    | last =>
      rw [hcut, List.append_nil] at hcs
      obtain rfl : g = [] := hcs.of_append.of_append.eq_nil hg
      exact .last
    | more hg' =>
      rw [← List.append_assoc]
      exact .more (hg.append hg')
  refine ⟨⟨hkey, ?_, hplain, hq.inRange⟩, q, g ++ rest, by rw [hcut]; simp, hq, hbehind', ?_⟩
  · intro hbare hmem
    -- a bare name was cut at the first `>`, so it holds none
    rcases hkind with ⟨inner, hinner, -⟩ | ⟨-, hgt⟩
    · rw [hliteral.2 (by rw [hinner]; rfl)] at hbare
      simp at hbare
    · exact hgt (by simp [hmem])
  · intro hlit
    rcases hkind with ⟨inner, hinner, hafter, hsolid⟩ | ⟨hhead, -⟩
    · -- a token ends in a quote or a bracket, so the piece has no blanks to give away
      obtain rfl : g = [] := hsolid.of_append.of_append.eq_nil hg
      rw [hcut, hck] at hinner
      rw [hck]
      simpa [(List.cons.inj hinner).2.symm] using hafter
    · exact absurd (hliteral.1 hlit) hhead

/-- A segment in front of a layout is read back if its token is read up to its end there. -/
theorem Readable.cons {s : Segment} {ss : List Segment} {q rest : List Char} (hs : s.Valid)
    (hq : Spells s.order q) (hrest : Continues ss rest) (hvalid : ∀ t ∈ ss, t.Valid)
    (hlegible : Scope.legible ss = true)
    (hafter : s.isLiteral = true → afterLiteral? (s.key.toList.tail ++ (q ++ rest)) = some rest) :
    Readable (s :: ss) := by
  refine ⟨by simp, List.forall_mem_cons.2 ⟨hs, hvalid⟩, Bool.and_eq_true_iff.2 ⟨?_, hlegible⟩⟩
  cases hliteral : s.isLiteral with
  | false => rfl
  | true =>
    have hproper := hrest.endsProper hvalid hs hq
    obtain ⟨-, inner, heq, hlast⟩ | ⟨hbare, -⟩ := hs.token_or_name
    · have hafter := hafter hliteral
      rw [heq, List.tail_cons] at hafter ⊢
      rw [heq] at hproper
      exact (afterLiteral?_eq_rest_iff hq hrest hvalid hlast
        (EndsProper.of_append (a := ['"']) hproper)).1 hafter
    · simp [hliteral] at hbare

/-- What is read from a text is laid out in it and can be read. -/
theorem written_of_pieces {text : List Char} {raws : List (List Char)} {ss : List Segment}
    (hsolid : EndsSolid text) (hpieces : pieces text = .ok raws)
    (hmap : raws.mapM readSegment = .ok ss) : Written ss text ∧ Readable ss := by
  obtain ⟨hne, piece, next, hpiece, hraws⟩ := pieces_eq_ok hpieces
  obtain ⟨g, hg, htext⟩ := exists_blanks_append_trimStart text
  have hstart : trimStart (trimStart text) = trimStart text := by
    obtain ⟨c, t, ht⟩ := List.exists_cons_of_ne_nil hne
    rw [ht]
    exact trimStart_cons (isBlank_of_trimStart_eq_cons ht) t
  have hcs : EndsSolid (trimStart text) := by
    rw [htext] at hsolid
    exact hsolid.of_append
  rcases hraws with ⟨rfl, rfl⟩ | ⟨tail, others, rfl, hothers, rfl⟩
  · -- the text has one segment
    obtain ⟨s, ss', hread, hnil, rfl⟩ := mapM_readSegment_cons_iff.1 hmap
    obtain rfl : [] = ss' := Except.ok.inj hnil
    obtain ⟨hs, q, rest, hcut, hq, hbehind, hafter⟩ :=
      firstPiece_readSegment hcs hstart hpiece hread
    cases hbehind
    rw [htext, hcut]
    exact ⟨.intro hg hq .nil, .cons hs hq .nil (by simp) rfl hafter⟩
  · obtain ⟨s, ss', hread, hmap', rfl⟩ := mapM_readSegment_cons_iff.1 hmap
    obtain ⟨hs, q, rest, hcut, hq, hbehind, hafter⟩ :=
      firstPiece_readSegment hcs hstart hpiece hread
    -- What stands behind the `>` is shorter than the text and does not end in a blank either, so it
    -- is a layout by induction.
    cases hbehind with
    | @more g₁ _ hg₁ =>
      have htail : EndsSolid tail := by
        rw [hcut] at hcs
        exact EndsSolid.of_append (a := ['>']) hcs.of_append.of_append.of_append
      have hlt := length_firstPiece_lt hpiece
      have hle := length_trimStart_le text
      obtain ⟨hwritten, hreadable⟩ := written_of_pieces htail hothers hmap'
      cases hwritten with
      | intro hg₂ hq₂ hrest₂ =>
        rw [htext, hcut]
        have hrest := Continues.cons hg₁ hg₂ hq₂ hrest₂
        exact ⟨.intro hg hq hrest,
          .cons hs hq hrest hreadable.valid hreadable.legible hafter⟩
termination_by text.length

/-! ### Reading and writing -/

/-- Reading a text gives a pattern exactly if its segments are laid out in the text and can be
read. -/
theorem parse_eq_ok_iff {text : String} {p : Pattern} :
    Pattern.parse text = .ok p ↔
      Readable p.segments ∧ Written p.segments (trimEnd text.toList) := by
  constructor
  · intro h
    obtain ⟨raws, hpieces, h⟩ := bind_eq_ok_iff.1 h
    obtain ⟨ss, hmap, h⟩ := bind_eq_ok_iff.1 h
    obtain rfl := Except.ok.inj h
    exact (written_of_pieces (endsSolid_trimEnd _) hpieces hmap).symm
  · rintro ⟨hreadable, hwritten⟩
    obtain ⟨ss⟩ := p
    generalize hcs : trimEnd text.toList = cs at hwritten
    cases hwritten with
    | intro hg hq hrest =>
      obtain ⟨raws, hraws, hmap⟩ := pieces_layout hrest hg hq hreadable.valid hreadable.legible
      rw [← hcs] at hraws
      exact bind_eq_ok_iff.2 ⟨raws, hraws, bind_eq_ok_iff.2 ⟨_, hmap, rfl⟩⟩

-- The `[` in the token `a"[` reaches to the first `]` behind it. If a segment ends there, the
-- reader takes the token to end in front of the `[`.
example : legible [⟨"\"a\"[\"", none⟩, ⟨"b", none⟩] = true := by decide

example : legible [⟨"\"a\"[\"", none⟩, ⟨"b", some (.forward 0)⟩] = false := by decide

end SyntaxHighlight.Scope
