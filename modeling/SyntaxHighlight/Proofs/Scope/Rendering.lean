import Mathlib.Data.List.Induction
import SyntaxHighlight.Proofs.Scope.Canonical

/-!
# The grammar of scope patterns

What a pattern may be written as, said without its reader: the texts of its segments, joined by `>`,
with blanks around each of them. The text of a segment is its key, followed by its qualifier if it
has one; the number of a qualifier is written in decimal and may have zeros and a `+` in front.

    parse_eq_ok_iff_renders : Pattern.parse text = .ok p ↔
      Readable p.segments ∧ Renders p.segments text.toList

`Readable` is about the ends of tokens and looks at all segments at once. Segments that are
well-formed each by itself (`Segment.WellFormed`) are readable in every company.
-/

namespace SyntaxHighlight.Scope

open Text

/-! ### Numbers -/

/-- The spellings of a number: its digits, with any zeros in front of them and a `+` in front of
all or not. -/
inductive Numeral (n : Nat) : List Char → Prop
  | plain (zeros : Nat) : Numeral n (List.replicate zeros '0' ++ n.repr.toList)
  | signed (zeros : Nat) : Numeral n ('+' :: (List.replicate zeros '0' ++ n.repr.toList))

/-- A digit is written as it was read. -/
theorem toDigits_of_isDigit {c : Char} (h : c.isDigit = true) :
    c.toNat - '0'.toNat < 10 ∧ Nat.toDigits 10 (c.toNat - '0'.toNat) = [c] := by
  obtain ⟨hlow, hhigh⟩ := Char.isDigit_iff_toNat.1 h
  have hzero : '0'.toNat = 48 := rfl
  have hnine : '9'.toNat = 57 := rfl
  have hlt : c.toNat - '0'.toNat < 10 := by omega
  refine ⟨hlt, ?_⟩
  rw [Nat.toDigits_of_lt_base hlt, List.cons.injEq]
  refine ⟨Char.toNat_inj.1 ?_, rfl⟩
  rw [Nat.toNat_digitChar_of_lt_ten hlt]
  omega

/-- Digits are zeros, followed by the digits of their value. -/
theorem exists_zeros_append {ds : List Char} (hne : ds ≠ []) (h : ∀ c ∈ ds, c.isDigit = true) :
    ∃ zeros, ds = List.replicate zeros '0' ++ Nat.toDigits 10 (Nat.ofDigitChars 10 ds 0) := by
  induction ds using List.reverseRecOn with
  | nil => exact absurd rfl hne
  | append_singleton ds d ih =>
    obtain ⟨hlt, hlast⟩ := toDigits_of_isDigit (h d (by simp))
    have hvalue : Nat.ofDigitChars 10 (ds ++ [d]) 0 =
        10 * Nat.ofDigitChars 10 ds 0 + (d.toNat - '0'.toNat) := by
      rw [Nat.ofDigitChars_append, Nat.ofDigitChars_cons, Nat.ofDigitChars_nil]
    rw [hvalue]
    by_cases hds : ds = []
    · rw [hds, Nat.ofDigitChars_nil, Nat.mul_zero, Nat.zero_add, hlast]
      exact ⟨0, rfl⟩
    · obtain ⟨zeros, hzeros⟩ := ih hds fun c hc => h c (by simp [hc])
      -- Once the value is positive the digits grow at their end, before that the zeros do.
      rcases Nat.eq_zero_or_pos (Nat.ofDigitChars 10 ds 0) with hzero | hpos
      · refine ⟨zeros + 1, ?_⟩
        rw [hzero, Nat.mul_zero, Nat.zero_add, hlast, List.replicate_succ']
        rw [hzero, Nat.toDigits_zero] at hzeros
        rw [← hzeros]
      · refine ⟨zeros, ?_⟩
        rw [← Nat.toDigits_append_toDigits (by decide) hpos hlt, hlast, ← List.append_assoc,
          ← hzeros]

/-- Zeros in front of a number and its digits are digits with its value. -/
theorem digits_of_zeros (zeros n : Nat) {ds : List Char}
    (hds : ds = List.replicate zeros '0' ++ n.repr.toList) :
    ds ≠ [] ∧ (∀ c ∈ ds, c.isDigit = true) ∧ Nat.ofDigitChars 10 ds 0 = n := by
  rw [Nat.toList_repr] at hds
  subst hds
  refine ⟨by simp [Nat.toDigits_ne_nil], ?_, ?_⟩
  · intro c hc
    rcases List.mem_append.1 hc with hc | hc
    · rw [List.eq_of_mem_replicate hc]
      rfl
    · exact Nat.isDigit_of_mem_toDigits (by decide) (by decide) hc
  · rw [Nat.ofDigitChars_append, Nat.ofDigitChars_replicate_zero, Nat.mul_zero,
      Nat.ofDigitChars_ten_toDigits]

/-- What is read as a number are its spellings, as long as it is below 2⁶⁴. -/
theorem readNumber_eq_some_iff {cs : List Char} {n : Nat} :
    readNumber cs = some n ↔ n < UInt64.size ∧ Numeral n cs := by
  -- Without the sign, the text is digits with the value of the number.
  have hdigits : ∀ ds : List Char,
      ((if ds.isEmpty || !ds.all (·.isDigit) then none
        else if Nat.ofDigitChars 10 ds 0 < UInt64.size then some (Nat.ofDigitChars 10 ds 0)
        else none) = some n) ↔
      n < UInt64.size ∧ ∃ zeros, ds = List.replicate zeros '0' ++ n.repr.toList := by
    intro ds
    simp only [Option.ite_none_left_eq_some, Option.ite_none_right_eq_some, Bool.or_eq_true,
      Bool.not_eq_true', not_or, Bool.not_eq_false, List.isEmpty_iff, List.all_eq_true,
      Option.some.injEq]
    constructor
    · rintro ⟨⟨hne, hall⟩, hlt, rfl⟩
      obtain ⟨zeros, hzeros⟩ := exists_zeros_append hne hall
      exact ⟨hlt, zeros, by rw [Nat.toList_repr]; exact hzeros⟩
    · rintro ⟨hlt, zeros, hzeros⟩
      obtain ⟨hne, hall, hvalue⟩ := digits_of_zeros zeros n hzeros
      exact ⟨⟨hne, hall⟩, hvalue ▸ hlt, hvalue⟩
  unfold readNumber
  split
  · -- a `+` in front is skipped, and cannot be one of the digits
    next rest =>
    rw [hdigits]
    refine and_congr_right fun _ => ⟨?_, ?_⟩
    · rintro ⟨zeros, rfl⟩
      exact .signed zeros
    · intro hnumeral
      generalize hcs : '+' :: rest = cs at hnumeral
      cases hnumeral with
      | plain zeros =>
        obtain ⟨-, hall, -⟩ := digits_of_zeros zeros n hcs
        exact absurd (hall '+' List.mem_cons_self) (by decide)
      | signed zeros => exact ⟨zeros, (List.cons.inj hcs).2⟩
  · -- no `+` in front: the text is all digits
    next hplus =>
    rw [hdigits]
    refine and_congr_right fun _ => ⟨?_, ?_⟩
    · rintro ⟨zeros, rfl⟩
      exact .plain zeros
    · intro hnumeral
      cases hnumeral with
      | plain zeros => exact ⟨zeros, rfl⟩
      | signed zeros => exact absurd rfl (hplus _)

/-- A spelling starts with a digit or with a `+`. -/
theorem Numeral.ne_minus {n : Nat} {cs : List Char} (h : Numeral n cs) (rest : List Char) :
    cs ≠ '-' :: rest := by
  intro hcs
  cases h with
  | plain zeros =>
    obtain ⟨-, hall, -⟩ := digits_of_zeros zeros n hcs.symm
    exact absurd (hall '-' List.mem_cons_self) (by decide)
  | signed zeros => exact absurd (List.cons.inj hcs).1 (by decide)

/-! ### Qualifiers -/

/-- The texts between the brackets of a qualifier. -/
inductive Order.Renders : Order → List Char → Prop
  | forward {n : Nat} {cs : List Char} : Numeral n cs → Renders (.forward n) cs
  | backward {n : Nat} {cs : List Char} : Numeral n cs → Renders (.backward n) ('-' :: cs)

inductive OrderRenders : Option Order → List Char → Prop
  | none : OrderRenders none []
  | some {o : Order} {body : List Char} :
      o.Renders body → OrderRenders (some o) ('[' :: (body ++ [']']))

theorem readOrder_eq_some_iff {cs : List Char} {o : Order} :
    readOrder cs = some o ↔ o.InRange ∧ o.Renders cs := by
  unfold readOrder
  split
  · -- a `-` in front, and no spelling of a number starts with one: it counts from the end
    next digits =>
    constructor
    · intro h
      split at h
      · cases h
      · next n hpos hn =>
        obtain rfl := Option.some.inj h
        obtain ⟨hlt, hnumeral⟩ := readNumber_eq_some_iff.1 hn
        exact ⟨⟨Nat.pos_of_ne_zero hpos, hlt⟩, .backward hnumeral⟩
      · cases h
    · rintro ⟨hrange, horder⟩
      generalize hcs : '-' :: digits = cs at horder
      cases horder with
      | forward hnumeral => exact absurd hcs.symm (hnumeral.ne_minus digits)
      | @backward n cs hnumeral =>
        obtain rfl := (List.cons.inj hcs).2
        obtain ⟨hpos, hlt⟩ := hrange
        rw [readNumber_eq_some_iff.2 ⟨hlt, hnumeral⟩]
        cases n with
        | zero => omega
        | succ n => rfl
  · -- it counts from the front
    next hminus =>
    rw [Option.map_eq_some_iff]
    constructor
    · rintro ⟨n, hn, rfl⟩
      obtain ⟨hlt, hnumeral⟩ := readNumber_eq_some_iff.1 hn
      exact ⟨hlt, .forward hnumeral⟩
    · rintro ⟨hrange, horder⟩
      cases horder with
      | @forward n _ hnumeral => exact ⟨n, readNumber_eq_some_iff.2 ⟨hrange, hnumeral⟩, rfl⟩
      | backward _ => exact absurd rfl (hminus _)

/-- The spellings of a qualifier that are read are its texts, as long as its number is in range. -/
theorem spells_iff {order : Option Order} {q : List Char} :
    Spells order q ↔ (∀ o, order = some o → o.InRange) ∧ OrderRenders order q := by
  constructor
  · intro h
    refine ⟨h.inRange, ?_⟩
    cases h with
    | plain => exact .none
    | bracketed horder => exact .some (readOrder_eq_some_iff.1 horder).2
  · rintro ⟨hrange, h⟩
    cases h with
    | none => exact .plain
    | some hbody => exact .bracketed (readOrder_eq_some_iff.2 ⟨hrange _ rfl, hbody⟩)

/-! ### Patterns -/

/-- The texts of a pattern: those of its segments joined by `>`, with any blanks around each. -/
inductive Renders : List Segment → List Char → Prop
  | single {s : Segment} {g q g' : List Char} :
      Blanks g → OrderRenders s.order q → Blanks g' →
      Renders [s] (g ++ (s.key.toList ++ (q ++ g')))
  | cons {s : Segment} {ss : List Segment} {g q g' rest : List Char} :
      Blanks g → OrderRenders s.order q → Blanks g' → Renders ss rest →
      Renders (s :: ss) (g ++ (s.key.toList ++ (q ++ (g' ++ '>' :: rest))))

/-- A layout with blanks behind it is a text. -/
theorem Written.renders {ss : List Segment} {body g : List Char} (h : Written ss body)
    (hg : Blanks g) : Renders ss (body ++ g) := by
  cases h with
  | @intro s ss g₀ q rest hg₀ hq hrest =>
    induction hrest generalizing s g₀ q with
    | nil => simpa using Renders.single hg₀ (spells_iff.1 hq).2 hg
    | cons hg₁ hg₂ hq' _ ih =>
      simpa using Renders.cons hg₀ (spells_iff.1 hq).2 hg₁ (ih hg₂ hq')

/-- A text is a layout with blanks behind it. -/
theorem Renders.exists_written {ss : List Segment} {cs : List Char} (h : Renders ss cs)
    (hvalid : ∀ s ∈ ss, s.Valid) : ∃ body g, Written ss body ∧ Blanks g ∧ cs = body ++ g := by
  induction h with
  | @single s g q g' hg hq hg' =>
    have hspells : Spells s.order q := spells_iff.2 ⟨(hvalid s (by simp)).order, hq⟩
    exact ⟨_, g', .intro hg hspells .nil, hg', by simp⟩
  | @cons s ss g q g' rest hg hq hg' _ ih =>
    have hspells : Spells s.order q := spells_iff.2 ⟨(hvalid s (by simp)).order, hq⟩
    obtain ⟨body, behind, hwritten, hbehind, rfl⟩ := ih fun t ht => hvalid t (by simp [ht])
    cases hwritten with
    | intro hg₂ hq₂ hrest =>
      exact ⟨_, behind, .intro hg hspells (.cons hg' hg₂ hq₂ hrest), hbehind, by simp⟩

/-- A layout of valid segments does not end in a blank. -/
theorem Written.endsSolid {ss : List Segment} {body : List Char} (h : Written ss body)
    (hvalid : ∀ s ∈ ss, s.Valid) : EndsSolid body := by
  cases h with
  | @intro s ss g q rest hg hq hrest =>
    have hproper := hrest.endsProper (fun t ht => hvalid t (by simp [ht])) (hvalid s (by simp)) hq
    have hne : s.key.toList ++ (q ++ rest) ≠ [] := by simp [(hvalid s (by simp)).key_ne_nil]
    exact (hproper.append hne g).endsSolid

/-- Reading a text gives a pattern exactly if it is a text of its segments and they can be read. -/
theorem parse_eq_ok_iff_renders {text : String} {p : Pattern} :
    Pattern.parse text = .ok p ↔ Readable p.segments ∧ Renders p.segments text.toList := by
  rw [parse_eq_ok_iff]
  refine and_congr_right fun hreadable => ⟨?_, ?_⟩
  · intro hwritten
    obtain ⟨g, hg, htext⟩ := exists_trimEnd_append_blanks text.toList
    rw [htext]
    exact hwritten.renders hg
  · intro hrenders
    obtain ⟨body, g, hwritten, hg, htext⟩ := hrenders.exists_written hreadable.valid
    -- a layout of valid segments ends in no blank, so the blanks behind it are all that is trimmed
    rw [htext, trimEnd_append hg, trimEnd_eq_self (hwritten.endsSolid hreadable.valid)]
    exact hwritten

/-! ### Segments that can be read in every company -/

/-- The segments whose end can be told whatever stands behind them. -/
inductive Segment.WellFormed : Segment → Prop
  | bare {key : String} {order : Option Order} (hne : key.toList ≠ [])
      (hchars : ∀ c ∈ key.toList, isBlank c = false ∧ c ≠ '"' ∧ c ≠ '>')
      (hlast : order = none → key.toList.getLast? ≠ some ']')
      (horder : ∀ o, order = some o → o.InRange) : WellFormed ⟨key, order⟩
  | quoted {token : String} {order : Option Order} (htoken : IsToken token)
      (horder : ∀ o, order = some o → o.InRange) : WellFormed ⟨"\"" ++ token ++ "\"", order⟩

/-- A well-formed segment can be read on its own. -/
theorem Segment.WellFormed.valid {s : Segment} (h : s.WellFormed) : s.Valid := by
  cases h with
  | bare hne hchars hlast horder =>
    exact ⟨isKey_of_chars hne hchars, fun _ hmem => (hchars '>' hmem).2.2 rfl, hlast, horder⟩
  | quoted htoken horder => exact htoken.valid (by simp) horder

theorem Segment.WellFormed.exists_token {s : Segment} (h : s.WellFormed)
    (hliteral : s.isLiteral = true) :
    ∃ kind, IsToken kind ∧ s.key.toList = '"' :: (kind.toList ++ ['"']) := by
  cases h with
  | bare _ hchars _ _ =>
    rw [Segment.isLiteral, beq_iff_eq] at hliteral
    exact absurd rfl (hchars '"' (List.mem_of_mem_head? hliteral)).2.1
  | @quoted token _ htoken _ => exact ⟨token, htoken, by simp⟩

/-- Well-formed segments can be read in any order and number. -/
theorem readable_of_wellFormed {ss : List Segment} (hne : ss ≠ [])
    (h : ∀ s ∈ ss, s.WellFormed) : Readable ss :=
  ⟨hne, fun s hs => (h s hs).valid, legible_of_tokens fun s hs => (h s hs).exists_token⟩

theorem Renders.ne_nil {ss : List Segment} {cs : List Char} (h : Renders ss cs) : ss ≠ [] := by
  cases h <;> simp

/-- **The reader accepts its grammar and loses nothing.** Every text of well-formed segments is read
as exactly these segments. And if a text is read as a pattern, the pattern has a segment and the
text is one of its texts; each bare key is a name without blanks, quotes and `>` that ends in a `]`
only in front of a qualifier, each other key is a token in quotes, and each number is in range. -/
theorem Pattern.parse_renders :
    (∀ (ss : List Segment) (text : String), (∀ s ∈ ss, s.WellFormed) →
      Renders ss text.toList → Pattern.parse text = .ok ⟨ss⟩) ∧
    (∀ (text : String) (p : Pattern), Pattern.parse text = .ok p →
      p.segments ≠ [] ∧ Renders p.segments text.toList ∧ ∀ s ∈ p.segments,
        (s.isLiteral = false →
          s.key.toList ≠ [] ∧ ∀ c ∈ s.key.toList, isBlank c = false ∧ c ≠ '"' ∧ c ≠ '>') ∧
        (s.isLiteral = true → ∃ token, token ≠ [] ∧ s.key.toList = '"' :: (token ++ ['"'])) ∧
        (s.order = none → s.key.toList.getLast? ≠ some ']') ∧
        (∀ o, s.order = some o → o.InRange)) := by
  constructor
  · intro ss text hwellFormed hrenders
    exact parse_eq_ok_iff_renders.2
      ⟨readable_of_wellFormed hrenders.ne_nil hwellFormed, hrenders⟩
  · intro text p h
    obtain ⟨hreadable, hrenders⟩ := parse_eq_ok_iff_renders.1 h
    refine ⟨hreadable.ne_nil, hrenders, fun s hs => ?_⟩
    have hvalid := hreadable.valid s hs
    exact ⟨hvalid.bare_key, hvalid.literal_key, hvalid.plain, hvalid.order⟩

/-- A `>` in a token, and a number with a sign and a zero in front. -/
theorem Pattern.parse_renders_signed :
    Renders [⟨"a", none⟩, ⟨"\">\"", some (.backward 7)⟩] " a >\">\"[-+07]\n".toList ∧
    Pattern.parse " a >\">\"[-+07]\n" = .ok ⟨[⟨"a", none⟩, ⟨"\">\"", some (.backward 7)⟩]⟩ := by
  have hspace : Blanks [' '] := by intro c hc; obtain rfl := List.mem_singleton.1 hc; decide
  have hline : Blanks ['\n'] := by intro c hc; obtain rfl := List.mem_singleton.1 hc; decide
  have hrenders : Renders [⟨"a", none⟩, ⟨"\">\"", some (.backward 7)⟩]
      " a >\">\"[-+07]\n".toList :=
    have hlast := Renders.single (s := ⟨"\">\"", some (.backward 7)⟩) blanks_nil
      (.some (.backward (.signed 1))) hline
    Renders.cons (s := ⟨"a", none⟩) hspace .none hspace hlast
  have hbare : Segment.WellFormed ⟨"a", none⟩ := by
    refine .bare (by decide) ?_ (by decide) (by simp)
    intro c hc
    obtain rfl : c = 'a' := List.mem_singleton.1 hc
    decide
  have hquoted : Segment.WellFormed ⟨"\">\"", some (.backward 7)⟩ := by
    have htoken : IsToken ">" := by
      refine ⟨by decide, ?_⟩
      intro a b hab
      have hmem : '"' ∈ ['>'] := by rw [show ['>'] = _ from hab]; simp
      simp at hmem
    refine .quoted htoken ?_
    rintro o ⟨⟩
    exact ⟨by decide, by decide⟩
  refine ⟨hrenders, Pattern.parse_renders.1 _ _ ?_ hrenders⟩
  simp only [List.mem_cons, List.not_mem_nil, or_false]
  rintro s (rfl | rfl)
  · exact hbare
  · exact hquoted

end SyntaxHighlight.Scope
