import SyntaxHighlight.Prelude
import SyntaxHighlight.Scope.Reader

/-!
# One segment of a scope pattern

What `readSegment` accepts: a key, followed by one of the spellings of its qualifier,

    readSegment_eq_ok_iff : readSegment raw = .ok s ↔
      trim raw is the key of s, followed by a spelling of its order

The spellings of a qualifier differ in a sign and in leading zeros only, none of them holds a
bracket inside, and the written form `Order.text` is among them as long as its number is below 2⁶⁴.
-/

namespace SyntaxHighlight.Scope

open Text

/-! ### Qualifiers -/

def Order.InRange : Order → Prop
  | .forward n => n < UInt64.size
  | .backward n => 1 ≤ n ∧ n < UInt64.size

/-- The characters of the text between the brackets of a qualifier. -/
def isOrderChar (c : Char) : Bool := c.isDigit || c == '+' || c == '-'

/-- A number that is read fits 64 bits, and is written with digits and a sign only. -/
theorem readNumber_eq_some {cs : List Char} {n : Nat} (h : readNumber cs = some n) :
    n < UInt64.size ∧ ∀ c ∈ cs, isOrderChar c = true := by
  simp only [readNumber, Option.ite_none_left_eq_some, Option.ite_none_right_eq_some,
    Bool.or_eq_true, Bool.not_eq_true', not_or, Bool.not_eq_false, Option.some.injEq] at h
  obtain ⟨⟨_, hall⟩, hn, rfl⟩ := h
  refine ⟨hn, fun c hc => ?_⟩
  split at hall
  · rcases List.mem_cons.1 hc with rfl | hc
    · rfl
    · simp [isOrderChar, List.all_eq_true.1 hall c hc]
  · simp [isOrderChar, List.all_eq_true.1 hall c hc]

/-- The decimal digits of a number below 2⁶⁴ are read. -/
theorem readNumber_repr (n : Nat) :
    readNumber n.repr.toList = if n < UInt64.size then some n else none := by
  have hdigits : ∀ c ∈ Nat.toDigits 10 n, c.isDigit = true := fun c hc =>
    Nat.isDigit_of_mem_toDigits (by decide) (by decide) hc
  obtain ⟨d, ds, hds⟩ := List.exists_cons_of_ne_nil (Nat.toDigits_ne_nil (n := n) (b := 10))
  -- a leading `+` would be skipped; digits do not start with one
  have hd : d ≠ '+' := by
    rintro rfl
    exact absurd (hdigits '+' (by rw [hds]; simp)) (by decide)
  have hall : (Nat.toDigits 10 n).all (·.isDigit) = true := List.all_eq_true.2 hdigits
  have hvalue : Nat.ofDigitChars 10 (Nat.toDigits 10 n) 0 = n := Nat.ofDigitChars_ten_toDigits
  rw [Nat.toList_repr]
  rw [hds] at hall hvalue ⊢
  unfold readNumber
  split
  · next rest heq => exact absurd (List.cons.inj heq).1 hd
  · simp [hall, hvalue]

/-- The qualifier that is read is in range, and no bracket stands in its text. -/
theorem readOrder_eq_some {cs : List Char} {o : Order} (h : readOrder cs = some o) :
    o.InRange ∧ ∀ c ∈ cs, isOrderChar c = true := by
  unfold readOrder at h
  split at h
  · next digits =>
    -- after a `-` the number counts from the end, and zero is refused
    cases hn : readNumber digits with
    | none => simp [hn] at h
    | some n =>
      obtain ⟨hlt, hchars⟩ := readNumber_eq_some hn
      simp only [hn] at h
      split at h
      · simp at h
      · next m hm heq =>
        obtain rfl := Option.some.inj heq
        obtain rfl := Option.some.inj h
        have hpos : n ≠ 0 := hm
        refine ⟨⟨by omega, hlt⟩, ?_⟩
        rintro c (_ | hc)
        · rfl
        · exact hchars c (by assumption)
      · simp at h
  · obtain ⟨n, hn, rfl⟩ := Option.map_eq_some_iff.1 h
    exact readNumber_eq_some hn

/-- The spellings of a qualifier, or of none. -/
inductive Spells : Option Order → List Char → Prop
  | plain : Spells none []
  | bracketed {o : Order} {body : List Char} :
      readOrder body = some o → Spells (some o) ('[' :: (body ++ [']']))

def orderText : Option Order → List Char
  | none => []
  | some o => o.text.toList

theorem Segment.toList_text (s : Segment) : s.text.toList = s.key.toList ++ orderText s.order := by
  unfold Segment.text
  cases s.order with
  | none => simp [orderText]
  | some o => simp [orderText]

theorem isOrderChar_ne_bracket {body : List Char} (h : ∀ c ∈ body, isOrderChar c = true) :
    '[' ∉ body ∧ ']' ∉ body :=
  ⟨fun hmem => absurd (h _ hmem) (by decide), fun hmem => absurd (h _ hmem) (by decide)⟩

def Order.body : Order → List Char
  | .forward n => n.repr.toList
  | .backward n => '-' :: n.repr.toList

theorem Order.toList_text (o : Order) : o.text.toList = '[' :: (o.body ++ [']']) := by
  cases o <;> simp [Order.text, Order.body]

theorem Order.isOrderChar_body (o : Order) : ∀ c ∈ o.body, isOrderChar c = true := by
  have hrepr : ∀ n : Nat, ∀ c ∈ n.repr.toList, isOrderChar c = true := by
    intro n c hc
    rw [Nat.toList_repr] at hc
    simp [isOrderChar, Nat.isDigit_of_mem_toDigits (by decide) (by decide) hc]
  cases o with
  | forward n => exact hrepr n
  | backward n => exact List.forall_mem_cons.2 ⟨rfl, hrepr n⟩

/-- Decimal digits do not start with the sign of a backward qualifier. -/
theorem repr_ne_minus (n : Nat) (rest : List Char) : n.repr.toList ≠ '-' :: rest := by
  intro heq
  have hmem : '-' ∈ Nat.toDigits 10 n := by rw [← Nat.toList_repr, heq]; simp
  exact absurd (Nat.isDigit_of_mem_toDigits (by decide) (by decide) hmem) (by decide)

/-- Different qualifiers are written differently. -/
theorem Order.eq_of_body_eq {o o' : Order} (h : o.body = o'.body) : o = o' := by
  have hnumber : ∀ n k : Nat, n.repr.toList = k.repr.toList → n = k := by
    intro n k heq
    rw [Nat.toList_repr, Nat.toList_repr] at heq
    rw [← Nat.ofDigitChars_ten_toDigits (n := n), heq, Nat.ofDigitChars_ten_toDigits]
  cases o with
  | forward n =>
    cases o' with
    | forward k => rw [hnumber n k h]
    | backward k => exact absurd h (repr_ne_minus n _)
  | backward n =>
    cases o' with
    | forward k => exact absurd h.symm (repr_ne_minus k _)
    | backward k => rw [hnumber n k (List.cons.inj h).2]

/-- A qualifier is read back from its canonical text exactly if its number can be read. -/
theorem Order.readOrder_body_iff {o o' : Order} :
    readOrder o.body = some o' ↔ o.InRange ∧ o = o' := by
  cases o with
  | forward n =>
    unfold readOrder Order.body
    split
    · next t heq => exact absurd heq (repr_ne_minus n t)
    · rw [readNumber_repr]
      by_cases hn : n < UInt64.size <;> simp [Order.InRange, hn]
  | backward n =>
    simp only [readOrder, Order.body, readNumber_repr]
    by_cases hn : n < UInt64.size
    · -- `-0` is neither in range nor read
      cases n with
      | zero => simp [Order.InRange]
      | succ m => simp [Order.InRange, hn]
    · simp [Order.InRange, hn]

/-- The canonical form of a qualifier is one of its spellings. -/
theorem spells_orderText {order : Option Order} (h : ∀ o, order = some o → o.InRange) :
    Spells order (orderText order) := by
  cases order with
  | none => exact .plain
  | some o =>
    rw [orderText, o.toList_text]
    exact .bracketed (Order.readOrder_body_iff.2 ⟨h o rfl, rfl⟩)

/-! ### Segments -/

/-- A segment is cut at its last `[`, so the key before it may hold brackets of its own. -/
theorem splitLastBracket_append {body : List Char} (h : '[' ∉ body) (key : List Char) :
    splitLastBracket (key ++ '[' :: body) = some (key, body) := by
  have hrev : (key ++ '[' :: body).reverse = body.reverse ++ '[' :: key.reverse := by simp
  have hbody : '[' ∉ body.reverse := by simpa using h
  simp only [splitLastBracket, hrev, dropWhile_ne_append hbody, takeWhile_ne_append hbody,
    List.reverse_reverse]

/-- A qualifier at the end of a text can be told from the text before it. -/
theorem Order.eq_of_append_text_eq {key key' : String} {o o' : Order}
    (h : key ++ o.text = key' ++ o'.text) : o = o' := by
  have hchars := congrArg String.toList h
  rw [String.toList_append, String.toList_append, o.toList_text, o'.toList_text,
    ← List.cons_append, ← List.cons_append, ← List.append_assoc, ← List.append_assoc] at hchars
  have hsplit := congrArg splitLastBracket (List.append_cancel_right hchars)
  rw [splitLastBracket_append (isOrderChar_ne_bracket o.isOrderChar_body).1,
    splitLastBracket_append (isOrderChar_ne_bracket o'.isOrderChar_body).1] at hsplit
  exact eq_of_body_eq (Prod.mk.inj (Option.some.inj hsplit)).2

theorem splitLastBracket_eq_some {cs key body : List Char}
    (h : splitLastBracket cs = some (key, body)) : cs = key ++ '[' :: body := by
  by_cases hmem : '[' ∈ cs.reverse
  · obtain ⟨a, b, hcs, ha⟩ := List.eq_append_cons_of_mem hmem
    have hcs : cs = b.reverse ++ '[' :: a.reverse := by
      rw [← List.reverse_reverse cs, hcs]; simp
    rw [hcs, splitLastBracket_append (by simpa using ha)] at h
    obtain ⟨rfl, rfl⟩ := Prod.mk.inj (Option.some.inj h)
    exact hcs
  · simp [splitLastBracket, dropWhile_ne_of_notMem hmem] at h

/-- A segment is cut into a key and a spelling of its qualifier. -/
theorem splitOrder_eq_ok_iff {cs key : List Char} {order : Option Order} :
    splitOrder cs = .ok (key, order) ↔
      ∃ q, Spells order q ∧ cs = key ++ q ∧ (order = none → key.getLast? ≠ some ']') := by
  constructor
  · intro h
    unfold splitOrder at h
    split at h
    · -- the text ends in `]`, so what stands after its last `[` has to be a qualifier
      next hlast =>
      split at h
      · simp at h
      · next inner hsplit =>
        split at h
        · simp at h
        · next o horder =>
          obtain ⟨rfl, rfl⟩ := Prod.mk.inj (Except.ok.inj h)
          refine ⟨_, .bracketed horder, ?_, by simp⟩
          obtain ⟨front, rfl⟩ := List.getLast?_eq_some_iff.1 hlast
          rw [List.dropLast_concat] at hsplit
          rw [splitLastBracket_eq_some hsplit]
          simp
    · next hlast =>
      obtain ⟨rfl, rfl⟩ := Prod.mk.inj (Except.ok.inj h)
      exact ⟨[], .plain, by simp, fun _ => hlast⟩
  · rintro ⟨q, hq, rfl, hkey⟩
    cases hq with
    | plain =>
      unfold splitOrder
      split
      · next hlast => exact absurd (by simpa using hlast) (hkey rfl)
      · simp
    | @bracketed o body horder =>
      -- the spelling holds no `[`, so the last one of the text is where it starts
      have hbody := (isOrderChar_ne_bracket (readOrder_eq_some horder).2).1
      have hcs : key ++ '[' :: (body ++ [']']) = (key ++ '[' :: body) ++ [']'] := by simp
      unfold splitOrder
      rw [hcs, List.getLast?_concat]
      simp only [List.dropLast_concat, splitLastBracket_append hbody, horder]

/-- The keys of segments: a token in double quotes, or a bare name. -/
def IsKey : List Char → Prop
  | [] => False
  | '"' :: inner => 2 ≤ inner.length ∧ inner.getLast? = some '"'
  | key => (∀ c ∈ key, isBlank c = false) ∧ '"' ∉ key

/-- A quote of its own is no token: at least one character and a second quote have to follow. -/
theorem checkKey_eq_ok_iff {key : List Char} : checkKey key = .ok () ↔ IsKey key := by
  unfold checkKey IsKey
  split
  · simp
  · next inner =>
    by_cases hshort : (decide (inner.length < 2) || inner.getLast? != some '"') = true
    · rw [if_pos hshort]
      rw [Bool.or_eq_true, decide_eq_true_eq, bne_iff_ne] at hshort
      constructor
      · intro h
        simp at h
      · rintro ⟨hlength, hlast⟩
        rcases hshort with hlt | hne
        · omega
        · exact absurd hlast hne
    · rw [if_neg hshort]
      rw [Bool.or_eq_true, decide_eq_true_eq, bne_iff_ne, not_or, Decidable.not_not] at hshort
      exact ⟨fun _ => ⟨by omega, hshort.2⟩, fun _ => rfl⟩
  · simp

/-- A segment is read exactly if it is, up to blanks around it, a key with a spelling of its order.
A key that ends in `]` cannot go without one: that bracket would be taken for a qualifier's. -/
theorem readSegment_eq_ok_iff {raw : List Char} {s : Segment} :
    readSegment raw = .ok s ↔
      IsKey s.key.toList ∧ ∃ q, Spells s.order q ∧ trim raw = s.key.toList ++ q ∧
        (s.order = none → s.key.toList.getLast? ≠ some ']') := by
  rw [← checkKey_eq_ok_iff, ← splitOrder_eq_ok_iff]
  constructor
  · intro h
    unfold readSegment at h
    dsimp only at h
    split at h
    · simp [throw, throwThe, MonadExceptOf.throw, bind, Except.bind] at h
    · obtain ⟨⟨key, order⟩, hsplit, h⟩ := bind_eq_ok_iff.1 h
      obtain ⟨_, hkey, h⟩ := bind_eq_ok_iff.1 h
      obtain rfl := Except.ok.inj h
      exact ⟨by simpa using hkey, by simpa using hsplit⟩
  · rintro ⟨hkey, hsplit⟩
    -- a key is not empty, so neither is the segment
    have hne : (trim raw).isEmpty = false := by
      obtain ⟨q, -, hraw, -⟩ := splitOrder_eq_ok_iff.1 hsplit
      rw [hraw]
      cases hk : s.key.toList with
      | nil => simp [hk, checkKey] at hkey
      | cons c t => rfl
    unfold readSegment
    simp [hne, hsplit, hkey, bind, Except.bind, pure, Except.pure]

end SyntaxHighlight.Scope
