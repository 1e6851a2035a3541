/-!
# Lists, failures and numbers

What the other modules need of lists, of computations that may fail and of numbers in 32 bits.
Nothing here mentions texts, trees or highlights.
-/

namespace SyntaxHighlight

universe u v

section Equality

variable {α : Type u} [DecidableEq α]

/-! ### Places in a list -/

/-- The place of a member in a list that goes on with another one. -/
theorem idxOf?_concat (l : List α) (a b : α) :
    (l ++ [a]).idxOf? b = (l.idxOf? b).or (if b = a then some l.length else none) := by
  rw [List.idxOf?, List.findIdx?_append, List.findIdx?_singleton, ← List.idxOf?]
  by_cases h : b = a
  · subst h
    simp
  · simp [h, Ne.symm h]

/-- In a list without repetitions the place of a member is where it stands. -/
theorem idxOf?_eq_some_iff_getElem? {l : List α} (h : l.Nodup) {a : α} {i : Nat} :
    l.idxOf? a = some i ↔ l[i]? = some a := by
  rw [List.idxOf?_eq_some_iff, List.getElem?_eq_some_iff]
  constructor
  · rintro ⟨hlt, ha, -⟩
    exact ⟨hlt, ha⟩
  · rintro ⟨hlt, rfl⟩
    refine ⟨hlt, rfl, fun j hj heq => ?_⟩
    have := (List.getElem_inj h).1 heq
    omega

/-- The value of the first pair with a key. -/
theorem lookup_cons_eq_ite {β : Type v} (a b : α) (x : β) (l : List (α × β)) :
    ((b, x) :: l).lookup a = if a = b then some x else l.lookup a := by
  rw [List.lookup_cons]
  by_cases h : a = b
  · simp [h]
  · simp [h, beq_eq_false_iff_ne.2 h]

/-! ### Members that count once -/

theorem nodup_eraseDups : (l : List α) → l.eraseDups.Nodup
  | [] => .nil
  | a :: l => by
    rw [List.eraseDups_cons]
    refine List.nodup_cons.2 ⟨?_, nodup_eraseDups _⟩
    rw [List.mem_eraseDups]
    simp
termination_by l => l.length
decreasing_by exact Nat.lt_succ_of_le (List.length_filter_le ..)

/-- Of a list that goes on, the last member is kept if it is new. -/
theorem eraseDups_concat (l : List α) (a : α) :
    (l ++ [a]).eraseDups = if a ∈ l then l.eraseDups else l.eraseDups ++ [a] := by
  rw [List.eraseDups_append]
  split
  case isTrue h => simp [List.removeAll, h]
  case isFalse h => simp [List.removeAll, h, List.eraseDups_cons]

/-- What is kept stands in the order of its first occurrences. -/
theorem pairwise_idxOf_eraseDups (l : List α) :
    l.eraseDups.Pairwise fun a b => l.idxOf a < l.idxOf b := by
  have go : ∀ back front : List α,
      front.eraseDups.Pairwise (fun a b => front.idxOf a < front.idxOf b) →
        (front ++ back).eraseDups.Pairwise
          fun a b => (front ++ back).idxOf a < (front ++ back).idxOf b := by
    intro back
    induction back with
    | nil => simp
    | cons c back ih =>
      intro front h
      rw [List.append_cons]
      apply ih
      -- The places of what was there before do not change.
      have hold : front.eraseDups.Pairwise fun a b =>
          (front ++ [c]).idxOf a < (front ++ [c]).idxOf b := by
        refine h.imp_of_mem fun ha hb hlt => ?_
        rw [List.idxOf_append, List.idxOf_append, if_pos (List.mem_eraseDups.1 ha),
          if_pos (List.mem_eraseDups.1 hb)]
        exact hlt
      rw [eraseDups_concat]
      split
      case isTrue => exact hold
      case isFalse hnew =>
        refine List.pairwise_append.2 ⟨hold, List.pairwise_singleton _ _, fun a ha b hb => ?_⟩
        obtain rfl := List.mem_singleton.1 hb
        have ha := List.mem_eraseDups.1 ha
        have hlt := List.idxOf_lt_length_iff.2 ha
        rw [List.idxOf_append, List.idxOf_append, if_pos ha, if_neg hnew]
        omega
  exact go l [] .nil

end Equality

/-! ### Neighbours that count once -/

section Repetitions

variable {α : Type}

theorem eraseRepsBy_loop (r : α → α → Bool) (a : α) (l acc : List α) :
    List.eraseRepsBy.loop r a l acc = acc.reverse ++ List.eraseRepsBy.loop r a l [] := by
  induction l generalizing a acc with
  | nil => simp [List.eraseRepsBy.loop]
  | cons b rest ih =>
    rw [List.eraseRepsBy.loop, List.eraseRepsBy.loop]
    split
    · exact ih a acc
    · rw [ih b (a :: acc), ih b [a]]
      simp

theorem eraseReps_cons_cons [DecidableEq α] (a b : α) (l : List α) :
    (a :: b :: l).eraseReps = if a = b then (b :: l).eraseReps else a :: (b :: l).eraseReps := by
  show List.eraseRepsBy.loop (· == ·) a (b :: l) [] = _
  rw [List.eraseRepsBy.loop]
  by_cases h : a = b
  · simp only [h, beq_self_eq_true, if_true]
    rfl
  · rw [if_neg h]
    simp only [beq_eq_false_iff_ne.2 h]
    rw [eraseRepsBy_loop]
    rfl

theorem mem_eraseReps [DecidableEq α] {x : α} {l : List α} : x ∈ l.eraseReps ↔ x ∈ l := by
  match l with
  | [] => exact Iff.rfl
  | [a] => exact Iff.rfl
  | a :: b :: rest =>
    have ih := mem_eraseReps (x := x) (l := b :: rest)
    rw [eraseReps_cons_cons]
    split
    · next h =>
      rw [ih, h, List.mem_cons (a := x) (b := b) (l := b :: rest), iff_or_self]
      rintro rfl
      exact List.mem_cons_self ..
    · rw [List.mem_cons, ih, List.mem_cons (a := x) (b := a)]

/-- Numbers in order are in strict order once equal neighbours are gone. -/
theorem increasing_eraseReps {l : List Nat} (h : l.Pairwise (· ≤ ·)) :
    l.eraseReps.Pairwise (· < ·) := by
  match l with
  | [] => exact List.Pairwise.nil
  | [a] => exact List.pairwise_singleton ..
  | a :: b :: rest =>
    obtain ⟨ha, hrest⟩ := List.pairwise_cons.1 h
    have ih := increasing_eraseReps hrest
    rw [eraseReps_cons_cons]
    split
    · exact ih
    · next hne =>
      refine List.pairwise_cons.2 ⟨fun x hx => ?_, ih⟩
      have hab := ha b (List.mem_cons_self ..)
      rcases List.mem_cons.1 (mem_eraseReps.1 hx) with rfl | hx
      · omega
      · have := (List.pairwise_cons.1 hrest).1 x hx
        omega

end Repetitions

/-! ### Cutting a list -/

/-- What stands in front of a rest is told from the length of the rest. -/
theorem take_length_sub {α : Type} (a b : List α) :
    (a ++ b).take ((a ++ b).length - b.length) = a := by
  simp

section Cut

variable {α : Type} [BEq α] [LawfulBEq α] {x : α} {a l : List α}

theorem bne_of_notMem (h : x ∉ l) : ∀ c ∈ l, (c != x) = true := by
  intro c hc
  rw [bne_iff_ne]
  rintro rfl
  exact h hc

theorem dropWhile_ne_append (h : x ∉ a) (b : List α) :
    (a ++ x :: b).dropWhile (· != x) = x :: b := by
  rw [List.dropWhile_append_of_pos (bne_of_notMem h)]
  simp

theorem takeWhile_ne_append (h : x ∉ a) (b : List α) :
    (a ++ x :: b).takeWhile (· != x) = a := by
  rw [List.takeWhile_append_of_pos (bne_of_notMem h)]
  simp

theorem dropWhile_ne_of_notMem (h : x ∉ l) : l.dropWhile (· != x) = [] := by
  rw [← List.append_nil l, List.dropWhile_append_of_pos (bne_of_notMem h)]
  rfl

/-- The first piece goes up to the first member at which the list is cut. -/
theorem getElem?_splitOn_zero (x : α) (l : List α) :
    (l.splitOn x)[0]? = some (l.takeWhile (· != x)) := by
  induction l with
  | nil => simp
  | cons c rest ih =>
    rw [List.splitOn_eq_splitOnP] at ih ⊢
    rw [List.splitOnP_cons_eq_if_modifyHead]
    by_cases hc : c = x
    · simp [hc]
    · simp [hc, ih]

end Cut

/-! ### Related members -/

/-- Of two members of a list with related pairs one comes first, unless they are the same. -/
theorem eq_or_related {α : Type} {R : α → α → Prop} {l : List α} (h : l.Pairwise R) {a b : α}
    (ha : a ∈ l) (hb : b ∈ l) : a = b ∨ R a b ∨ R b a :=
  List.Pairwise.forall_of_forall_of_flip (R := fun a b => a = b ∨ R a b ∨ R b a)
    (fun _ _ => .inl rfl) (h.imp fun hab => .inr (.inl hab)) (h.imp fun hab => .inr (.inr hab))
    ha hb

/-- Going through a list, the last value found is that of the greatest member that has one. -/
theorem foldl_or_cases {α β : Type} {R : α → α → Prop} {l : List α} (hl : l.Pairwise R)
    (f : α → Option β) (init : Option β) :
    (∃ x ∈ l, ∃ t, f x = some t ∧ l.foldl (fun found x => (f x).or found) init = some t ∧
      ∀ y ∈ l, (f y).isSome = true → y = x ∨ R y x) ∨
    ((∀ x ∈ l, f x = none) ∧ l.foldl (fun found x => (f x).or found) init = init) := by
  induction l generalizing init with
  | nil => exact .inr ⟨by simp, rfl⟩
  | cons a l ih =>
    obtain ⟨ha, hl⟩ := List.pairwise_cons.1 hl
    rw [List.foldl_cons]
    rcases ih hl ((f a).or init) with ⟨x, hx, t, hfx, hfold, hmost⟩ | ⟨hnone, hfold⟩
    · -- The rest has a value, which is found behind the one of the head.
      refine .inl ⟨x, by simp [hx], t, hfx, hfold, ?_⟩
      intro y hy hsome
      rcases List.mem_cons.1 hy with rfl | hy
      · exact .inr (ha x hx)
      · exact hmost y hy hsome
    · -- The rest has none, so that the head decides.
      cases hfa : f a with
      | none =>
        rw [hfa, Option.none_or] at hfold
        exact .inr ⟨List.forall_mem_cons.2 ⟨hfa, hnone⟩, hfold⟩
      | some t =>
        rw [hfa, Option.some_or] at hfold
        refine .inl ⟨a, by simp, t, hfa, hfold, ?_⟩
        intro y hy hsome
        rcases List.mem_cons.1 hy with rfl | hy
        · exact .inl rfl
        · simp [hnone y hy] at hsome

/-! ### Computations that may fail -/

section Failures

variable {ε α β : Type}

/-- A step that may fail succeeds if both of its parts do. -/
theorem bind_eq_ok_iff {x : Except ε α} {f : α → Except ε β} {b : β} :
    (x >>= f) = .ok b ↔ ∃ a, x = .ok a ∧ f a = .ok b := by
  cases x <;> simp [bind, Except.bind]

/-- A step that may fail fails if one of its parts does. -/
theorem bind_eq_error_iff {x : Except ε α} {f : α → Except ε β} {e : ε} :
    (x >>= f) = .error e ↔ x = .error e ∨ ∃ a, x = .ok a ∧ f a = .error e := by
  cases x <;> simp [bind, Except.bind]

theorem discard_eq_error_iff {x : Except ε α} {e : ε} :
    (discard x : Except ε Unit) = .error e ↔ x = .error e := by
  cases x <;> simp [discard, Functor.mapConst, Except.map]

theorem toOption_eq_some_iff {x : Except ε α} {a : α} : x.toOption = some a ↔ x = .ok a := by
  cases x <;> simp [Except.toOption]

/-- If the error of a step does not depend on the state, steps one after another fail with the first
error. -/
theorem foldlM_eq_error_iff {σ : Type} {f : σ → α → Except ε σ} {wrong : α → Option ε}
    (hf : ∀ s a e, f s a = .error e ↔ wrong a = some e) {l : List α} {s : σ} {e : ε} :
    l.foldlM f s = .error e ↔ l.findSome? wrong = some e := by
  induction l generalizing s with
  | nil => simp [pure, Except.pure]
  | cons a l ih =>
    rw [List.foldlM_cons, bind_eq_error_iff, List.findSome?_cons]
    cases hstep : f s a with
    | error e' =>
      rw [(hf s a e').1 hstep]
      simp
    | ok next =>
      have hnone : wrong a = none := by
        cases hwrong : wrong a with
        | none => rfl
        | some e' => rw [(hf s a e').2 hwrong] at hstep; cases hstep
      rw [hnone]
      simp [ih]

theorem forM_eq_foldlM (f : α → Except ε Unit) (l : List α) :
    l.forM f = l.foldlM (fun _ => f) () := by
  induction l with
  | nil => rfl
  | cons a l ih =>
    rw [List.foldlM_cons]
    show (f a >>= fun _ => l.forM f) = _
    rw [ih]

end Failures

/-! ### Numbers in 32 bits -/

section Numbers

variable {m n : Nat}

theorem toNat_toUInt32 (h : n < UInt32.size) : n.toUInt32.toNat = n :=
  UInt32.toNat_ofNat_of_lt' h

theorem toUInt32_le_toUInt32 (h : m ≤ n) (hn : n < UInt32.size) : m.toUInt32 ≤ n.toUInt32 := by
  rw [UInt32.le_iff_toNat_le, toNat_toUInt32 hn, toNat_toUInt32 (by omega)]
  exact h

theorem toNat_toUInt32_sub (h : m ≤ n) (hn : n < UInt32.size) :
    (n.toUInt32 - m.toUInt32).toNat = n - m := by
  rw [UInt32.toNat_sub_of_le _ _ (toUInt32_le_toUInt32 h hn), toNat_toUInt32 hn,
    toNat_toUInt32 (by omega)]

/-- The difference of two numbers is zero only for the same number. -/
theorem toUInt32_sub_eq_zero_iff (h : m ≤ n) (hn : n < UInt32.size) :
    n.toUInt32 - m.toUInt32 = 0 ↔ m = n := by
  rw [← UInt32.toNat_inj, toNat_toUInt32_sub h hn]
  show n - m = 0 ↔ m = n
  omega

end Numbers

end SyntaxHighlight
