/-!
# Blank characters

The characters with the Unicode property `White_Space`, and trimming by them.
-/

namespace SyntaxHighlight.Text

/-- Whether a character has the Unicode property `White_Space`. -/
def isBlank (c : Char) : Bool :=
  let n := c.toNat
  (0x09 ≤ n && n ≤ 0x0D) || n == 0x20 || n == 0x85 || n == 0xA0 || n == 0x1680 ||
    (0x2000 ≤ n && n ≤ 0x200A) || n == 0x2028 || n == 0x2029 || n == 0x202F || n == 0x205F ||
    n == 0x3000

def trimStart (cs : List Char) : List Char := cs.dropWhile isBlank

def trimEnd (cs : List Char) : List Char := (cs.reverse.dropWhile isBlank).reverse

def trim (cs : List Char) : List Char := trimEnd (trimStart cs)

theorem length_trimStart_le (cs : List Char) : (trimStart cs).length ≤ cs.length :=
  (List.dropWhile_sublist _).length_le

/-- A run of blanks, possibly empty. -/
def Blanks (g : List Char) : Prop := ∀ c ∈ g, isBlank c = true

/-- A text that does not end in a blank. -/
def EndsSolid (cs : List Char) : Prop := ∀ c, cs.getLast? = some c → isBlank c = false

@[simp] theorem blanks_nil : Blanks [] := by intro c hc; simp at hc

theorem Blanks.append {g g' : List Char} (h : Blanks g) (h' : Blanks g') : Blanks (g ++ g') :=
  fun c hc => (List.mem_append.1 hc).elim (h c) (h' c)

/-- Blanks in front are trimmed away. -/
theorem trimStart_append {g : List Char} (hg : Blanks g) (cs : List Char) :
    trimStart (g ++ cs) = trimStart cs :=
  List.dropWhile_append_of_pos hg

theorem trimStart_cons {c : Char} (hc : isBlank c = false) (cs : List Char) :
    trimStart (c :: cs) = c :: cs := by
  simp [trimStart, hc]

/-- What `trimStart` drops are blanks. -/
theorem exists_blanks_append_trimStart (cs : List Char) :
    ∃ g, Blanks g ∧ cs = g ++ trimStart cs := by
  refine ⟨cs.takeWhile isBlank, ?_, List.takeWhile_append_dropWhile.symm⟩
  intro c hc
  exact List.all_eq_true.1 List.all_takeWhile c hc

/-- Nothing is left of a text exactly if it is blank. -/
theorem trimStart_eq_nil_iff {cs : List Char} : trimStart cs = [] ↔ Blanks cs := by
  constructor
  · intro h
    obtain ⟨g, hg, hcs⟩ := exists_blanks_append_trimStart cs
    rw [h, List.append_nil] at hcs
    rwa [hcs]
  · intro h
    simpa [trimStart] using trimStart_append h []

theorem isBlank_of_trimStart_eq_cons {cs rest : List Char} {c : Char}
    (h : trimStart cs = c :: rest) : isBlank c = false := by
  have hhead := List.head?_dropWhile_not isBlank cs
  rw [← trimStart, h] at hhead
  simpa using hhead

/-- A text with something other than blanks keeps its end behind `trimStart`. -/
theorem trimStart_append_right {cs : List Char} (h : trimStart cs ≠ []) (rest : List Char) :
    trimStart (cs ++ rest) = trimStart cs ++ rest := by
  obtain ⟨g, hg, hcs⟩ := exists_blanks_append_trimStart cs
  obtain ⟨c, t, ht⟩ := List.exists_cons_of_ne_nil h
  have hc := isBlank_of_trimStart_eq_cons ht
  rw [ht] at hcs ⊢
  rw [hcs, List.append_assoc, trimStart_append hg, List.cons_append, trimStart_cons hc]

theorem EndsSolid.of_append {a b : List Char} (h : EndsSolid (a ++ b)) : EndsSolid b := by
  intro c hc
  apply h c
  rw [List.getLast?_append, hc, Option.some_or]

/-- Blanks that do not end in a blank are none. -/
theorem EndsSolid.eq_nil {g : List Char} (h : EndsSolid g) (hg : Blanks g) : g = [] := by
  cases hl : g.getLast? with
  | none => exact List.getLast?_eq_none_iff.1 hl
  | some c =>
    have hc := h c hl
    rw [hg c (List.mem_of_getLast? hl)] at hc
    simp at hc

theorem trimEnd_eq_self {cs : List Char} (h : EndsSolid cs) : trimEnd cs = cs := by
  unfold trimEnd
  cases hr : cs.reverse with
  | nil => simpa using hr.symm
  | cons c t =>
    have hcs : cs = t.reverse ++ [c] := by rw [← List.reverse_reverse cs, hr]; simp
    have hc : isBlank c = false := h c (by rw [hcs]; simp)
    rw [List.dropWhile_cons_of_neg (by simp [hc])]
    simp [hcs]

/-- Blanks behind a text are trimmed away. -/
theorem trimEnd_append {g : List Char} (hg : Blanks g) (cs : List Char) :
    trimEnd (cs ++ g) = trimEnd cs := by
  have hrev : ∀ c ∈ g.reverse, isBlank c = true := fun c hc => hg c (List.mem_reverse.1 hc)
  simp only [trimEnd, List.reverse_append]
  rw [List.dropWhile_append_of_pos hrev]

/-- What `trimEnd` drops are blanks. -/
theorem exists_trimEnd_append_blanks (cs : List Char) :
    ∃ g, Blanks g ∧ cs = trimEnd cs ++ g := by
  obtain ⟨g, hg, hcs⟩ := exists_blanks_append_trimStart cs.reverse
  refine ⟨g.reverse, fun c hc => hg c (List.mem_reverse.1 hc), ?_⟩
  rw [trimEnd, ← trimStart, ← List.reverse_append, ← hcs, List.reverse_reverse]

theorem endsSolid_trimEnd (cs : List Char) : EndsSolid (trimEnd cs) := by
  intro c hc
  rw [trimEnd, List.getLast?_reverse] at hc
  have h : trimStart cs.reverse = c :: (trimStart cs.reverse).tail := by
    cases ht : trimStart cs.reverse with
    | nil => rw [← trimStart, ht] at hc; simp at hc
    | cons d t => rw [← trimStart, ht] at hc; simpa using hc
  exact isBlank_of_trimStart_eq_cons h

def isBlankText (s : String) : Bool := s.toList.all isBlank

end SyntaxHighlight.Text
