import SyntaxHighlight.Text.Lines

/-!
# The order of names is the order of their bytes

Names are kept in increasing order of their code points. In UTF-8 this is the order of the bytes
(`Text.bytes_lt_bytes_iff`): the encodings of two characters differ at a byte that both have, and
there the smaller character has the smaller byte.
-/

namespace SyntaxHighlight.Text

/-- Two byte sequences differ at a byte that both have, and the first one has the smaller. -/
def Diverges : List UInt8 → List UInt8 → Prop
  | x :: u, y :: v => x < y ∨ x = y ∧ Diverges u v
  | _, _ => False

/-- What stands behind such a byte does not matter. -/
theorem Diverges.append_lt {u v : List UInt8} (h : Diverges u v) (a b : List UInt8) :
    u ++ a < v ++ b := by
  fun_induction Diverges u v with
  | case1 x u y v ih =>
    rw [List.cons_append, List.cons_append, List.cons_lt_cons_iff]
    exact h.imp_right fun ⟨heq, hrest⟩ => ⟨heq, ih hrest⟩
  | case2 => exact h.elim

/-! ### Characters -/

theorem ofNat_eq_ofNat_iff {m n : Nat} (hm : m < 256) (hn : n < 256) :
    UInt8.ofNat m = UInt8.ofNat n ↔ m = n := by
  rw [← UInt8.toNat_inj, UInt8.toNat_ofNat_of_lt' hm, UInt8.toNat_ofNat_of_lt' hn]

/-- How a character is encoded, by the size of its code point. -/
theorem utf8EncodeChar_cases (c : Char) :
    (c.toNat < 0x80 ∧ String.utf8EncodeChar c = [UInt8.ofNat c.toNat]) ∨
    (0x80 ≤ c.toNat ∧ c.toNat < 0x800 ∧ String.utf8EncodeChar c =
      [UInt8.ofNat (c.toNat / 64 + 192), UInt8.ofNat (c.toNat % 64 + 128)]) ∨
    (0x800 ≤ c.toNat ∧ c.toNat < 0x10000 ∧ String.utf8EncodeChar c =
      [UInt8.ofNat (c.toNat / 4096 + 224), UInt8.ofNat (c.toNat / 64 % 64 + 128),
        UInt8.ofNat (c.toNat % 64 + 128)]) ∨
    (0x10000 ≤ c.toNat ∧ c.toNat < 0x110000 ∧ String.utf8EncodeChar c =
      [UInt8.ofNat (c.toNat / 262144 + 240), UInt8.ofNat (c.toNat / 4096 % 64 + 128),
        UInt8.ofNat (c.toNat / 64 % 64 + 128), UInt8.ofNat (c.toNat % 64 + 128)]) := by
  have hvalid : c.toNat < 0x110000 := by
    have h := c.valid
    simp only [UInt32.isValidChar, Nat.isValidChar] at h
    show c.val.toNat < _
    omega
  have hval : c.val.toNat = c.toNat := rfl
  unfold String.utf8EncodeChar
  dsimp only
  rw [hval]
  by_cases hone : c.toNat ≤ 0x7F
  · exact .inl ⟨by omega, if_pos hone⟩
  · by_cases htwo : c.toNat ≤ 0x7FF
    · refine .inr (.inl ⟨by omega, by omega, ?_⟩)
      have hmod : c.toNat / 64 % 32 = c.toNat / 64 := by omega
      rw [if_neg hone, if_pos htwo, hmod]
    · by_cases hthree : c.toNat ≤ 0xFFFF
      · refine .inr (.inr (.inl ⟨by omega, by omega, ?_⟩))
        have hmod : c.toNat / 4096 % 16 = c.toNat / 4096 := by omega
        rw [if_neg hone, if_neg htwo, if_pos hthree, hmod]
      · refine .inr (.inr (.inr ⟨by omega, by omega, ?_⟩))
        have hmod : c.toNat / 262144 % 8 = c.toNat / 262144 := by omega
        rw [if_neg hone, if_neg htwo, if_neg hthree, hmod]

/-- The smaller character has the smaller encoding. -/
theorem diverges_utf8EncodeChar {c d : Char} (h : c < d) :
    Diverges (String.utf8EncodeChar c) (String.utf8EncodeChar d) := by
  have hlt : c.toNat < d.toNat := h
  -- A longer encoding has a greater first byte, and one of the same length is compared digit by
  -- digit to the base 64.
  rcases utf8EncodeChar_cases c with
      ⟨hc, hcode⟩ | ⟨hc, hc', hcode⟩ | ⟨hc, hc', hcode⟩ | ⟨hc, hc', hcode⟩ <;>
    rcases utf8EncodeChar_cases d with
      ⟨hd, hcode'⟩ | ⟨hd, hd', hcode'⟩ | ⟨hd, hd', hcode'⟩ | ⟨hd, hd', hcode'⟩ <;>
    rw [hcode, hcode'] <;>
    simp (disch := (show _ < 256; omega)) only [Diverges, UInt8.ofNat_lt_iff_lt,
      ofNat_eq_ofNat_iff] <;>
    omega

/-! ### Names -/

/-- A smaller name has the smaller bytes. -/
theorem flatMap_utf8EncodeChar_lt {cs ds : List Char} (h : cs < ds) :
    cs.flatMap String.utf8EncodeChar < ds.flatMap String.utf8EncodeChar := by
  induction cs generalizing ds with
  | nil =>
    cases ds with
    | nil => exact absurd h (List.not_lt_nil _)
    | cons d ds =>
      have hne : String.utf8EncodeChar d ≠ [] := by
        intro hnil
        have hsize := String.length_utf8EncodeChar d
        have hpos := d.utf8Size_pos
        rw [hnil, List.length_nil] at hsize
        omega
      obtain ⟨b, bs, hcode⟩ := List.exists_cons_of_ne_nil hne
      rw [List.flatMap_nil, List.flatMap_cons, hcode]
      exact List.nil_lt_cons _ _
  | cons c cs ih =>
    cases ds with
    | nil => exact absurd h (List.not_lt_nil _)
    | cons d ds =>
      rw [List.flatMap_cons, List.flatMap_cons]
      -- the first characters decide if they differ, and else what follows them
      rcases List.cons_lt_cons_iff.1 h with hlt | ⟨rfl, hrest⟩
      · exact (diverges_utf8EncodeChar hlt).append_lt _ _
      · exact List.append_left_lt (ih hrest)

/-- Of two names the smaller one has the smaller bytes. -/
theorem bytes_lt_bytes_iff {s t : String} : bytes s < bytes t ↔ s < t := by
  constructor
  · intro h
    by_cases hlt : s < t
    · exact hlt
    · -- Otherwise the names are equal or the other way round, and so are their bytes.
      have hnot : ¬ bytes s < bytes t := by
        by_cases heq : t = s
        · rw [heq]
          exact List.lt_irrefl _
        · have hgt : t < s :=
            String.not_le.1 fun hle => heq (String.le_antisymm (String.not_lt.1 hlt) hle)
          exact List.lt_asymm (flatMap_utf8EncodeChar_lt (String.lt_iff.1 hgt))
      exact absurd h hnot
  · intro h
    exact flatMap_utf8EncodeChar_lt (String.lt_iff.1 h)

end SyntaxHighlight.Text
