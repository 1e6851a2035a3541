import SyntaxHighlight.Proofs.Text.Offsets
import SyntaxHighlight.Text.Edit

/-!
# Replacements and their inverses

A replacement that can be carried out cuts a text in three: what stays in front, what is removed,
and what stays behind (`Replacement.Cuts`). The new text is cut in the same places around what was
inserted, so the inverse replacement can be carried out too and brings the old text back
(`Replacement.Cuts.inverse`). The edit describes both texts: its positions are those of its byte
offsets, in the old text and in the new one (`Edit.ofChange_of_cuts`), and so the edit of the
inverse is the same edit with its old and new ends exchanged.
-/

namespace SyntaxHighlight

/-! ### Characters and bytes -/

namespace Text

@[simp] theorem bytes_append (s t : String) : bytes (s ++ t) = bytes s ++ bytes t := by
  simp [bytes]

/-- An offset stands between two characters, or at an end of the text. -/
def IsBoundary (text : String) (offset : Nat) : Prop :=
  ∃ front back, text = front ++ back ∧ (bytes front).length = offset

/-- Every character takes a byte at least. -/
theorem eq_nil_of_size_eq_zero {cs : List Char}
    (h : (cs.flatMap String.utf8EncodeChar).length = 0) : cs = [] := by
  cases cs with
  | nil => rfl
  | cons c cs =>
    have := c.utf8Size_pos
    rw [List.flatMap_cons, List.length_append, String.length_utf8EncodeChar] at h
    omega

/-- A text can be cut at an offset exactly between its characters. -/
theorem splitAt?_eq_some_iff {cs a b : List Char} {n : Nat} :
    splitAt? cs n = some (a, b) ↔
      cs = a ++ b ∧ (a.flatMap String.utf8EncodeChar).length = n := by
  fun_induction splitAt? cs n generalizing a with
  | case1 cs =>
    constructor
    · intro h
      cases h
      exact ⟨rfl, rfl⟩
    · rintro ⟨rfl, hsize⟩
      rw [eq_nil_of_size_eq_zero hsize]
      rfl
  | case2 n =>
    constructor
    · intro h
      cases h
    · rintro ⟨hnil, hsize⟩
      rw [(List.append_eq_nil_iff.1 hnil.symm).1] at hsize
      cases hsize
  | case3 c cs n hn hle ih =>
    rw [Option.map_eq_some_iff]
    constructor
    · rintro ⟨⟨a', b'⟩, hsplit, heq⟩
      cases heq
      obtain ⟨rfl, hsize⟩ := ih.1 hsplit
      refine ⟨rfl, ?_⟩
      rw [List.flatMap_cons, List.length_append, String.length_utf8EncodeChar, hsize]
      omega
    · rintro ⟨hcs, hsize⟩
      -- the offset is not zero, so the front is not empty and starts with this character
      cases a with
      | nil => exact absurd hsize.symm hn
      | cons d a =>
        obtain ⟨rfl, htail⟩ := List.cons.inj hcs
        rw [List.flatMap_cons, List.length_append, String.length_utf8EncodeChar] at hsize
        exact ⟨(a, b), ih.2 ⟨htail, by omega⟩, rfl⟩
  | case4 c cs n hn hle =>
    constructor
    · intro h
      cases h
    · rintro ⟨hcs, hsize⟩
      cases a with
      | nil => exact absurd hsize.symm hn
      | cons d a =>
        -- The first character alone reaches behind the offset.
        obtain ⟨rfl, -⟩ := List.cons.inj hcs
        rw [List.flatMap_cons, List.length_append, String.length_utf8EncodeChar] at hsize
        omega

/-- A text is cut where it was put together. -/
theorem splitAt?_append {front back : String} :
    splitAt? (front ++ back).toList (bytes front).length = some (front.toList, back.toList) :=
  splitAt?_eq_some_iff.2 ⟨String.toList_append, rfl⟩

/-- The halves of a text that is cut make up the text, and the first has as many bytes as the
offset. -/
theorem exists_append_of_splitAt? {text : String} {a b : List Char} {n : Nat}
    (h : splitAt? text.toList n = some (a, b)) :
    text = String.ofList a ++ String.ofList b ∧ (bytes (String.ofList a)).length = n := by
  obtain ⟨htext, hsize⟩ := splitAt?_eq_some_iff.1 h
  refine ⟨?_, ?_⟩
  · rw [← String.ofList_append, ← htext, String.ofList_toList]
  · rw [bytes, String.toList_ofList]
    exact hsize

/-- Of two fronts of one text the shorter one is a front of the other. -/
theorem exists_append_of_length_le {front rest front' rest' : String}
    (h : front ++ rest = front' ++ rest') (hle : (bytes front).length ≤ (bytes front').length) :
    ∃ between, front' = front ++ between := by
  have hchars : front.toList ++ rest.toList = front'.toList ++ rest'.toList := by
    rw [← String.toList_append, h, String.toList_append]
  rcases List.append_eq_append_iff.1 hchars with ⟨cs, hfront', -⟩ | ⟨cs, hfront, -⟩
  · refine ⟨String.ofList cs, ?_⟩
    rw [← String.toList_inj, hfront', String.toList_append, String.toList_ofList]
  · -- The other way round there is nothing between them.
    have hfront : front = front' ++ String.ofList cs := by
      rw [← String.toList_inj, hfront, String.toList_append, String.toList_ofList]
    have hzero : (bytes (String.ofList cs)).length = 0 := by
      rw [hfront, bytes_append, List.length_append] at hle
      omega
    rw [bytes, String.toList_ofList] at hzero
    refine ⟨"", ?_⟩
    rw [hfront, eq_nil_of_size_eq_zero hzero, String.ofList_nil, String.append_empty,
      String.append_empty]

/-- The part of a text between two offsets; empty if they are not between characters. -/
def slice (text : String) (start stop : Nat) : String :=
  match splitAt? text.toList start with
  | none => ""
  | some (_, rest) =>
    match splitAt? rest (stop - start) with
    | none => ""
    | some (part, _) => String.ofList part

end Text

/-! ### Where a replacement cuts a text -/

namespace Replacement

open Text

structure Cuts (r : Replacement) (text front removed back : String) : Prop where
  text_eq : text = front ++ removed ++ back
  start_eq : r.start = (bytes front).length
  stop_eq : r.stop = (bytes front).length + (bytes removed).length

variable {r : Replacement} {text front removed back : String}

theorem Cuts.start_le_stop (h : r.Cuts text front removed back) : r.start ≤ r.stop := by
  rw [h.start_eq, h.stop_eq]
  exact Nat.le_add_right _ _

theorem Cuts.stop_sub_start (h : r.Cuts text front removed back) :
    r.stop - r.start = (bytes removed).length := by
  rw [h.start_eq, h.stop_eq, Nat.add_sub_cancel_left]

/-- A replacement cuts a text exactly if its ends are in order and between characters. -/
theorem exists_cuts_iff :
    (∃ front removed back, r.Cuts text front removed back) ↔
      r.start ≤ r.stop ∧ IsBoundary text r.start ∧ IsBoundary text r.stop := by
  constructor
  · rintro ⟨front, removed, back, h⟩
    refine ⟨h.start_le_stop, ⟨front, removed ++ back, ?_, h.start_eq.symm⟩,
      ⟨front ++ removed, back, h.text_eq, ?_⟩⟩
    · rw [h.text_eq, String.append_assoc]
    · rw [bytes_append, List.length_append, h.stop_eq]
  · rintro ⟨hle, ⟨front, rest, htext, hstart⟩, ⟨front', back, htext', hstop⟩⟩
    rw [← hstart, ← hstop] at hle
    obtain ⟨removed, rfl⟩ := exists_append_of_length_le (htext.symm.trans htext') hle
    refine ⟨front, removed, back, htext', hstart.symm, ?_⟩
    rw [← hstop, bytes_append, List.length_append]

/-- What is removed stands between the ends of the replacement. -/
theorem Cuts.slice_eq (h : r.Cuts text front removed back) :
    Text.slice text r.start r.stop = removed := by
  rw [Text.slice, h.stop_sub_start, h.text_eq, h.start_eq, String.append_assoc, splitAt?_append]
  dsimp only
  rw [splitAt?_append]
  dsimp only
  rw [String.ofList_toList]

theorem Cuts.bytes_removed (h : r.Cuts text front removed back) :
    bytes removed = ((bytes text).take r.stop).drop r.start := by
  have hbytes : bytes text = (bytes front ++ bytes removed) ++ bytes back := by
    rw [h.text_eq, bytes_append, bytes_append]
  rw [hbytes, h.stop_eq, ← List.length_append, List.take_left, h.start_eq, List.drop_left]

/-- The replacement that takes another one back. -/
def inverse (r : Replacement) (text : String) : Replacement :=
  ⟨r.start, r.start + (bytes r.inserted).length, Text.slice text r.start r.stop⟩

/-- The inverse cuts the new text in the same places, around what was inserted. -/
theorem Cuts.inverse (h : r.Cuts text front removed back) :
    (r.inverse text).Cuts (front ++ r.inserted ++ back) front r.inserted back where
  text_eq := rfl
  start_eq := h.start_eq
  stop_eq := by
    show r.start + (bytes r.inserted).length = _
    rw [h.start_eq]

/-- The inverses of replacements that are carried out one after another, the last one first. -/
def inverses (text : String) : List Replacement → List Replacement
  | [] => []
  | r :: rest =>
    match Edit.apply text r with
    | none => []
    | some (new, _) => inverses new rest ++ [r.inverse text]

end Replacement

/-! ### What an edit says -/

namespace Edit

open Text Replacement

/-- The same edit with the old and the new text exchanged. -/
def inverse (e : Edit) : Edit where
  startByte := e.startByte
  oldEndByte := e.newEndByte
  newEndByte := e.oldEndByte
  startPosition := e.startPosition
  oldEndPosition := e.newEndPosition
  newEndPosition := e.oldEndPosition

/-- An edit describes a replacement that makes one text of another, in the coordinates of both. -/
structure Describes (e : Edit) (r : Replacement) (text new : String) : Prop where
  bytes_new : bytes new = (bytes text).take r.start ++ bytes r.inserted ++ (bytes text).drop r.stop
  startByte : e.startByte = r.start
  oldEndByte : e.oldEndByte = r.stop
  newEndByte : e.newEndByte = r.start + (bytes r.inserted).length
  startPosition : e.startPosition = positionAt text e.startByte
  startPosition_new : e.startPosition = positionAt new e.startByte
  oldEndPosition : e.oldEndPosition = positionAt text e.oldEndByte
  newEndPosition : e.newEndPosition = positionAt new e.newEndByte

variable {r : Replacement} {text front removed back : String}

/-- There is only one edit for a replacement. -/
theorem Describes.unique {e e' : Edit} {new : String} (h : e.Describes r text new)
    (h' : e'.Describes r text new) : e = e' := by
  -- the offsets are those of the replacement, and the positions follow from them
  have hstart : e.startByte = e'.startByte := h.startByte.trans h'.startByte.symm
  have hold : e.oldEndByte = e'.oldEndByte := h.oldEndByte.trans h'.oldEndByte.symm
  have hnew : e.newEndByte = e'.newEndByte := h.newEndByte.trans h'.newEndByte.symm
  have hstartPosition := h.startPosition
  have holdPosition := h.oldEndPosition
  have hnewPosition := h.newEndPosition
  rw [hstart, ← h'.startPosition] at hstartPosition
  rw [hold, ← h'.oldEndPosition] at holdPosition
  rw [hnew, ← h'.newEndPosition] at hnewPosition
  cases e
  cases e'
  rw [Edit.mk.injEq]
  exact ⟨hstart, hold, hnew, hstartPosition, holdPosition, hnewPosition⟩

/-- The positions of an edit are those of its offsets, which are in the text and in order. -/
theorem ofChange_clamped (text : String) (r : Replacement) :
    (ofChange text r).startByte ≤ (ofChange text r).oldEndByte ∧
    (ofChange text r).oldEndByte ≤ (bytes text).length ∧
    (ofChange text r).startPosition = positionAt text (ofChange text r).startByte ∧
    (ofChange text r).oldEndPosition = positionAt text (ofChange text r).oldEndByte := by
  have hle : (ofChange text r).startByte ≤ (ofChange text r).oldEndByte := Nat.min_le_right _ _
  have hstart : (ofChange text r).startPosition = positionAt text (ofChange text r).startByte :=
    (positionAt_eq_advance _ _).symm
  refine ⟨hle, Nat.min_le_right _ _, hstart, ?_⟩
  rw [← advance_positionAt hle, ← hstart]
  rfl

/-- The edit of a replacement that can be carried out describes it; its offsets need not be moved
into the text. -/
theorem ofChange_of_cuts (h : r.Cuts text front removed back) :
    (ofChange text r).Describes r text (front ++ r.inserted ++ back) := by
  obtain ⟨-, -, hstart, hold⟩ := ofChange_clamped text r
  have hbytes : bytes text = bytes front ++ (bytes removed ++ bytes back) := by
    rw [h.text_eq, bytes_append, bytes_append, List.append_assoc]
  have hlength : r.stop ≤ (bytes text).length := by
    rw [hbytes, h.stop_eq, List.length_append, List.length_append]
    omega
  -- the ends are in the text and in order, so clamping leaves them as they are
  have hstop : (ofChange text r).oldEndByte = r.stop := Nat.min_eq_left hlength
  have hfirst : (ofChange text r).startByte = r.start := by
    show min r.start (min r.stop (bytes text).length) = r.start
    rw [Nat.min_eq_left hlength, Nat.min_eq_left h.start_le_stop]
  have htake : (bytes text).take r.start = bytes front := by
    rw [hbytes, h.start_eq, List.take_left]
  have hdrop : (bytes text).drop r.stop = bytes back := by
    rw [hbytes, h.stop_eq, ← List.append_assoc, ← List.length_append, List.drop_left]
  have hnew : bytes (front ++ r.inserted ++ back) =
      (bytes text).take r.start ++ bytes r.inserted ++ (bytes text).drop r.stop := by
    rw [htake, hdrop, bytes_append, bytes_append]
  have hlast : (ofChange text r).newEndByte = r.start + (bytes r.inserted).length := by
    show (ofChange text r).startByte + _ = _
    rw [hfirst]
  refine ⟨hnew, hfirst, hstop, hlast, hstart, ?_, hold, ?_⟩
  · -- In front of the replacement the texts are the same.
    rw [hstart, hfirst, positionAt, positionAt, hnew, htake, List.append_assoc, h.start_eq,
      List.take_left]
  · -- the new end is reached from the start by the inserted bytes
    have htake' : (bytes (front ++ r.inserted ++ back)).take (r.start + (bytes r.inserted).length) =
        (bytes text).take r.start ++ bytes r.inserted := by
      rw [hnew, htake, h.start_eq, ← List.length_append, List.take_left]
    rw [hlast, positionAt_eq_advance, htake', Position.advance_append, ← positionAt_eq_advance,
      ← hfirst, ← hstart]
    rfl

/-- A replacement that cuts a text is carried out. -/
theorem apply_of_cuts (h : r.Cuts text front removed back) :
    apply text r = some (front ++ r.inserted ++ back, ofChange text r) := by
  have hfirst : splitAt? text.toList r.start = some (front.toList, (removed ++ back).toList) := by
    rw [h.text_eq, h.start_eq, String.append_assoc, splitAt?_append]
  rw [apply, if_neg (Nat.not_lt.2 h.start_le_stop), hfirst, h.stop_sub_start]
  show (splitAt? (removed ++ back).toList (bytes removed).length).bind _ = _
  rw [splitAt?_append]
  show some (String.ofList front.toList ++ r.inserted ++ String.ofList back.toList, _) = _
  rw [String.ofList_toList, String.ofList_toList]

/-- A replacement that is carried out cuts the text. -/
theorem exists_cuts_of_apply {new : String} {e : Edit} (h : apply text r = some (new, e)) :
    ∃ front removed back, r.Cuts text front removed back ∧
      new = front ++ r.inserted ++ back ∧ e = ofChange text r := by
  unfold apply at h
  split at h
  · cases h
  · next hle =>
    obtain ⟨⟨a, rest⟩, hfirst, h⟩ := Option.bind_eq_some_iff.1 h
    obtain ⟨⟨b, c⟩, hsecond, h⟩ := Option.bind_eq_some_iff.1 h
    obtain ⟨htext, hstart⟩ := exists_append_of_splitAt? hfirst
    -- the second cut is made in what stands behind the first
    rw [← String.toList_ofList (l := rest)] at hsecond
    obtain ⟨hrest, hstop⟩ := exists_append_of_splitAt? hsecond
    cases h
    refine ⟨String.ofList a, String.ofList b, String.ofList c, ⟨?_, hstart.symm, ?_⟩, rfl, rfl⟩
    · rw [htext, hrest, String.append_assoc]
    · omega

/-- A replacement cannot be carried out exactly if its range is inverted, ends behind the text or
cuts a character. -/
theorem apply_eq_none_iff :
    apply text r = none ↔ r.stop < r.start ∨ (bytes text).length < r.stop ∨
      ¬ IsBoundary text r.start ∨ ¬ IsBoundary text r.stop := by
  have hsome : (∃ x, apply text r = some x) ↔
      r.start ≤ r.stop ∧ IsBoundary text r.start ∧ IsBoundary text r.stop := by
    rw [← exists_cuts_iff]
    constructor
    · rintro ⟨⟨new, e⟩, h⟩
      obtain ⟨front, removed, back, hcuts, -⟩ := exists_cuts_of_apply h
      exact ⟨front, removed, back, hcuts⟩
    · rintro ⟨front, removed, back, hcuts⟩
      exact ⟨_, apply_of_cuts hcuts⟩
  -- An offset between characters is not behind the text.
  have hlength : IsBoundary text r.stop → r.stop ≤ (bytes text).length := by
    rintro ⟨front, back, rfl, hstop⟩
    rw [bytes_append, List.length_append]
    omega
  rw [← Option.not_isSome_iff_eq_none, Option.isSome_iff_exists, hsome]
  constructor
  · intro h
    by_cases hle : r.start ≤ r.stop
    · by_cases hstart : IsBoundary text r.start
      · exact .inr (.inr (.inr fun hstop => h ⟨hle, hstart, hstop⟩))
      · exact .inr (.inr (.inl hstart))
    · exact .inl (Nat.lt_of_not_le hle)
  · rintro (h | h | h | h) ⟨hle, hstart, hstop⟩
    · omega
    · exact absurd (hlength hstop) (Nat.not_le_of_lt h)
    · exact h hstart
    · exact h hstop

/-- Carrying out the inverse brings the old text back, and its edit is the inverse edit. -/
theorem apply_inverse {new : String} {e : Edit} (h : apply text r = some (new, e)) :
    apply new (r.inverse text) = some (text, e.inverse) := by
  obtain ⟨front, removed, back, hcuts, rfl, rfl⟩ := exists_cuts_of_apply h
  have hremoved : (r.inverse text).inserted = removed := hcuts.slice_eq
  have htext : front ++ (r.inverse text).inserted ++ back = text := by
    rw [hremoved, hcuts.text_eq]
  have hthere := ofChange_of_cuts hcuts
  have hback := ofChange_of_cuts hcuts.inverse
  rw [htext] at hback
  rw [apply_of_cuts hcuts.inverse, htext]
  -- Read from the new text to the old one, the first edit describes the inverse as well.
  have hlast : r.stop = (r.inverse text).start + (bytes (r.inverse text).inserted).length := by
    rw [hremoved, hcuts.stop_eq, hcuts.inverse.start_eq]
  have hexchanged : (ofChange text r).inverse.Describes (r.inverse text)
      (front ++ r.inserted ++ back) text :=
    { bytes_new := hback.bytes_new
      startByte := hthere.startByte
      oldEndByte := hthere.newEndByte
      newEndByte := hthere.oldEndByte.trans hlast
      startPosition := hthere.startPosition_new
      startPosition_new := hthere.startPosition
      oldEndPosition := hthere.newEndPosition
      newEndPosition := hthere.oldEndPosition }
  rw [hback.unique hexchanged]

/-! ### One after another -/

theorem applyAll_cons_eq_some {rs : List Replacement} {last : String} {edits : List Edit}
    (h : applyAll text (r :: rs) = some (last, edits)) :
    ∃ mid e edits', apply text r = some (mid, e) ∧ applyAll mid rs = some (last, edits') ∧
      edits = e :: edits' := by
  obtain ⟨⟨mid, e⟩, happly, h⟩ := Option.bind_eq_some_iff.1 h
  obtain ⟨⟨last, edits'⟩, hrest, h⟩ := Option.bind_eq_some_iff.1 h
  cases h
  exact ⟨mid, e, edits', happly, hrest, rfl⟩

theorem applyAll_concat {rs : List Replacement} {mid last : String} {edits : List Edit} {e : Edit}
    (h : applyAll text rs = some (mid, edits)) (h' : apply mid r = some (last, e)) :
    applyAll text (rs ++ [r]) = some (last, edits ++ [e]) := by
  induction rs generalizing text edits with
  | nil =>
    cases h
    rw [List.nil_append, applyAll, h']
    rfl
  | cons r' rs ih =>
    obtain ⟨next, e', edits', happly, hrest, rfl⟩ := applyAll_cons_eq_some h
    rw [List.cons_append, applyAll, happly]
    show (applyAll next (rs ++ [r])).bind _ = _
    rw [ih hrest]
    rfl

/-- Taking replacements back from the last to the first brings the first text back. -/
theorem applyAll_inverses {rs : List Replacement} {last : String} {edits : List Edit}
    (h : applyAll text rs = some (last, edits)) :
    applyAll last (inverses text rs) = some (text, (edits.map inverse).reverse) := by
  induction rs generalizing text edits with
  | nil =>
    cases h
    rfl
  | cons r rs ih =>
    obtain ⟨mid, e, edits', happly, hrest, rfl⟩ := applyAll_cons_eq_some h
    rw [inverses, happly, List.map_cons, List.reverse_cons]
    exact applyAll_concat (ih hrest) (apply_inverse happly)

/-- **Replacements can be taken back.** A replacement cannot be carried out exactly if its range is
inverted, ends behind the text or cuts a character. Otherwise its edit is that of `ofChange` and
describes both texts, and the inverse replacement, which inserts what was removed, brings the old
text back with the inverse edit; so do the inverses of any sequence, from the last to the first. For
a range that is moved into the text the offsets are in order and in the text, and the positions are
those of the offsets. -/
theorem apply_taken_back (text : String) (r : Replacement) :
    (apply text r = none ↔ r.stop < r.start ∨ (bytes text).length < r.stop ∨
      ¬ IsBoundary text r.start ∨ ¬ IsBoundary text r.stop) ∧
    (∀ new e, apply text r = some (new, e) →
      e = ofChange text r ∧ e.Describes r text new ∧
        bytes (r.inverse text).inserted = ((bytes text).take r.stop).drop r.start ∧
        apply new (r.inverse text) = some (text, e.inverse)) ∧
    (∀ rs last edits, applyAll text rs = some (last, edits) →
      applyAll last (inverses text rs) = some (text, (edits.map inverse).reverse)) ∧
    (ofChange text r).startByte ≤ (ofChange text r).oldEndByte ∧
    (ofChange text r).oldEndByte ≤ (bytes text).length ∧
    (ofChange text r).startPosition = positionAt text (ofChange text r).startByte ∧
    (ofChange text r).oldEndPosition = positionAt text (ofChange text r).oldEndByte := by
  refine ⟨apply_eq_none_iff, ?_, fun rs last edits => applyAll_inverses, ofChange_clamped text r⟩
  intro new e h
  obtain ⟨front, removed, back, hcuts, rfl, rfl⟩ := exists_cuts_of_apply h
  have hremoved : (r.inverse text).inserted = removed := hcuts.slice_eq
  exact ⟨rfl, ofChange_of_cuts hcuts, hremoved ▸ hcuts.bytes_removed, apply_inverse h⟩

/-- A line end in place of a character of two bytes, taken back. -/
theorem apply_taken_back_line_end :
    apply "aéb" ⟨1, 3, "\n"⟩ = some ("a\nb", ⟨1, 3, 2, ⟨0, 1⟩, ⟨0, 3⟩, ⟨1, 0⟩⟩) ∧
    apply "a\nb" (Replacement.inverse ⟨1, 3, "\n"⟩ "aéb") =
      some ("aéb", ⟨1, 2, 3, ⟨0, 1⟩, ⟨1, 0⟩, ⟨0, 3⟩⟩) := by
  have happly : apply "aéb" ⟨1, 3, "\n"⟩ =
      some ("a\nb", ⟨1, 3, 2, ⟨0, 1⟩, ⟨0, 3⟩, ⟨1, 0⟩⟩) := by decide
  obtain ⟨-, hsome, -⟩ := apply_taken_back "aéb" ⟨1, 3, "\n"⟩
  obtain ⟨-, -, -, hback⟩ := hsome _ _ happly
  exact ⟨happly, hback⟩

-- The second byte of a character is no place to cut.
example : apply "é" ⟨1, 2, "x"⟩ = none := by decide

end Edit

end SyntaxHighlight
