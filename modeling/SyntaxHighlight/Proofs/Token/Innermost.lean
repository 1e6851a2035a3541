import SyntaxHighlight.Proofs.Token.Cover
import SyntaxHighlight.Proofs.Tree.Layout

/-!
# The innermost term

Tokens are made from highlights alone, without the tree: what is inside is told by the lengths of
the parts on a row, and by the order of the walk where they are equally long. A node inside another
has the shorter part, with one exception. A range that ends on a row is kept to its end, and a range
that goes on is cut where the counted part of the line ends. So a node that ends behind the carriage
return of a line is longer on that row than a node around it that starts with it and goes on.

`Token.innermost_term_iff` says that a cell has the term of the deepest node that contains it and
has a term in the legend, unless that node overruns the deepest one that goes on behind the row and
the two have different terms.
-/

namespace SyntaxHighlight

namespace Cursor

def tokenType? (c : Cursor) (g : Grammar) (legend : Legend) : Option UInt32 :=
  (c.term? g).bind legend.index?

/-- A node contains a cell and has a term in the legend. -/
def Marks (c : Cursor) (g : Grammar) (legend : Legend) (p : Position) : Prop :=
  c.range.Contains p ∧ (c.tokenType? g legend).isSome = true

/-- A node marks a cell and goes on behind its row. -/
def MarksOnward (c : Cursor) (g : Grammar) (legend : Legend) (p : Position) : Prop :=
  c.Marks g legend p ∧ p.row < c.range.stop.row

instance (c : Cursor) (g : Grammar) (legend : Legend) (p : Position) :
    Decidable (c.Marks g legend p) :=
  inferInstanceAs (Decidable ((_ ∧ _) ∧ _))

/-- The term of a highlight is that of its node. -/
theorem tokenType?_of_highlight? {c : Cursor} {g : Grammar} {legend : Legend} {a : Highlight}
    (h : c.highlight? g = some a) :
    c.tokenType? g legend = legend.index? a.term ∧ a.range = c.range := by
  obtain ⟨term, hterm, rfl⟩ := Option.map_eq_some_iff.1 h
  rw [tokenType?, hterm]
  exact ⟨rfl, rfl⟩

/-- A node with a term in the legend has a highlight. -/
theorem exists_highlight? {c : Cursor} {g : Grammar} {legend : Legend}
    (h : (c.tokenType? g legend).isSome = true) : ∃ a, c.highlight? g = some a := by
  unfold tokenType? at h
  cases hterm : c.term? g with
  | none => rw [hterm] at h; cases h
  | some term => exact ⟨⟨term, c.range⟩, by rw [highlight?, hterm]; rfl⟩

end Cursor

namespace Tree

variable {t : Tree} {text : String}

/-- A place has a property, and no deeper one of the tree has it. -/
def IsDeepest (t : Tree) (P : Cursor → Prop) (c : Cursor) : Prop :=
  c ∈ t.places ∧ P c ∧ ∀ d ∈ t.places, P d → d.depth ≤ c.depth

/-- The highlights of a tree are those of its places, in the order of a walk. -/
theorem highlights_eq (t : Tree) (g : Grammar) :
    t.highlights g = t.places.filterMap (·.highlight? g) := by
  rw [highlights, Cursor.highlights, Cursor.walk_eq_postorder, places]

/-- Places around a place in the order of a walk: what contains the same cell is inside it if it
comes before, and around it if it comes behind. -/
theorem LaidOut.nested_split (h : t.LaidOut text) {front back : List Cursor} {o : Cursor}
    (hsplit : t.places = front ++ o :: back) (p : Position) :
    (∀ c ∈ front, Cursor.Nested p c o) ∧ ∀ c ∈ back, Cursor.Nested p o c := by
  have hpairs : t.places.Pairwise (Cursor.Nested p) := h.pairwise_nested p []
  rw [hsplit, List.pairwise_append, List.pairwise_cons] at hpairs
  obtain ⟨-, ⟨hback, -⟩, hfront⟩ := hpairs
  exact ⟨fun c hc => hfront c hc o List.mem_cons_self, hback⟩

section Deepest

variable {P : Cursor → Prop} {p : Position} (h : t.LaidOut text)
  (hP : ∀ c, P c → c.range.Contains p)

include h hP

/-- Of the places that contain a cell the first in the order of a walk is the deepest. -/
theorem exists_isDeepest [DecidablePred P] (hex : ∃ c ∈ t.places, P c) : ∃ c, t.IsDeepest P c := by
  cases hfirst : t.places.find? (fun c => decide (P c)) with
  | none =>
    obtain ⟨c, hc, hPc⟩ := hex
    rw [List.find?_eq_none] at hfirst
    exact absurd (decide_eq_true hPc) (hfirst c hc)
  | some c =>
    rw [List.find?_eq_some_iff_append] at hfirst
    obtain ⟨hPc, front, back, hsplit, hfront⟩ := hfirst
    have hPc : P c := of_decide_eq_true hPc
    refine ⟨c, hsplit ▸ List.mem_append_cons_self, hPc, ?_⟩
    intro d hd hPd
    rw [hsplit, List.mem_append, List.mem_cons] at hd
    -- what comes before does not have the property, and what comes behind is around the place
    rcases hd with hd | rfl | hd
    · have hnot := hfront d hd
      rw [decide_eq_true hPd] at hnot
      cases hnot
    · exact Nat.le_refl _
    · exact Nat.le_of_lt ((h.nested_split hsplit p).2 d hd (hP c hPc) (hP d hPd)).2

/-- Places that contain one cell are nested, so there is only one deepest. -/
theorem IsDeepest.unique {c d : Cursor} (hc : t.IsDeepest P c) (hd : t.IsDeepest P d) : c = d := by
  obtain ⟨hcmem, hPc, hcdeepest⟩ := hc
  obtain ⟨hdmem, hPd, hddeepest⟩ := hd
  rcases eq_or_related (h.pairwise_nested p []) hcmem hdmem with heq | hnested | hnested
  · exact heq
  · have hlt := (hnested (hP c hPc) (hP d hPd)).2
    exact absurd (hddeepest c hcmem hPc) (Nat.not_le_of_lt hlt)
  · have hlt := (hnested (hP d hPd) (hP c hPc)).2
    exact absurd (hcdeepest d hdmem hPd) (Nat.not_le_of_lt hlt)

end Deepest

end Tree

namespace Token

variable (g : Grammar) (legend : Legend) (text : String) (row column : Nat)

/-- A place among others decides on a cell: it covers the cell, and of the others with a term in the
legend that cover it, those before have longer parts and those behind have none shorter. -/
structure Decides (front : List Cursor) (o : Cursor) (back : List Cursor) (tokenType : UInt32)
    (length : Nat) : Prop where
  tokenType : o.tokenType? g legend = some tokenType
  covers : o.range.Covers text row column length
  front : ∀ c ∈ front, (c.tokenType? g legend).isSome = true →
    ∀ length', c.range.Covers text row column length' → length < length'
  back : ∀ c ∈ back, (c.tokenType? g legend).isSome = true →
    ∀ length', c.range.Covers text row column length' → length ≤ length'

variable {g legend text row column}

/-- The place that decides on a cell is one of those that mark it. -/
theorem Decides.marks {front back : List Cursor} {o : Cursor} {tokenType : UInt32} {length : Nat}
    (h : Decides g legend text row column front o back tokenType length) :
    o.Marks g legend ⟨row, column⟩ :=
  ⟨Range.contains_of_covers h.covers, by rw [h.tokenType]; rfl⟩

/-- The owner of a cell among the highlights of some places is the highlight of the place that
decides on it. -/
theorem exists_decides {cursors : List Cursor} {order : Nat} {tokenType : UInt32}
    (h : Highlight.Owns (cursors.filterMap (·.highlight? g)) legend text row column order
      tokenType) :
    ∃ front o back length, cursors = front ++ o :: back ∧
      Decides g legend text row column front o back tokenType length := by
  obtain ⟨a, length, ha, hindex, hcovers, hleast⟩ := h
  obtain ⟨hlt, hget⟩ := List.getElem?_eq_some_iff.1 ha
  -- The highlights before and behind the owner are those of the places before and behind.
  have hsplit : cursors.filterMap (·.highlight? g) =
      (cursors.filterMap (·.highlight? g)).take order ++
        a :: (cursors.filterMap (·.highlight? g)).drop (order + 1) := by
    rw [← hget, ← List.drop_eq_getElem_cons hlt, List.take_append_drop]
  -- so the places are split at that of the owner
  obtain ⟨earlier, rest, rfl, hearlier, hrest⟩ := List.filterMap_eq_append_iff.1 hsplit
  obtain ⟨skipped, o, back, rfl, hskipped, ho, hback⟩ := List.filterMap_eq_cons_iff.1 hrest
  obtain ⟨htype, hrange⟩ := Cursor.tokenType?_of_highlight? ho
  refine ⟨earlier ++ skipped, o, back, length, by rw [List.append_assoc], ?_⟩
  constructor
  case tokenType => rw [htype, hindex]
  case covers => rwa [← hrange]
  case front =>
    intro c hc hsome length' hlength'
    -- a highlight before the owner's with a part of the same length would win
    obtain ⟨b, hb⟩ := Cursor.exists_highlight? hsome
    obtain ⟨hbtype, hbrange⟩ := Cursor.tokenType?_of_highlight? hb
    rcases List.mem_append.1 hc with hc | hc
    · have hmem : b ∈ earlier.filterMap (·.highlight? g) := List.mem_filterMap.2 ⟨c, hc, hb⟩
      rw [hearlier] at hmem
      obtain ⟨i, hi⟩ := List.mem_iff_getElem?.1 hmem
      rw [List.getElem?_take] at hi
      split at hi
      · next hbefore =>
        have := hleast i b length' hi (by rwa [← hbtype]) (by rwa [hbrange])
        omega
      · cases hi
    · rw [hskipped c hc] at hb
      cases hb
  case back =>
    intro c hc hsome length' hlength'
    -- behind the owner's it would not
    obtain ⟨b, hb⟩ := Cursor.exists_highlight? hsome
    obtain ⟨hbtype, hbrange⟩ := Cursor.tokenType?_of_highlight? hb
    have hmem : b ∈ back.filterMap (·.highlight? g) := List.mem_filterMap.2 ⟨c, hc, hb⟩
    rw [hback] at hmem
    obtain ⟨i, hi⟩ := List.mem_iff_getElem?.1 hmem
    rw [List.getElem?_drop] at hi
    have := hleast (order + 1 + i) b length' hi (by rwa [← hbtype]) (by rwa [hbrange])
    omega

section Deepest

variable {t : Tree} (hlaid : t.LaidOut text) {front back : List Cursor} {o : Cursor}
  {tokenType : UInt32} {length : Nat} (hsplit : t.places = front ++ o :: back)
  (ho : Decides g legend text row column front o back tokenType length)

include hsplit ho

/-- The place that decides on a cell overruns no other that marks it. -/
theorem Decides.not_overruns {d : Cursor} (hd : d ∈ t.places)
    (hmarks : d.Marks g legend ⟨row, column⟩) :
    ¬ o.range.Overruns d.range text ⟨row, column⟩ := by
  intro hover
  obtain ⟨length', hcovers, hshorter⟩ := hover.shorter hmarks.1 ho.covers
  rw [hsplit, List.mem_append, List.mem_cons] at hd
  rcases hd with hd | rfl | hd
  · exact absurd (ho.front d hd hmarks.2 length' hcovers) (Nat.lt_asymm hshorter)
  · exact absurd hover.goesOn (Nat.not_lt_of_le (Nat.le_of_eq hover.endsOn.symm))
  · exact absurd (ho.back d hd hmarks.2 length' hcovers) (Nat.not_le_of_lt hshorter)

include hlaid

/-- The place that decides is the deepest one that goes on, if it goes on at all: inside it there
would be another with a part that is no longer. -/
theorem Decides.isDeepest_onward (hon : row < o.range.stop.row) :
    t.IsDeepest (·.MarksOnward g legend ⟨row, column⟩) o := by
  refine ⟨hsplit ▸ List.mem_append_cons_self, ⟨ho.marks, hon⟩, ?_⟩
  intro d hd hmarks
  obtain ⟨hfront, hback⟩ := hlaid.nested_split hsplit ⟨row, column⟩
  rw [hsplit, List.mem_append, List.mem_cons] at hd
  rcases hd with hd | rfl | hd
  · -- Both go on behind the row, so that the inner one could not be the longer one there.
    obtain ⟨hwithin, -⟩ := hfront d hd hmarks.1.1 ho.marks.1
    have hlonger := ho.front d hd hmarks.1.2 _ (hwithin.covers hmarks.1.1 ho.covers)
    obtain ⟨-, hlast, -, -, rfl⟩ := Range.covers_iff.1 ho.covers
    exact absurd (hwithin.length_le hmarks.1.1 (fun _ => hmarks.2) hlast)
      (Nat.not_le_of_lt hlonger)
  · exact Nat.le_refl _
  · exact Nat.le_of_lt (hback d hd ho.marks.1 hmarks.1.1).2

/-- The place that decides on a cell is the deepest that marks it, or is overrun by that one. -/
theorem Decides.eq_or_overruns {c : Cursor}
    (hc : t.IsDeepest (·.Marks g legend ⟨row, column⟩) c) :
    c = o ∨ c.range.Overruns o.range text ⟨row, column⟩ := by
  obtain ⟨hmem, hmarks, hdeepest⟩ := hc
  obtain ⟨hfront, hback⟩ := hlaid.nested_split hsplit ⟨row, column⟩
  have hfocus : c.focus.LaidOut text := (hlaid.of_mem hmem).2.2
  rw [hsplit, List.mem_append, List.mem_cons] at hmem
  rcases hmem with hmem | rfl | hmem
  · -- the deepest one comes before: it is inside, and still the longer one on the row
    obtain ⟨hwithin, -⟩ := hfront c hmem hmarks.1 ho.marks.1
    have hlonger := ho.front c hmem hmarks.2 _ (hwithin.covers hmarks.1 ho.covers)
    exact .inr (hwithin.overruns hmarks.1 hfocus.stop ho.covers hlonger)
  · exact .inl rfl
  · -- What comes behind in the walk is around the place that decides, and so not the deepest.
    have hlt := (hback c hmem ho.marks.1 hmarks.1).2
    have ho' : o ∈ t.places := hsplit ▸ List.mem_append_cons_self
    exact absurd (hdeepest o ho' ho.marks) (Nat.not_le_of_lt hlt)

end Deepest

/-- A cell of a token is decided on by a place of the tree. -/
theorem exists_decides_of_holds {t : Tree} (hfit : AllFit (t.highlights g) text) {tok : Placed}
    (htok : tok ∈ decode (encode (t.highlights g) legend text)) (hholds : tok.Holds row column) :
    ∃ front o back length, t.places = front ++ o :: back ∧
      Decides g legend text row column front o back tok.tokenType length := by
  obtain ⟨rfl, hlo, hhi⟩ := hholds
  obtain ⟨order, hrun⟩ := (mem_decode_encode_iff hfit).1 htok
  have howns := hrun.inside column hlo hhi
  rw [Tree.highlights_eq] at howns
  exact exists_decides howns

namespace Sample

def notes : Grammar :=
  ⟨"notes", .ofList [("document", "string"), ("comment", "comment")], .ofList [], {}⟩

/-- A document of two lines, the first of which is a comment up to some column. -/
def noted (stop : Nat) : Tree :=
  .node ⟨0, "document", true, ⟨⟨0, 0⟩, ⟨1, 2⟩⟩⟩
    [.node ⟨1, "comment", true, ⟨⟨0, 0⟩, ⟨0, stop⟩⟩⟩ [],
      .node ⟨2, "array", true, ⟨⟨1, 0⟩, ⟨1, 2⟩⟩⟩ []]

/-- The place of the comment. -/
def note (stop : Nat) : Cursor where
  focus := .node ⟨1, "comment", true, ⟨⟨0, 0⟩, ⟨0, stop⟩⟩⟩ []
  crumbs := [⟨⟨0, "document", true, ⟨⟨0, 0⟩, ⟨1, 2⟩⟩⟩, [],
    [.node ⟨2, "array", true, ⟨⟨1, 0⟩, ⟨1, 2⟩⟩⟩ []]⟩]

theorem laidOut_noted {stop : Nat} (hstop : stop = 2 ∨ stop = 3) :
    (noted stop).LaidOut "//\r\n[]" := by
  have hcomment : (⟨0, stop⟩ : Position).InText "//\r\n[]" := by
    rcases hstop with rfl | rfl
    · exact Position.inText_advance_take _ 2
    · exact Position.inText_advance_take _ 3
  refine .node (Position.inText_advance_take _ 0) (Position.inText_advance_take _ 6) ?_ ?_ ?_
  all_goals simp only [List.forall_mem_cons, List.pairwise_cons, Tree.label]
  · rcases hstop with rfl | rfl <;> simp [Range.Within] <;> decide
  · rcases hstop with rfl | rfl <;> simp <;> decide
  · refine ⟨.node (Position.inText_advance_take _ 0) hcomment ?_ ?_ ?_,
      .node (Position.inText_advance_take _ 4) (Position.inText_advance_take _ 6) ?_ ?_ ?_, ?_⟩
    all_goals simp

theorem places_noted (stop : Nat) : (noted stop).places =
    [note stop, ⟨.node ⟨2, "array", true, ⟨⟨1, 0⟩, ⟨1, 2⟩⟩⟩ [],
      [⟨⟨0, "document", true, ⟨⟨0, 0⟩, ⟨1, 2⟩⟩⟩, [(note stop).focus], []⟩]⟩,
      .ofTree (noted stop)] := rfl

theorem allFit_noted {stop : Nat} (hstop : stop = 2 ∨ stop = 3) :
    AllFit ((noted stop).highlights notes) "//\r\n[]" := by
  rw [Tree.highlights_eq, places_noted]
  unfold AllFit
  rcases hstop with rfl | rfl <;> decide

/-- The slashes are in a token. -/
theorem exists_holds_noted {stop : Nat} (hstop : stop = 2 ∨ stop = 3) :
    ∃ tok ∈ decode (encode ((noted stop).highlights notes) Legend.default "//\r\n[]"),
      tok.Holds 0 1 := by
  rw [holds_iff_covers (allFit_noted hstop), Tree.highlights_eq, places_noted]
  refine ⟨⟨"string", ⟨⟨0, 0⟩, ⟨1, 2⟩⟩⟩, ?_, by decide, 2, ?_⟩
  · rcases hstop with rfl | rfl <;> decide
  · unfold Range.Covers
    decide

/-- The comment is the deepest node that marks them. -/
theorem isDeepest_note {stop : Nat} (hstop : stop = 2 ∨ stop = 3) :
    (noted stop).IsDeepest (·.Marks notes Legend.default ⟨0, 1⟩) (note stop) := by
  refine ⟨?_, ?_, ?_⟩
  · rw [places_noted]
    exact List.mem_cons_self
  · rcases hstop with rfl | rfl <;> decide
  · intro d hd _
    rw [places_noted] at hd
    simp only [List.mem_cons, List.not_mem_nil, or_false] at hd
    rcases hd with rfl | rfl | rfl
    · exact Nat.le_refl 1
    · exact Nat.le_refl 1
    · exact Nat.zero_le 1

end Sample

/-- **The innermost term.** A cell of a token lies in a node with a term in the legend. The token
has the term of the deepest such node, except where that node overruns the deepest one that goes on
behind the row, and the two have different terms. -/
theorem innermost_term_iff (t : Tree) (g : Grammar) (legend : Legend) (text : String)
    (hlaid : t.LaidOut text) (hfit : AllFit (t.highlights g) text) (tok : Placed)
    (htok : tok ∈ decode (encode (t.highlights g) legend text)) (row column : Nat)
    (hholds : tok.Holds row column) :
    (∃ c, t.IsDeepest (·.Marks g legend ⟨row, column⟩) c) ∧
    ∀ c, t.IsDeepest (·.Marks g legend ⟨row, column⟩) c →
      (c.tokenType? g legend = some tok.tokenType ↔
        ∀ d, t.IsDeepest (·.MarksOnward g legend ⟨row, column⟩) d →
          c.range.Overruns d.range text ⟨row, column⟩ →
          d.tokenType? g legend = c.tokenType? g legend) := by
  obtain ⟨front, o, back, length, hsplit, ho⟩ := exists_decides_of_holds hfit htok hholds
  constructor
  · apply Tree.exists_isDeepest hlaid fun _ hmarks => hmarks.1
    exact ⟨o, hsplit ▸ List.mem_append_cons_self, ho.marks⟩
  · intro c hc
    rcases ho.eq_or_overruns hlaid hsplit hc with rfl | hover
    · constructor
      · intro _ d hd hover
        exact absurd hover (ho.not_overruns hsplit hd.1 hd.2.1.1)
      · intro _
        exact ho.tokenType
    · -- The place that decides goes on behind the row, and is the deepest that does.
      have hdeepest := ho.isDeepest_onward hlaid hsplit hover.goesOn
      constructor
      · intro htype d hd _
        obtain rfl := hd.unique hlaid (fun _ hmarks => hmarks.1.1) hdeepest
        rw [ho.tokenType, htype]
      · intro hsame
        rw [← hsame o hdeepest hover, ho.tokenType]

/-- A comment that ends before the carriage return has its own term. -/
theorem innermost_term_iff_noted :
    (Sample.noted 2).LaidOut "//\r\n[]" ∧
    ∃ tok ∈ decode (encode ((Sample.noted 2).highlights Sample.notes) Legend.default "//\r\n[]"),
      tok.Holds 0 1 ∧
      (Sample.noted 2).IsDeepest (·.Marks Sample.notes Legend.default ⟨0, 1⟩) (Sample.note 2) ∧
      (Sample.note 2).tokenType? Sample.notes Legend.default = some tok.tokenType := by
  have hlaid := Sample.laidOut_noted (.inl rfl)
  obtain ⟨tok, htok, hholds⟩ := Sample.exists_holds_noted (.inl rfl)
  have hdeepest := Sample.isDeepest_note (.inl rfl)
  refine ⟨hlaid, tok, htok, hholds, hdeepest, ?_⟩
  have hiff := (innermost_term_iff _ Sample.notes Legend.default _ hlaid
    (Sample.allFit_noted (.inl rfl)) tok htok 0 1 hholds).2 _ hdeepest
  rw [hiff]
  intro d _ hover
  exact absurd hover.endsBehind (by decide)

/-- A comment that ends behind the carriage return has the term of the document around it. -/
theorem innermost_term_overrun :
    (Sample.noted 3).LaidOut "//\r\n[]" ∧
    ∃ tok ∈ decode (encode ((Sample.noted 3).highlights Sample.notes) Legend.default "//\r\n[]"),
      tok.Holds 0 1 ∧
      (Sample.noted 3).IsDeepest (·.Marks Sample.notes Legend.default ⟨0, 1⟩) (Sample.note 3) ∧
      (Sample.note 3).tokenType? Sample.notes Legend.default ≠ some tok.tokenType := by
  have hlaid := Sample.laidOut_noted (.inr rfl)
  obtain ⟨tok, htok, hholds⟩ := Sample.exists_holds_noted (.inr rfl)
  have hdeepest := Sample.isDeepest_note (.inr rfl)
  refine ⟨hlaid, tok, htok, hholds, hdeepest, ?_⟩
  obtain ⟨front, o, back, length, hsplit, ho⟩ :=
    exists_decides_of_holds (Sample.allFit_noted (.inr rfl)) htok hholds
  -- The comment overruns the document, so it is not the comment that decides.
  have hne : Sample.note 3 ≠ o := by
    rintro rfl
    have hroot : Cursor.ofTree (Sample.noted 3) ∈ (Sample.noted 3).places := by
      rw [Sample.places_noted]
      simp
    exact ho.not_overruns hsplit hroot (by decide) (by constructor <;> decide)
  have ho' : o ∈ (Sample.noted 3).places := hsplit ▸ List.mem_append_cons_self
  have htype := ho.tokenType
  have hmarks := ho.marks
  rw [Sample.places_noted] at ho'
  simp only [List.mem_cons, List.not_mem_nil, or_false] at ho'
  rcases ho' with rfl | rfl | rfl
  · exact absurd rfl hne
  · exact absurd hmarks (by decide)
  · rw [← htype]
    decide

end Token

end SyntaxHighlight
