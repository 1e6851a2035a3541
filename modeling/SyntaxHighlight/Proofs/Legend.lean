import Mathlib.Data.Finset.Card
import Mathlib.Data.List.Induction
import SyntaxHighlight.Proofs.Token.Cover

/-!
# Numbers and terms

Tokens carry numbers, and a client turns them into terms with the list of token types that it was
told. So the numbers have to be places in that list, and no two terms may share one.

* `Legend.map_toNat_index?_eq_some_iff`: a term has the number of a place exactly if it stands
  there, as long as all places can be written in 32 bits;
* `Token.exists_highlight_of_mem_encode`: a token has the number of the term of some highlight.

The legend of a list has as many places as there are different terms in the list
(`Legend.size_ofList`), so that only their number is bounded, and not the length of the list.
-/

namespace SyntaxHighlight

namespace Legend

/-- The term that a client reads for a number. -/
def term? (l : Legend) (tokenType : UInt32) : Option Term := l.tokenTypes[tokenType.toNat]?

/-- A legend has some terms, each once and in the order of their first occurrences. -/
structure Keeps (l : Legend) (names : List Term) : Prop where
  mem_iff : ∀ t, t ∈ l.terms ↔ t ∈ names
  nodup : l.terms.Nodup
  ordered : l.terms.Pairwise fun a b => names.idxOf a < names.idxOf b

/-- The terms are those of the list, each where it occurs first. -/
theorem terms_ofList (names : List Term) : (ofList names).terms = names.eraseDups := by
  induction names using List.reverseRecOn with
  | nil => rfl
  | append_singleton front name ih =>
    rw [ofList_concat, terms_add, ih, eraseDups_concat]
    simp only [List.mem_eraseDups]

/-- The legend of a list has its terms, each where it occurs first. -/
theorem keeps_ofList (names : List Term) : (ofList names).Keeps names where
  mem_iff _ := by rw [terms_ofList, List.mem_eraseDups]
  nodup := (ofList names).nodup
  ordered := by
    rw [terms_ofList]
    exact pairwise_idxOf_eraseDups names

/-- There are as many numbers as different terms. -/
theorem size_ofList (names : List Term) : (ofList names).size = names.toFinset.card := by
  have hterms : (ofList names).terms.toFinset = names.toFinset := by
    ext t
    rw [List.mem_toFinset, List.mem_toFinset, (keeps_ofList names).mem_iff]
  rw [← hterms, List.toFinset_card_of_nodup (ofList names).nodup]
  rfl

section

variable {l : Legend} (hsize : l.size ≤ UInt32.size)

include hsize

/-- No number is cut to 32 bits. -/
theorem map_toNat_index? (t : Term) : (l.index? t).map UInt32.toNat = l.terms.idxOf? t := by
  rw [index?_eq]
  cases hplace : l.terms.idxOf? t with
  | none => rfl
  | some i =>
    obtain ⟨hlt, -⟩ := List.idxOf?_eq_some_iff.1 hplace
    exact congrArg some (toNat_toUInt32 (Nat.lt_of_lt_of_le hlt hsize))

/-- A term has the number of a place exactly if it stands there. -/
theorem map_toNat_index?_eq_some_iff {t : Term} {i : Nat} :
    (l.index? t).map UInt32.toNat = some i ↔ l.terms[i]? = some t := by
  rw [map_toNat_index? hsize, idxOf?_eq_some_iff_getElem? l.nodup]

/-- A client reads for the number of a term that term. -/
theorem term?_of_index? {t : Term} {tokenType : UInt32} (h : l.index? t = some tokenType) :
    l.term? tokenType = some t :=
  (map_toNat_index?_eq_some_iff hsize).1 (by rw [h]; rfl)

end

theorem lt_size_of_term? {l : Legend} {t : Term} {tokenType : UInt32}
    (h : l.term? tokenType = some t) : tokenType.toNat < l.size :=
  (List.getElem?_eq_some_iff.1 h).1

end Legend

namespace Token

/-- Spans keep their numbers where they are written as tokens. -/
theorem map_tokenType_relative (line start : UInt32) (spans : List Span) :
    (relative line start spans).map (·.tokenType) = spans.map (·.tokenType) := by
  induction spans generalizing line start with
  | nil => rfl
  | cons s rest ih => rw [relative, List.map_cons, List.map_cons, ih]

/-- A token has the number of the term of some highlight. -/
theorem exists_highlight_of_mem_encode {highlights : List Highlight} {legend : Legend}
    {text : String} {token : Token} (h : token ∈ encode highlights legend text) :
    ∃ a ∈ highlights, legend.index? a.term = some token.tokenType := by
  have hmem : token.tokenType ∈ (spans highlights legend text).map (·.tokenType) := by
    rw [spans, ← map_tokenType_relative 0 0]
    exact List.mem_map_of_mem h
  obtain ⟨s, hs, htype⟩ := List.mem_map.1 hmem
  -- The highlight that owns the first column of the span is the one whose number it carries.
  have hrun := mem_spans_iff.1 hs
  obtain ⟨a, -, ha, hindex, -⟩ := hrun.inside s.start (Nat.le_refl _) hrun.nonempty
  exact ⟨a, List.mem_of_getElem? ha, htype ▸ hindex⟩

end Token

namespace Legend

/-- **Numbers and terms.** The legend of a list with at most 2³² different terms has each of them
once, in the order of their first occurrences. A term has the number of a place exactly if it stands
there, among the terms and among the token types that a client is told; and it has a number exactly
if it is in the list. So the number of every token is a place of the legend, and a client reads
there the term of a highlight that was encoded. -/
theorem numbers_inverse_to_terms (names : List Term) (hcount : names.toFinset.card ≤ UInt32.size) :
    (ofList names).Keeps names ∧
    (∀ (t : Term) (i : Nat),
      (((ofList names).index? t).map UInt32.toNat = some i ↔ (ofList names).terms[i]? = some t) ∧
      ((ofList names).terms[i]? = some t ↔ (ofList names).tokenTypes[i]? = some t)) ∧
    (∀ t, (ofList names).contains t = true ↔ t ∈ names) ∧
    ∀ (highlights : List Highlight) (text : String),
      ∀ token ∈ Token.encode highlights (ofList names) text,
        token.tokenType.toNat < (ofList names).size ∧
        ∃ a ∈ highlights, (ofList names).term? token.tokenType = some a.term := by
  have hsize : (ofList names).size ≤ UInt32.size := by
    rw [size_ofList]
    exact hcount
  refine ⟨keeps_ofList names, fun t i => ⟨map_toNat_index?_eq_some_iff hsize, Iff.rfl⟩,
    fun t => ?_, fun highlights text token htoken => ?_⟩
  · rw [contains_iff_mem, (keeps_ofList names).mem_iff]
  · obtain ⟨a, ha, hindex⟩ := Token.exists_highlight_of_mem_encode htoken
    have hterm := term?_of_index? hsize hindex
    exact ⟨lt_size_of_term? hterm, a, ha, hterm⟩

def repeated : List Term := ["b", "a", "b", "c", "a"]

/-- A word in brackets, with a part whose term is not in the list. -/
def bracketed : List Highlight :=
  [⟨"z", ⟨⟨0, 2⟩, ⟨0, 3⟩⟩⟩, ⟨"a", ⟨⟨0, 1⟩, ⟨0, 4⟩⟩⟩, ⟨"c", ⟨⟨0, 0⟩, ⟨0, 5⟩⟩⟩]

theorem numbers_inverse_to_terms_repeated :
    repeated.toFinset.card ≤ UInt32.size ∧
    ((ofList repeated).index? "c").map UInt32.toNat = some 2 ∧
    (ofList repeated).contains "z" ≠ true ∧
    ∃ token ∈ Token.encode bracketed (ofList repeated) "(abc)",
      token.tokenType.toNat < (ofList repeated).size ∧
      ∃ a ∈ bracketed, (ofList repeated).term? token.tokenType = some a.term := by
  have hcount : repeated.toFinset.card ≤ UInt32.size := by decide
  obtain ⟨-, hplaces, hcontains, htokens⟩ := numbers_inverse_to_terms repeated hcount
  have hfit : Token.AllFit bracketed "(abc)" := by
    unfold Token.AllFit
    decide
  -- The word is covered, so that there is a token.
  have hword : ∃ t ∈ Token.decode (Token.encode bracketed (ofList repeated) "(abc)"),
      t.Holds 0 2 := by
    rw [Token.holds_iff_covers hfit]
    refine ⟨bracketed[1], by decide, by decide, 3, ?_⟩
    unfold Range.Covers
    decide
  refine ⟨hcount, (hplaces "c" 2).1.2 (by decide), by rw [Ne, hcontains]; decide, ?_⟩
  cases hencode : Token.encode bracketed (ofList repeated) "(abc)" with
  | nil =>
    rw [hencode] at hword
    obtain ⟨t, ht, -⟩ := hword
    cases ht
  | cons token rest =>
    have htoken : token ∈ Token.encode bracketed (ofList repeated) "(abc)" :=
      hencode ▸ List.mem_cons_self
    exact ⟨token, List.mem_cons_self, htokens _ _ token htoken⟩

end Legend

end SyntaxHighlight
