import Mathlib.Data.List.Nodup
import SyntaxHighlight.Highlight
import SyntaxHighlight.Proofs.Scope.Match
import SyntaxHighlight.Proofs.Tree.Postorder

/-!
# The subtree below a place

The places at and below a place are those from which going up to parents leads to it
(`Cursor.AtOrBelow`). A walk visits each of them once, below each child in turn and then the place
itself (`Cursor.walk_stays_below`). Where a walk starts makes no difference to what it finds at a
place: what it visits is a block of what a walk through the whole tree visits, and so are its
highlights.
-/

namespace SyntaxHighlight

namespace Cursor

/-! ### Children -/

/-- The places of some siblings, given the ones before them. -/
def siblingsFrom (l : Node) (crumbs : List Crumb) (before : List Tree) : List Tree → List Cursor
  | [] => []
  | t :: after => ⟨t, ⟨l, before, after⟩ :: crumbs⟩ :: siblingsFrom l crumbs (t :: before) after

def children (c : Cursor) : List Cursor := siblingsFrom c.node c.crumbs [] c.focus.children

/-- The places of some siblings, told by the tree at the place and by what is on both sides of
it. -/
theorem mem_siblingsFrom_iff {l : Node} {crumbs : List Crumb} {d : Cursor} {ts : List Tree} :
    ∀ {before : List Tree}, d ∈ siblingsFrom l crumbs before ts ↔
      ∃ between after, ts = between ++ d.focus :: after ∧
        d.crumbs = ⟨l, between.reverse ++ before, after⟩ :: crumbs := by
  obtain ⟨s, way⟩ := d
  induction ts with
  | nil => simp [siblingsFrom]
  | cons t ts ih =>
    intro before
    rw [siblingsFrom, List.mem_cons, ih]
    constructor
    · rintro (heq | ⟨between, after, hts, hway⟩)
      · cases heq
        exact ⟨[], ts, rfl, rfl⟩
      · exact ⟨t :: between, after, by rw [hts]; rfl, by simpa using hway⟩
    · rintro ⟨between, after, hts, hway⟩
      -- the first one has nothing between it and those before
      cases between with
      | nil =>
        cases hts
        cases hway
        exact .inl rfl
      | cons u between =>
        cases hts
        exact .inr ⟨between, after, rfl, by simpa using hway⟩

/-- The children of a place are the places with this parent. -/
theorem mem_children_iff {c d : Cursor} : d ∈ c.children ↔ d.parent? = some c := by
  obtain ⟨⟨l, ts⟩, crumbs⟩ := c
  obtain ⟨s, way⟩ := d
  rw [children, mem_siblingsFrom_iff]
  show (∃ between after, ts = between ++ s :: after ∧
    way = ⟨l, between.reverse ++ [], after⟩ :: crumbs) ↔ _
  constructor
  · rintro ⟨between, after, rfl, rfl⟩
    simp [parent?]
  · intro h
    cases way with
    | nil => simp [parent?] at h
    | cons crumb way =>
      obtain ⟨l', before, after⟩ := crumb
      simp only [parent?, Option.some.injEq, Cursor.mk.injEq, Tree.node.injEq] at h
      obtain ⟨⟨rfl, rfl⟩, rfl⟩ := h
      exact ⟨before.reverse, after, rfl, by simp⟩

/-- A child is one step further down. -/
theorem crumbs_of_mem_children {c d : Cursor} (h : d ∈ c.children) :
    d.crumbs.length = c.crumbs.length + 1 := by
  obtain ⟨between, after, -, hcrumbs⟩ := mem_siblingsFrom_iff.1 h
  rw [hcrumbs]
  rfl

/-- Of two children the second has more siblings before it. -/
theorem pairwise_siblingsFrom (l : Node) (crumbs : List Crumb) (ts : List Tree) :
    ∀ before, (siblingsFrom l crumbs before ts).Pairwise
      fun d e => d.before.length < e.before.length := by
  induction ts with
  | nil =>
    intro before
    exact .nil
  | cons t after ih =>
    intro before
    rw [siblingsFrom, List.pairwise_cons]
    refine ⟨?_, ih (t :: before)⟩
    intro e he
    obtain ⟨between, after', -, hcrumbs⟩ := mem_siblingsFrom_iff.1 he
    simp only [Cursor.before, hcrumbs, List.length_append, List.length_cons]
    omega

/-- A sibling is no larger than all of them together. -/
theorem size_of_mem_siblingsFrom {l : Node} {crumbs : List Crumb} {d : Cursor} {ts : List Tree} :
    ∀ {before : List Tree}, d ∈ siblingsFrom l crumbs before ts →
      d.focus.size ≤ Tree.forestSize ts := by
  induction ts with
  | nil =>
    intro before h
    cases h
  | cons t after ih =>
    intro before h
    rw [Tree.forestSize]
    rcases List.mem_cons.1 h with rfl | h
    · exact Nat.le_add_right _ _
    · exact Nat.le_trans (ih h) (Nat.le_add_left _ _)

/-- What holds of a place whenever it holds of its children, holds of every place. -/
theorem children_induction {motive : Cursor → Prop}
    (h : ∀ c, (∀ d ∈ c.children, motive d) → motive c) (c : Cursor) : motive c := by
  induction hn : c.focus.size using Nat.strongRecOn generalizing c with
  | ind n ih =>
    apply h
    intro d hd
    have hsize : d.focus.size < n := by
      have hle := size_of_mem_siblingsFrom hd
      rw [← hn, Tree.size_eq c.focus]
      exact Nat.lt_succ_of_le hle
    exact ih _ hsize d rfl

/-! ### Places at and below a place -/

/-- Below some siblings come the places of the first, then those of the next, and so on. -/
theorem childrenPostorder_eq (l : Node) (crumbs : List Crumb) (ts : List Tree) :
    ∀ before, childrenPostorder l crumbs before ts =
      (siblingsFrom l crumbs before ts).flatMap postorder := by
  induction ts with
  | nil =>
    intro before
    rw [childrenPostorder]
    rfl
  | cons t after ih =>
    intro before
    rw [childrenPostorder, siblingsFrom, List.flatMap_cons, ih]
    rfl

/-- The places below each child in turn, and then the place itself. -/
theorem postorder_eq (c : Cursor) : c.postorder = c.children.flatMap postorder ++ [c] := by
  obtain ⟨⟨l, ts⟩, crumbs⟩ := c
  rw [postorder, postorderFrom, childrenPostorder_eq]
  rfl

/-- A place is another one or below it: going up to parents leads there. -/
inductive AtOrBelow (start : Cursor) : Cursor → Prop
  | self : AtOrBelow start start
  | child {c d : Cursor} (hparent : d.parent? = some c) (hbelow : AtOrBelow start c) :
      AtOrBelow start d

theorem AtOrBelow.trans {b c d : Cursor} (h : AtOrBelow b c) (h' : AtOrBelow c d) :
    AtOrBelow b d := by
  induction h' with
  | self => exact h
  | child hparent _ ih => exact .child hparent ih

/-- The way up from a place goes through the places that it is below. -/
theorem AtOrBelow.crumbs_suffix {c d : Cursor} (h : AtOrBelow c d) : c.crumbs <:+ d.crumbs := by
  induction h with
  | self => exact List.suffix_rfl
  | @child e d hparent _ ih =>
    obtain ⟨between, after, -, hcrumbs⟩ := mem_siblingsFrom_iff.1 (mem_children_iff.2 hparent)
    rw [hcrumbs]
    exact ih.trans (List.suffix_cons _ _)

theorem mem_postorder_self (c : Cursor) : c ∈ c.postorder := by
  rw [postorder_eq]
  simp

/-- With a place its children are listed. -/
theorem mem_postorder_of_child {b c d : Cursor} (hc : c ∈ b.postorder) (hd : d ∈ c.children) :
    d ∈ b.postorder := by
  induction b using children_induction with
  | h b ih =>
    rw [postorder_eq, List.mem_append, List.mem_flatMap] at hc ⊢
    left
    rcases hc with ⟨e, he, hc⟩ | hc
    · exact ⟨e, he, ih e he hc⟩
    · obtain rfl := List.mem_singleton.1 hc
      exact ⟨d, hd, mem_postorder_self d⟩

/-- The places listed are those at and below the start. -/
theorem mem_postorder_iff {c d : Cursor} : d ∈ c.postorder ↔ AtOrBelow c d := by
  constructor
  · intro hd
    induction c using children_induction with
    | h c ih =>
      -- listed below a child of the place, or the place itself
      rw [postorder_eq, List.mem_append, List.mem_flatMap] at hd
      rcases hd with ⟨e, he, hd⟩ | hd
      · exact AtOrBelow.trans (.child (mem_children_iff.1 he) .self) (ih e he hd)
      · obtain rfl := List.mem_singleton.1 hd
        exact .self
  · intro hd
    induction hd with
    | self => exact mem_postorder_self c
    | child hparent _ ih => exact mem_postorder_of_child ih (mem_children_iff.2 hparent)

/-- No place is below two different children. -/
theorem eq_of_atOrBelow_children {c d e b : Cursor} (hd : d ∈ c.children) (he : e ∈ c.children)
    (hdb : AtOrBelow d b) (heb : AtOrBelow e b) : d.crumbs = e.crumbs := by
  have hlength : d.crumbs.length = e.crumbs.length := by
    rw [crumbs_of_mem_children hd, crumbs_of_mem_children he]
  have hsuffix := List.suffix_of_suffix_length_le hdb.crumbs_suffix heb.crumbs_suffix
    (Nat.le_of_eq hlength)
  exact hsuffix.eq_of_length hlength

/-- Once a place is listed, nothing at or below it follows. -/
theorem pairwise_postorder (c : Cursor) : c.postorder.Pairwise fun d e => ¬ AtOrBelow d e := by
  induction c using children_induction with
  | h c ih =>
    rw [postorder_eq, List.pairwise_append]
    refine ⟨List.pairwise_flatMap.2 ⟨ih, ?_⟩, List.pairwise_singleton _ c, ?_⟩
    · -- places below two children: being below one child tells which child it is
      refine (pairwise_siblingsFrom _ _ _ _).imp_of_mem ?_
      intro d e hd he hlt b hb b' hb' hbelow
      have hcrumbs := eq_of_atOrBelow_children hd he ((mem_postorder_iff.1 hb).trans hbelow)
        (mem_postorder_iff.1 hb')
      rw [Cursor.before, Cursor.before, hcrumbs] at hlt
      exact Nat.lt_irrefl _ hlt
    · -- the place itself comes last, and is not below one of its own children
      intro b hb b' hb' hbelow
      obtain rfl := List.mem_singleton.1 hb'
      obtain ⟨d, hd, hb⟩ := List.mem_flatMap.1 hb
      have hle := ((mem_postorder_iff.1 hb).trans hbelow).crumbs_suffix.length_le
      rw [crumbs_of_mem_children hd] at hle
      omega

/-- No place is listed twice. -/
theorem nodup_postorder (c : Cursor) : c.postorder.Nodup := by
  refine List.nodup_iff_pairwise_ne.2 ((pairwise_postorder c).imp fun {d e} hbelow heq => ?_)
  exact hbelow (heq ▸ .self)

/-- What stands at and below a place is a block of what stands at and below a place above it. -/
theorem AtOrBelow.postorder_block {c d : Cursor} (h : AtOrBelow c d) :
    d.postorder <:+: c.postorder := by
  induction h with
  | self => exact List.infix_rfl
  | @child e d hparent _ ih =>
    obtain ⟨front, back, hchildren⟩ := List.append_of_mem (mem_children_iff.2 hparent)
    refine List.IsInfix.trans ⟨front.flatMap postorder, back.flatMap postorder ++ [e], ?_⟩ ih
    rw [postorder_eq e, hchildren]
    simp

/-! ### The tree around a place -/

/-- The whole tree, with a subtree at the end of a way. -/
def rebuild (focus : Tree) : List Crumb → Tree
  | [] => focus
  | crumb :: crumbs =>
    rebuild (.node crumb.parent (crumb.before.reverse ++ focus :: crumb.after)) crumbs

/-- The tree in which a place stands. -/
def tree (c : Cursor) : Tree := rebuild c.focus c.crumbs

/-- Every place of a tree is at or below its root. -/
theorem atOrBelow_root (c : Cursor) : AtOrBelow (ofTree c.tree) c := by
  obtain ⟨focus, crumbs⟩ := c
  induction crumbs generalizing focus with
  | nil => exact .self
  | cons crumb crumbs ih => exact .child rfl (ih _)

/-- A node gets no term that its grammar does not list. -/
theorem mem_terms_of_term? {c : Cursor} {g : Grammar} {term : Term} (h : c.term? g = some term) :
    term ∈ g.terms := by
  rw [Grammar.mem_terms_iff]
  unfold term? at h
  split at h
  · -- The term of the last key that the grammar knows, or the one of the type.
    have hpairs : (c.candidateKeys g).Pairwise fun _ _ => True :=
      List.pairwise_of_forall fun _ _ => trivial
    rcases foldl_or_cases hpairs g.scopeTerm? (g.simpleTerm? c.key) with
      ⟨key, -, t, hkey, hfold, -⟩ | ⟨-, hfold⟩
    · rw [hfold] at h
      exact .inr ⟨key, hkey.trans h⟩
    · rw [hfold] at h
      exact .inl ⟨c.key, h⟩
  · exact .inl ⟨c.key, h⟩

/-- **A walk is the recursion on the tree.** From any place it is over after two steps for each node
at and below it, and has then visited the places at and below the start and no others, each once,
below each child from left to right and then the place itself. The highlights are those of these
places in this order, with their ranges and with terms of the grammar, and each is the highlight
that a walk through the whole tree gives there, with all ancestors and siblings. -/
theorem walk_stays_below (start : Cursor) (g : Grammar) :
    (∃ last, Walk.Takes (2 * start.focus.size) ⟨some start, []⟩ start.walk last ∧
      last.step = none) ∧
    (∀ c, c ∈ start.walk ↔ AtOrBelow start c) ∧
    start.walk.Nodup ∧
    start.walk = start.children.flatMap walk ++ [start] ∧
    start.highlights g = start.walk.filterMap (fun c =>
      (c.term? g).map fun term => ⟨term, c.node.range⟩) ∧
    (∀ a ∈ start.highlights g, a.term ∈ g.terms) ∧
    start.walk <:+: (ofTree start.tree).walk ∧
    start.highlights g <:+: start.tree.highlights g := by
  -- what is listed below a place stands together in the list of the whole tree
  have hblock : start.walk <:+: (ofTree start.tree).walk := by
    rw [walk_eq_postorder, walk_eq_postorder]
    exact (atOrBelow_root start).postorder_block
  refine ⟨⟨⟨none, []⟩, ?_, rfl⟩, ?_, ?_, ?_, rfl, ?_, hblock, hblock.filterMap _⟩
  · rw [walk_eq_postorder]
    exact Walk.takes_subtree start.crumbs [] start.focus
  · intro c
    rw [walk_eq_postorder, mem_postorder_iff]
  · rw [walk_eq_postorder]
    exact nodup_postorder start
  · have hwalk : walk = postorder := funext walk_eq_postorder
    rw [hwalk]
    exact postorder_eq start
  · intro a ha
    obtain ⟨c, -, hc⟩ := List.mem_filterMap.1 ha
    obtain ⟨term, hterm, rfl⟩ := Option.map_eq_some_iff.1 hc
    exact mem_terms_of_term? hterm

/-- A walk from the last argument of a call still finds that it is one, and the last. -/
theorem walk_stays_below_last_argument :
    ∃ a ∈ Sample.lastArgument.highlights Sample.callGrammar, a.term = "last" ∧
      a.term ∈ Sample.callGrammar.terms ∧
      Sample.lastArgument.highlights Sample.callGrammar <:+:
        Sample.lastArgument.tree.highlights Sample.callGrammar := by
  obtain ⟨-, -, -, -, -, hterms, -, hblock⟩ :=
    walk_stays_below Sample.lastArgument Sample.callGrammar
  have hmem : (⟨"last", ⟨⟨0, 0⟩, ⟨0, 0⟩⟩⟩ : Highlight) ∈
      Sample.lastArgument.highlights Sample.callGrammar := by decide +kernel
  exact ⟨_, hmem, rfl, hterms _ hmem, hblock⟩

end Cursor

end SyntaxHighlight
