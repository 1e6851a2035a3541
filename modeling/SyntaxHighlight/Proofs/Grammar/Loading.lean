import SyntaxHighlight.Proofs.Grammar.Scopes
import SyntaxHighlight.Proofs.Text.ByteOrder

/-!
# A grammar is complete, or there is the first error

Rules are taken in the order of their names, first those for types and then those for patterns. If
one of them is wrong there is no grammar, and the error is that of the first wrong rule
(`Rules.FirstError`). Otherwise the grammar represents all of its rules (`Grammar.Represents`): of
several spellings of a pattern the greatest name counts, what is stored are canonical keys, and the
two bounds on matching are exact for the stored patterns, although they are taken from the names in
the rules (`ScopeTable.Exact`).
-/

namespace SyntaxHighlight

open Scope Text

theorem trim_eq_nil_iff {cs : List Char} : trim cs = [] ↔ Blanks cs := by
  constructor
  · intro h
    obtain ⟨g, hg, hcs⟩ := exists_blanks_append_trimStart cs
    obtain ⟨g', hg', hstart⟩ := exists_trimEnd_append_blanks (trimStart cs)
    rw [← trim, h, List.nil_append] at hstart
    rw [hcs, hstart]
    exact hg.append hg'
  · intro h
    rw [trim, trimStart_eq_nil_iff.2 h]
    rfl

theorem isBlankText_iff {s : String} : isBlankText s = true ↔ trim s.toList = [] := by
  rw [trim_eq_nil_iff, isBlankText, List.all_eq_true]
  rfl

/-! ### What is wrong with rules -/

/-- What is wrong with the rule of a type: its term holds nothing but blanks. -/
def typeError? (rule : String × String) : Option GrammarError :=
  if trim rule.2.toList = [] then some (.emptyTerm rule.1) else none

/-- What is wrong with the rule of a pattern: it cannot be read, or else its term holds nothing but
blanks. -/
def scopeError? (rule : String × String) : Option GrammarError :=
  match Pattern.parse rule.1 with
  | .error reason => some (.invalidPattern rule.1 reason)
  | .ok _ => if trim rule.2.toList = [] then some (.emptyTerm rule.1) else none

/-- The error of the first wrong rule, in the order of the bytes of the names. -/
def NameMap.FirstError (m : NameMap String) (wrong : String × String → Option GrammarError)
    (e : GrammarError) : Prop :=
  ∃ name term, m.find? name = some term ∧ wrong (name, term) = some e ∧
    ∀ name' term', m.find? name' = some term' → wrong (name', term') ≠ none →
      name' = name ∨ bytes name < bytes name'

/-- The first error of the rules for types, or else of the rules for patterns. -/
def Rules.FirstError (rules : Rules) (e : GrammarError) : Prop :=
  rules.simpleTerms.FirstError typeError? e ∨
    (∀ name term, rules.simpleTerms.find? name = some term → typeError? (name, term) = none) ∧
      rules.complexScopes.FirstError scopeError? e

/-- Names stand in the order of their bytes. -/
theorem NameMap.bytes_lt_of_entries_eq {m : NameMap String} {front back : List (String × String)}
    {rule : String × String} (h : m.entries = front ++ rule :: back) :
    (∀ r ∈ front, bytes r.1 < bytes rule.1) ∧ ∀ r ∈ back, bytes rule.1 < bytes r.1 := by
  have hincreasing := m.increasing
  rw [h, IncreasingNames, List.pairwise_append, List.pairwise_cons] at hincreasing
  obtain ⟨-, ⟨hback, -⟩, hfront⟩ := hincreasing
  constructor
  · intro r hr
    exact bytes_lt_bytes_iff.2 (hfront r hr rule List.mem_cons_self)
  · intro r hr
    exact bytes_lt_bytes_iff.2 (hback r hr)

/-- In increasing order the first wrong rule is the first in the list. -/
theorem NameMap.findSome?_eq_some_iff {m : NameMap String}
    {wrong : String × String → Option GrammarError} {e : GrammarError} :
    m.entries.findSome? wrong = some e ↔ m.FirstError wrong e := by
  constructor
  · intro h
    obtain ⟨front, ⟨name, term⟩, back, hentries, hwrong, hfront⟩ := List.findSome?_eq_some_iff.1 h
    -- The entries in front of the first wrong one have smaller names, and those behind it greater
    -- ones.
    obtain ⟨-, hlt⟩ := bytes_lt_of_entries_eq hentries
    refine ⟨name, term, mem_entries_iff.1 (by rw [hentries]; simp), hwrong, ?_⟩
    intro name' term' hfind hne
    have hmem := mem_entries_iff.2 hfind
    rw [hentries, List.mem_append, List.mem_cons] at hmem
    rcases hmem with hmem | heq | hmem
    · exact absurd (hfront _ hmem) hne
    · exact .inl (Prod.mk.inj heq).1
    · exact .inr (hlt _ hmem)
  · rintro ⟨name, term, hfind, hwrong, hfirst⟩
    obtain ⟨front, back, hentries⟩ := List.append_of_mem (mem_entries_iff.2 hfind)
    obtain ⟨hlt, -⟩ := bytes_lt_of_entries_eq hentries
    refine List.findSome?_eq_some_iff.2 ⟨front, (name, term), back, hentries, hwrong, ?_⟩
    rintro ⟨name', term'⟩ hmem
    have hfind' : m.find? name' = some term' := mem_entries_iff.1 (by rw [hentries]; simp [hmem])
    by_cases hnone : wrong (name', term') = none
    · exact hnone
    · have hlt := hlt _ hmem
      rcases hfirst name' term' hfind' hnone with heq | hgt
      · exact absurd (heq ▸ hlt) (List.lt_irrefl _)
      · exact absurd hlt (List.lt_asymm hgt)

/-- There is a first error if there is any. -/
theorem NameMap.exists_firstError_iff {m : NameMap String}
    {wrong : String × String → Option GrammarError} :
    (∃ e, m.FirstError wrong e) ↔
      ∃ name term, m.find? name = some term ∧ wrong (name, term) ≠ none := by
  constructor
  · rintro ⟨e, name, term, hfind, hwrong, -⟩
    exact ⟨name, term, hfind, by simp [hwrong]⟩
  · rintro ⟨name, term, hfind, hne⟩
    obtain ⟨e, hfirst⟩ : ∃ e, m.entries.findSome? wrong = some e := by
      rw [← Option.isSome_iff_exists, List.findSome?_isSome_iff]
      exact ⟨(name, term), mem_entries_iff.2 hfind, Option.isSome_iff_ne_none.2 hne⟩
    exact ⟨e, findSome?_eq_some_iff.1 hfirst⟩

/-- There is a first error exactly if some rule is wrong. -/
theorem Rules.exists_firstError_iff {rules : Rules} :
    (∃ e, rules.FirstError e) ↔
      (∃ name term, rules.simpleTerms.find? name = some term ∧ typeError? (name, term) ≠ none) ∨
      ∃ name term, rules.complexScopes.find? name = some term ∧
        scopeError? (name, term) ≠ none := by
  unfold Rules.FirstError
  rw [exists_or, NameMap.exists_firstError_iff, exists_and_left, NameMap.exists_firstError_iff]
  constructor
  · rintro (htype | ⟨-, hscope⟩)
    · exact .inl htype
    · exact .inr hscope
  · rintro (htype | hscope)
    · exact .inl htype
    · by_cases htype : ∃ name term, rules.simpleTerms.find? name = some term ∧
          typeError? (name, term) ≠ none
      · exact .inl htype
      · refine .inr ⟨fun name term hfind => ?_, hscope⟩
        exact Decidable.byContradiction fun hne => htype ⟨name, term, hfind, hne⟩

theorem typeError?_ne_none_iff {name term : String} :
    typeError? (name, term) ≠ none ↔ trim term.toList = [] := by
  simp [typeError?]

theorem scopeError?_ne_none_iff {name term : String} :
    scopeError? (name, term) ≠ none ↔
      (∃ reason, Pattern.parse name = .error reason) ∨ trim term.toList = [] := by
  unfold scopeError?
  cases Pattern.parse name <;> simp

namespace Grammar

theorem checkTerm_eq_error_iff {name term : String} {e : GrammarError} :
    checkTerm name term = .error e ↔ typeError? (name, term) = some e := by
  unfold checkTerm typeError?
  simp only [isBlankText_iff]
  split <;> simp

/-- Adding a rule fails exactly with what is wrong with it, whatever is in the table. -/
theorem addScope_eq_error_iff {table : ScopeTable} {rule : String × String} {e : GrammarError} :
    addScope table rule = .error e ↔ scopeError? rule = some e := by
  unfold addScope scopeError?
  cases Pattern.parse rule.1 with
  | error reason => simp
  | ok p =>
    dsimp only
    rw [bind_eq_error_iff, checkTerm_eq_error_iff, typeError?]
    constructor
    · rintro (h | ⟨term, -, h⟩)
      · exact h
      · cases h
    · exact .inl

theorem forM_checkTerm_eq_error_iff {m : NameMap String} {e : GrammarError} :
    (m.entries.forM fun (name, term) => discard (checkTerm name term)) = .error e ↔
      m.FirstError typeError? e := by
  rw [forM_eq_foldlM, ← NameMap.findSome?_eq_some_iff]
  apply foldlM_eq_error_iff
  intro _ rule e
  exact discard_eq_error_iff.trans checkTerm_eq_error_iff

theorem foldlM_addScope_eq_error_iff {m : NameMap String} {table : ScopeTable}
    {e : GrammarError} :
    m.entries.foldlM addScope table = .error e ↔ m.FirstError scopeError? e := by
  rw [← NameMap.findSome?_eq_some_iff]
  apply foldlM_eq_error_iff
  intro table rule e
  exact addScope_eq_error_iff

/-- There is no grammar exactly if some rule is wrong, and then the first error is given. -/
theorem ofRules_eq_error_iff {language : String} {rules : Rules} {e : GrammarError} :
    ofRules language rules = .error e ↔ rules.FirstError e := by
  rw [ofRules, bind_eq_error_iff, forM_checkTerm_eq_error_iff, Rules.FirstError]
  -- The patterns are looked at only if nothing is wrong with the types.
  refine or_congr_right ⟨?_, ?_⟩
  · rintro ⟨_, hchecked, hrest⟩
    constructor
    · intro name term hfind
      by_cases hwrong : typeError? (name, term) = none
      · exact hwrong
      · obtain ⟨e', hfirst⟩ := NameMap.exists_firstError_iff.2 ⟨name, term, hfind, hwrong⟩
        rw [forM_checkTerm_eq_error_iff.2 hfirst] at hchecked
        cases hchecked
    · rcases bind_eq_error_iff.1 hrest with hfold | ⟨_, -, hok⟩
      · exact foldlM_addScope_eq_error_iff.1 hfold
      · cases hok
  · rintro ⟨hnone, hfirst⟩
    cases hchecked : rules.simpleTerms.entries.forM fun (name, term) =>
        discard (checkTerm name term) with
    | ok u => exact ⟨u, rfl, bind_eq_error_iff.2 (.inl (foldlM_addScope_eq_error_iff.2 hfirst))⟩
    | error e' =>
      obtain ⟨name, term, hfind, hwrong, -⟩ := forM_checkTerm_eq_error_iff.1 hchecked
      rw [hnone name term hfind] at hwrong
      cases hwrong

end Grammar

/-! ### What is stored -/

namespace ScopeTable

/-- A table stores a pattern under its canonical key. -/
def Stores (table : ScopeTable) (p : Pattern) : Prop :=
  Pattern.parse p.canonical = .ok p ∧ table.terms.contains p.canonical = true

/-- A table that stores canonical keys only, and whose bounds are those of the stored patterns. -/
structure Exact (table : ScopeTable) : Prop where
  canonical : ∀ key, table.terms.contains key = true → ∃ p, table.Stores p ∧ p.canonical = key
  depth_le : ∀ p, table.Stores p → p.depth ≤ table.maxDepth
  depth_eq : (∃ p, table.Stores p ∧ p.depth = table.maxDepth) ∨
    (∀ p, ¬ table.Stores p) ∧ table.maxDepth = 0
  order : table.usesOrder = true ↔ ∃ p, table.Stores p ∧ ∃ s ∈ p.segments, s.order.isSome = true

theorem contains_insert_iff {terms : NameMap Term} {key key' : String} {term : Term} :
    (terms.insert key term).contains key' = true ↔ key' = key ∨ terms.contains key' = true := by
  by_cases hkey : key' = key <;> simp [NameMap.contains, hkey]

/-- With a rule its pattern is stored, also where another spelling had the key. -/
theorem stores_insert_iff {table : ScopeTable} {p q : Pattern} {term : Term} {depth : Nat}
    {order : Bool} (hp : Pattern.parse p.canonical = .ok p) :
    Stores ⟨table.terms.insert p.canonical term, depth, order⟩ q ↔ q = p ∨ table.Stores q := by
  unfold Stores
  rw [contains_insert_iff]
  constructor
  · rintro ⟨hq, heq | hold⟩
    · rw [heq, hp] at hq
      exact .inl (Except.ok.inj hq).symm
    · exact .inr ⟨hq, hold⟩
  · rintro (rfl | ⟨hq, hold⟩)
    · exact ⟨hp, .inl rfl⟩
    · exact ⟨hq, .inr hold⟩

theorem exact_empty : Exact {} := by
  have hnone : ∀ p, ¬ Stores {} p := by
    rintro p ⟨-, hcontains⟩
    cases hcontains
  refine ⟨?_, ?_, .inr ⟨hnone, rfl⟩, ?_⟩
  · intro key hcontains
    cases hcontains
  · intro p hp
    exact absurd hp (hnone p)
  · constructor
    · intro horder
      cases horder
    · rintro ⟨p, hp, -⟩
      exact absurd hp (hnone p)

end ScopeTable

namespace Grammar

open ScopeTable

/-- A table stays exact when a rule is added to it. -/
theorem exact_addScope {table table' : ScopeTable} {rule : String × String} (h : table.Exact)
    (hadd : addScope table rule = .ok table') : table'.Exact := by
  obtain ⟨p, hparse, rfl⟩ := addScope_eq_ok hadd
  have hself : Pattern.parse p.canonical = .ok p :=
    Pattern.parse_canonical (parse_eq_ok_iff.1 hparse).1
  refine ⟨?_, ?_, ?_, ?_⟩
  · intro key hkey
    rcases contains_insert_iff.1 hkey with rfl | hold
    · exact ⟨p, (stores_insert_iff hself).2 (.inl rfl), rfl⟩
    · obtain ⟨q, hq, hcanonical⟩ := h.canonical key hold
      exact ⟨q, (stores_insert_iff hself).2 (.inr hq), hcanonical⟩
  · intro q hq
    rcases (stores_insert_iff hself).1 hq with rfl | hq
    · exact Nat.le_max_right _ _
    · exact Nat.le_trans (h.depth_le q hq) (Nat.le_max_left _ _)
  · left
    by_cases hle : table.maxDepth ≤ p.depth
    · exact ⟨p, (stores_insert_iff hself).2 (.inl rfl), (Nat.max_eq_right hle).symm⟩
    · -- A greater depth than that of the new pattern is the depth of a stored one.
      rcases h.depth_eq with ⟨q, hq, hdepth⟩ | ⟨-, hzero⟩
      · refine ⟨q, (stores_insert_iff hself).2 (.inr hq), ?_⟩
        show q.depth = max table.maxDepth p.depth
        omega
      · omega
  · have huses : p.usesOrder = true ↔ ∃ s ∈ p.segments, s.order.isSome = true := List.any_eq_true
    rw [Bool.or_eq_true, huses, h.order]
    constructor
    · rintro (⟨q, hq, hs⟩ | hs)
      · exact ⟨q, (stores_insert_iff hself).2 (.inr hq), hs⟩
      · exact ⟨p, (stores_insert_iff hself).2 (.inl rfl), hs⟩
    · rintro ⟨q, hq, hs⟩
      rcases (stores_insert_iff hself).1 hq with rfl | hq
      · exact .inr hs
      · exact .inl ⟨q, hq, hs⟩

/-- The table of a grammar is exact. -/
theorem exact_scopes {language : String} {rules : Rules} {g : Grammar}
    (h : ofRules language rules = .ok g) : g.scopes.Exact :=
  scopes_induction (motive := fun _ table => table.Exact) exact_empty
    (fun _ _ _ _ => exact_addScope) h

end Grammar

/-! ### Which spelling counts -/

/-- A term belongs to the greatest spelling of a pattern, in the order of the bytes. -/
def Rules.GreatestSpelling (rules : Rules) (key term : String) : Prop :=
  ∃ name, rules.complexScopes.find? name = some term ∧ canonicalKey name = .ok key ∧
    ∀ name', rules.complexScopes.contains name' = true → canonicalKey name' = .ok key →
      name' = name ∨ bytes name' < bytes name

theorem any_canonical_iff {name key : String} :
    (Pattern.parse name).toOption.any (·.canonical = key) = true ↔ canonicalKey name = .ok key := by
  unfold canonicalKey
  cases Pattern.parse name <;> simp [Except.toOption, Except.map]

/-- In increasing order the greatest spelling is the last one. -/
theorem lastTerm?_eq_some_iff {rules : Rules} {key term : String} :
    lastTerm? (·.canonical = key) rules.complexScopes.entries = some term ↔
      rules.GreatestSpelling key term := by
  rw [lastTerm?, Option.map_eq_some_iff]
  simp only [List.find?_eq_some_iff_append, any_canonical_iff]
  -- The last rule for a key is the one with the greatest name, since rules are in the order of
  -- their names.
  constructor
  · rintro ⟨⟨name, term⟩, ⟨hkey, back, front, hreverse, hback⟩, rfl⟩
    have hentries : rules.complexScopes.entries =
        front.reverse ++ (name, term) :: back.reverse := by
      rw [← List.reverse_reverse rules.complexScopes.entries, hreverse]
      simp
    obtain ⟨hlt, -⟩ := NameMap.bytes_lt_of_entries_eq hentries
    refine ⟨name, NameMap.mem_entries_iff.1 (by rw [hentries]; simp), hkey, ?_⟩
    intro name' hcontains hkey'
    obtain ⟨term', hfind⟩ := Option.isSome_iff_exists.1 hcontains
    have hmem := NameMap.mem_entries_iff.2 hfind
    rw [hentries, List.mem_append, List.mem_cons] at hmem
    rcases hmem with hmem | heq | hmem
    · exact .inr (hlt _ hmem)
    · exact .inl (Prod.mk.inj heq).1
    · have hnot := hback _ (List.mem_reverse.1 hmem)
      rw [any_canonical_iff.2 hkey'] at hnot
      cases hnot
  · rintro ⟨name, hfind, hkey, hgreatest⟩
    obtain ⟨front, back, hentries⟩ := List.append_of_mem (NameMap.mem_entries_iff.2 hfind)
    obtain ⟨-, hlt⟩ := NameMap.bytes_lt_of_entries_eq hentries
    refine ⟨(name, term), ⟨hkey, back.reverse, front.reverse, by rw [hentries]; simp, ?_⟩, rfl⟩
    rintro ⟨name', term'⟩ hmem
    have hmem := List.mem_reverse.1 hmem
    have hlt := hlt _ hmem
    rw [Bool.not_eq_true', ← Bool.not_eq_true, any_canonical_iff]
    intro hkey'
    have hcontains : rules.complexScopes.contains name' = true := by
      rw [← NameMap.mem_keys_iff, NameMap.keys, hentries]
      exact List.mem_map.2 ⟨(name', term'), by simp [hmem], rfl⟩
    rcases hgreatest name' hcontains hkey' with heq | hgt
    · exact absurd (heq ▸ hlt) (List.lt_irrefl _)
    · exact absurd hlt (List.lt_asymm hgt)

/-! ### All or nothing -/

namespace Grammar

/-- A grammar holds all of its rules, and nothing else. -/
structure Represents (g : Grammar) (rules : Rules) : Prop where
  simpleTerm : ∀ key, g.simpleTerm? key = rules.simpleTerms.find? key
  isComplex : ∀ key, g.isComplex key = rules.complexTerms.contains key
  scopeTerm : ∀ key term, g.scopeTerm? key = some term ↔ rules.GreatestSpelling key term
  scopes : g.scopes.Exact
  mem_terms : ∀ term, term ∈ g.terms ↔
    (∃ key, g.simpleTerm? key = some term) ∨ ∃ key, g.scopeTerm? key = some term
  terms_increasing : g.terms.Pairwise fun s t => bytes s < bytes t

/-- The terms of a grammar are in the order of their bytes. -/
theorem terms_increasing (g : Grammar) : g.terms.Pairwise fun s t => bytes s < bytes t := by
  simp only [bytes_lt_bytes_iff]
  exact List.pairwise_map.2
    (NameSet.ofList (g.simpleTerms.values ++ g.scopes.terms.values)).members.increasing

/-- A grammar represents the rules that it was made of. -/
theorem represents_of_ofRules {language : String} {rules : Rules} {g : Grammar}
    (h : ofRules language rules = .ok g) : g.Represents rules := by
  obtain ⟨hsimple, hcomplex, hholds⟩ := ofRules_eq_ok h
  constructor
  · intro key
    rw [simpleTerm?, hsimple]
  · intro key
    rw [isComplex, hcomplex]
  · intro key term
    rw [scopeTerm?, hholds.terms, lastTerm?_eq_some_iff]
  · exact exact_scopes h
  · intro term
    exact mem_terms_iff
  · exact terms_increasing g

/-- **A grammar is complete, or there is the first error.** There is no grammar exactly if the term
of a type is blank, a pattern cannot be read or the term of a pattern is blank, and then the error
is that of the first wrong rule, types before patterns, and of a pattern before that of its term.
Otherwise the grammar represents its rules. -/
theorem ofRules_complete_or_error (language : String) (rules : Rules) :
    ((∃ e, ofRules language rules = .error e) ↔
      (∃ name term, rules.simpleTerms.find? name = some term ∧ trim term.toList = []) ∨
      ∃ name term, rules.complexScopes.find? name = some term ∧
        ((∃ reason, Pattern.parse name = .error reason) ∨ trim term.toList = [])) ∧
    (∀ e, ofRules language rules = .error e ↔ rules.FirstError e) ∧
    (∀ g, ofRules language rules = .ok g → g.Represents rules) := by
  refine ⟨?_, fun e => ofRules_eq_error_iff, fun g => represents_of_ofRules⟩
  simp only [ofRules_eq_error_iff, Rules.exists_firstError_iff, typeError?_ne_none_iff,
    scopeError?_ne_none_iff]

end Grammar

namespace Sample

def spelledTwice : Rules where
  complexScopes := .ofList [("a > b", "wide"), ("a>b", "close")]

/-- A pattern without segments and with a blank term, and a pattern with a blank term. -/
def wrongTwice : Rules where
  complexScopes := .ofList [("a", " "), ("", " ")]

end Sample

/-- Of two spellings the greater one counts, and of two errors at one pattern the one of reading
it. -/
theorem Grammar.ofRules_complete_or_error_spellings :
    (∃ g, ofRules "pairs" Sample.spelledTwice = .ok g ∧ g.Represents Sample.spelledTwice ∧
      g.scopeTerm? "a > b" = some "close") ∧
    Sample.wrongTwice.FirstError (.invalidPattern "" .emptySegment) := by
  obtain ⟨-, -, hcomplete⟩ := ofRules_complete_or_error "pairs" Sample.spelledTwice
  obtain ⟨-, herror, -⟩ := ofRules_complete_or_error "pairs" Sample.wrongTwice
  constructor
  · have hterm : (ofRules "pairs" Sample.spelledTwice).toOption.map (·.scopeTerm? "a > b") =
        some (some "close") := by decide +kernel
    cases hrules : ofRules "pairs" Sample.spelledTwice with
    | error e =>
      rw [hrules] at hterm
      cases hterm
    | ok g =>
      rw [hrules] at hterm
      exact ⟨g, rfl, hcomplete g hrules, Option.some.inj hterm⟩
  · have hfirst : (match ofRules "pairs" Sample.wrongTwice with
        | .error e => some e
        | .ok _ => none) = some (.invalidPattern "" .emptySegment) := by decide +kernel
    cases hrules : ofRules "pairs" Sample.wrongTwice with
    | error e =>
      rw [hrules] at hfirst
      exact Option.some.inj hfirst ▸ (herror e).1 hrules
    | ok g =>
      rw [hrules] at hfirst
      cases hfirst

end SyntaxHighlight
