import SyntaxHighlight.Grammar.Basic
import SyntaxHighlight.Proofs.Scope.Canonical

/-!
# What a grammar keeps of its rules

The scope table of a grammar is filled rule by rule. After each rule it holds, for every canonical
key, the term of the last rule that is a spelling of it, and its two bounds cover all patterns so
far (`ScopeTable.Holds`). For a pattern that shares its key with no other, the table answers what
the rules say about the pattern itself (`Grammar.scopeTerm?_canonical`).
-/

namespace SyntaxHighlight

open Scope

/-- The term of the last rule whose pattern passes a test. -/
def lastTerm? (test : Pattern → Bool) (rules : List (String × String)) : Option Term :=
  (rules.reverse.find? fun rule => (Pattern.parse rule.1).toOption.any test).map (·.2)

namespace Rules

def HasPattern (rules : Rules) (p : Pattern) : Prop :=
  ∃ rule ∈ rules.complexScopes.entries, Pattern.parse rule.1 = .ok p

/-- The term of a pattern. Of several spellings the last counts, in the order of the rules. -/
def patternTerm? (rules : Rules) (p : Pattern) : Option Term :=
  lastTerm? (· = p) rules.complexScopes.entries

end Rules

theorem lastTerm?_concat (test : Pattern → Bool) (rules : List (String × String))
    (rule : String × String) {p : Pattern} (hp : Pattern.parse rule.1 = .ok p) :
    lastTerm? test (rules ++ [rule]) =
      if test p = true then some rule.2 else lastTerm? test rules := by
  have htest : (Pattern.parse rule.1).toOption.any test = test p := by rw [hp]; rfl
  rw [lastTerm?, List.reverse_append, List.reverse_singleton, List.singleton_append,
    List.find?_cons, htest]
  cases test p <;> rfl

theorem lastTerm?_congr {test test' : Pattern → Bool} {rules : List (String × String)}
    (h : ∀ rule ∈ rules, ∀ p, Pattern.parse rule.1 = .ok p → test p = test' p) :
    lastTerm? test rules = lastTerm? test' rules := by
  have hfind : ∀ l : List (String × String), (∀ rule ∈ l, rule ∈ rules) →
      (l.find? fun rule => (Pattern.parse rule.1).toOption.any test) =
        l.find? fun rule => (Pattern.parse rule.1).toOption.any test' := by
    intro l hl
    induction l with
    | nil => rfl
    | cons rule l ih =>
      have htest : (Pattern.parse rule.1).toOption.any test =
          (Pattern.parse rule.1).toOption.any test' := by
        cases hp : Pattern.parse rule.1 with
        | error e => rfl
        | ok p => exact h rule (hl rule (by simp)) p hp
      rw [List.find?_cons, List.find?_cons, htest, ih fun r hr => hl r (by simp [hr])]
  rw [lastTerm?, lastTerm?, hfind rules.reverse fun rule => List.mem_reverse.1]

/-- A pattern has a term exactly if some rule spells it. -/
theorem Rules.isSome_patternTerm?_iff {rules : Rules} {p : Pattern} :
    (rules.patternTerm? p).isSome = true ↔ rules.HasPattern p := by
  rw [Rules.patternTerm?, lastTerm?, Option.isSome_map, List.find?_isSome]
  constructor
  · rintro ⟨rule, hrule, htest⟩
    refine ⟨rule, List.mem_reverse.1 hrule, ?_⟩
    cases hp : Pattern.parse rule.1 with
    | error e => simp [hp, Except.toOption] at htest
    | ok p' => simpa [hp, Except.toOption] using htest
  · rintro ⟨rule, hrule, hp⟩
    exact ⟨rule, List.mem_reverse.2 hrule, by simp [hp, Except.toOption]⟩

/-! ### Filling the table -/

/-- A table that answers for some rules. -/
structure ScopeTable.Holds (table : ScopeTable) (rules : List (String × String)) : Prop where
  terms : ∀ key, table.terms.find? key = lastTerm? (·.canonical = key) rules
  /-- The bounds cover the patterns of the rules, and every rule has a pattern. -/
  bounds : ∀ rule ∈ rules, ∃ p, Pattern.parse rule.1 = .ok p ∧ p.depth ≤ table.maxDepth ∧
    (p.usesOrder = true → table.usesOrder = true)

namespace Grammar

theorem checkTerm_eq_ok {key term term' : String} (h : checkTerm key term = .ok term') :
    term' = term := by
  unfold checkTerm at h
  split at h
  · simp at h
  · exact (Except.ok.inj h).symm

/-- What a rule adds: its term under the canonical key of its pattern, and the bounds of the
pattern. -/
theorem addScope_eq_ok {table table' : ScopeTable} {rule : String × String}
    (h : addScope table rule = .ok table') :
    ∃ p, Pattern.parse rule.1 = .ok p ∧ table' =
      { terms := table.terms.insert p.canonical rule.2
        maxDepth := max table.maxDepth p.depth
        usesOrder := table.usesOrder || p.usesOrder } := by
  unfold addScope at h
  split at h
  · cases h
  · next p hp =>
    obtain ⟨term, hterm, h⟩ := bind_eq_ok_iff.1 h
    obtain rfl := checkTerm_eq_ok hterm
    exact ⟨p, hp, (Except.ok.inj h).symm⟩

/-- A table that answers for some rules answers for one more when it is added. -/
theorem holds_addScope {table table' : ScopeTable} {rules : List (String × String)}
    {rule : String × String} (h : table.Holds rules) (hadd : addScope table rule = .ok table') :
    table'.Holds (rules ++ [rule]) := by
  obtain ⟨p, hp, rfl⟩ := addScope_eq_ok hadd
  -- The new rule counts for its key, and the bounds can only grow.
  constructor
  · intro key
    rw [lastTerm?_concat _ rules rule hp, NameMap.find?_insert, h.terms]
    simp [eq_comm]
  · intro r hr
    rcases List.mem_append.1 hr with hr | hr
    · obtain ⟨p', hp', hdepth, horder⟩ := h.bounds r hr
      refine ⟨p', hp', Nat.le_trans hdepth (Nat.le_max_left _ _), ?_⟩
      intro huses
      simp [horder huses]
    · obtain rfl := List.mem_singleton.1 hr
      refine ⟨p, hp, Nat.le_max_right _ _, ?_⟩
      intro huses
      simp [huses]

/-- What holds of a table for some rules, and is kept by every rule that can be added, holds of it
for all of them. -/
theorem foldlM_addScope_induction {motive : List (String × String) → ScopeTable → Prop}
    (hstep : ∀ rules table rule table', motive rules table →
      addScope table rule = .ok table' → motive (rules ++ [rule]) table')
    {rules rest : List (String × String)} {table table' : ScopeTable} (h : motive rules table)
    (hfold : rest.foldlM addScope table = .ok table') : motive (rules ++ rest) table' := by
  induction rest generalizing table rules with
  | nil =>
    obtain rfl := Except.ok.inj hfold
    rwa [List.append_nil]
  | cons rule rest ih =>
    rw [List.foldlM_cons] at hfold
    obtain ⟨next, hadd, hfold⟩ := bind_eq_ok_iff.1 hfold
    have hnext := ih (hstep rules table rule next h hadd) hfold
    rwa [List.append_assoc, List.singleton_append] at hnext

/-- What every rule keeps up holds of the table of a grammar. -/
theorem scopes_induction {motive : List (String × String) → ScopeTable → Prop}
    (hempty : motive [] {})
    (hstep : ∀ rules table rule table', motive rules table →
      addScope table rule = .ok table' → motive (rules ++ [rule]) table')
    {language : String} {rules : Rules} {g : Grammar} (h : ofRules language rules = .ok g) :
    motive rules.complexScopes.entries g.scopes := by
  obtain ⟨_, -, h⟩ := bind_eq_ok_iff.1 h
  obtain ⟨scopes, hscopes, h⟩ := bind_eq_ok_iff.1 h
  obtain rfl := Except.ok.inj h
  exact foldlM_addScope_induction hstep hempty hscopes

/-- A grammar keeps the terms of its rules and a table that answers for their patterns. -/
theorem ofRules_eq_ok {language : String} {rules : Rules} {g : Grammar}
    (h : ofRules language rules = .ok g) :
    g.simpleTerms = rules.simpleTerms ∧ g.complexTerms = rules.complexTerms ∧
      g.scopes.Holds rules.complexScopes.entries := by
  have hempty : ScopeTable.Holds {} [] := ⟨fun key => rfl, by simp⟩
  have hholds : g.scopes.Holds rules.complexScopes.entries :=
    scopes_induction (motive := fun rules table => table.Holds rules) hempty
      (fun _ _ _ _ => holds_addScope) h
  obtain ⟨_, -, h⟩ := bind_eq_ok_iff.1 h
  obtain ⟨scopes, -, h⟩ := bind_eq_ok_iff.1 h
  obtain rfl := Except.ok.inj h
  exact ⟨rfl, rfl, hholds⟩

/-- A grammar answers for a pattern what its rules say, if no other pattern that can be read has its
key. -/
theorem scopeTerm?_canonical {language : String} {rules : Rules} {g : Grammar}
    (h : ofRules language rules = .ok g) {p : Pattern}
    (hp : ∀ p', Readable p'.segments → p'.canonical = p.canonical → p' = p) :
    g.scopeTerm? p.canonical = rules.patternTerm? p := by
  rw [scopeTerm?, (ofRules_eq_ok h).2.2.terms, Rules.patternTerm?]
  apply lastTerm?_congr
  intro rule _ p' hp'
  have hreadable := (parse_eq_ok_iff.1 hp').1
  by_cases heq : p' = p
  · simp [heq]
  · have hne : p'.canonical ≠ p.canonical := fun hkey => heq (hp p' hreadable hkey)
    simp [heq, hne]

/-! ### Terms -/

/-- The listed terms are those of the types and those of the patterns. -/
theorem mem_terms_iff {g : Grammar} {term : Term} :
    term ∈ g.terms ↔ (∃ key, g.simpleTerm? key = some term) ∨
      ∃ key, g.scopeTerm? key = some term := by
  have hvalues : ∀ m : NameMap Term, term ∈ m.values ↔ ∃ key, m.find? key = some term := by
    intro m
    simp [NameMap.values, ← NameMap.mem_entries_iff]
  rw [terms, NameSet.mem_toList_iff, NameSet.contains_ofList, decide_eq_true_eq, List.mem_append,
    hvalues, hvalues]
  rfl

end Grammar

end SyntaxHighlight
