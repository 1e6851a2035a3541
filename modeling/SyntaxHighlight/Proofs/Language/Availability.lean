import Mathlib.Data.List.Induction
import SyntaxHighlight.Proofs.Grammar.Loading
import SyntaxHighlight.Proofs.Language.Traffic

/-!
# Available languages and what loading them gives

Rules come from a registration or from a rule file, and a parser comes from a registration or from a
library. Two parts of the registry look for them: the list of available languages only asks whether
something is there, and a load reads it. A `Stock` is what both of them find, told by the files and
by the registrations in their order.

`Stock.outcome` says what a first load gives, and `Stock.available_agrees_with_load` compares it
with the list. A language in the list may fail to load, but only by what is wrong in its rules or
its parser. That there are none is told exactly of a language for which the list finds none.
-/

namespace SyntaxHighlight

open Text

/-! ### Where errors come from -/

/-- An error in the text of rules is not that there are none. -/
theorem Grammar.parse_ne_notFound (id text name : String) :
    Grammar.parse id text ≠ .error (.notFound name) := by
  intro h
  unfold Grammar.parse at h
  split at h
  · cases h
  · rcases Grammar.ofRules_eq_error_iff.1 h with ⟨key, term, -, hwrong, -⟩ |
      ⟨-, key, term, -, hwrong, -⟩
    · unfold typeError? at hwrong
      split at hwrong <;> cases hwrong
    · unfold scopeError? at hwrong
      split at hwrong
      · cases hwrong
      · split at hwrong <;> cases hwrong

/-- There is no rule file exactly if the grammar is reported as not found. -/
theorem Grammar.load_eq_notFound_iff {files : FileTree} {runtime id name : String} :
    Grammar.load files runtime id = .error (.notFound name) ↔
      name = id ∧ files.pathExists (Grammar.path runtime id) = false := by
  unfold Grammar.load
  dsimp only
  split
  · next hexists =>
    simp only [hexists, Bool.true_eq_false, and_false, iff_false]
    split
    · simp
    · apply Grammar.parse_ne_notFound
  · next hmissing => simp [hmissing, eq_comm]

namespace LinkedParser

theorem checkVersion_ne_notFound (id : String) (linked : LinkedParser) (name : String) :
    checkVersion id linked ≠ .error (.notFound name) := by
  unfold checkVersion
  dsimp only
  split <;> simp

/-- An error in a source of parsers is not that there is none. -/
theorem load_ne_notFound (files : FileTree) (id : String) (provider : ParserProvider)
    (name : String) : LinkedParser.load files id provider ≠ .error (.notFound name) := by
  cases provider with
  | builtin parser => apply checkVersion_ne_notFound
  | library path =>
    intro h
    rcases bind_eq_error_iff.1 h with hfrom | ⟨linked, -, hversion⟩
    · unfold fromLibrary? at hfrom
      split at hfrom
      · split at hfrom <;> cases hfrom
      · cases hfrom
    · exact checkVersion_ne_notFound id linked name hversion

/-- There is no library exactly if the parser is reported as not found. -/
theorem loadInstalled_eq_notFound_iff {files : FileTree} {runtime id name : String} :
    loadInstalled files runtime id = .error (.notFound name) ↔
      name = id ∧ files.pathExists (libraryPath runtime id) = false := by
  unfold loadInstalled
  dsimp only
  split
  · next hexists =>
    simp only [hexists, Bool.true_eq_false, and_false, iff_false]
    apply load_ne_notFound
  · next hmissing => simp [hmissing, eq_comm]

end LinkedParser

/-! ### What there is -/

/-- What languages are made of. -/
structure Stock where
  /-- The directory with rule files and parser libraries. -/
  runtime : String
  /-- The languages that were registered as built in, the latest last. -/
  registered : List (LanguageId × Builtin)
  files : FileTree

namespace Stock

/-- A new registry with the registrations made one after the other. -/
def registry (s : Stock) (enabled : List LanguageId) : Registry :=
  s.registered.foldl (fun r registration => r.register registration.1 registration.2)
    { runtime := s.runtime, enabled }

def last? (s : Stock) (id : LanguageId) : Option Builtin :=
  ((s.registered.filter (·.1 = id)).getLast?).map (·.2)

/-- There are rules for a language: it was registered with rules at last, or has a rule file. -/
def HasRules (s : Stock) (id : LanguageId) : Prop :=
  (∃ builtin rules, s.last? id = some builtin ∧ builtin.rules = some rules) ∨
    s.files.pathExists (Grammar.path s.runtime id) = true

def HasParser (s : Stock) (id : LanguageId) : Prop :=
  (∃ builtin, (id, builtin) ∈ s.registered) ∨
    s.files.pathExists (LinkedParser.libraryPath s.runtime id) = true

/-- What reading the rules of a language gives. A rule file is read only if no rules were
registered. -/
def grammar (s : Stock) (id : LanguageId) : Except GrammarError Grammar :=
  match (s.last? id).bind (·.rules) with
  | some rules => Grammar.parse id rules
  | none => Grammar.load s.files s.runtime id

/-- What taking the parser of a language gives. A library is looked for only if the language was not
registered. -/
def parser (s : Stock) (id : LanguageId) : Except ParserError LinkedParser :=
  match s.last? id with
  | some builtin => LinkedParser.load s.files id builtin.provider
  | none => LinkedParser.loadInstalled s.files s.runtime id

/-- What getting a language ready gives: an error in its rules goes before one in its parser. -/
def prepared (s : Stock) (id : LanguageId) : Outcome :=
  match s.grammar id, s.parser id with
  | .error e, _ => .error (.grammar e)
  | .ok _, .error e => .error (.parser e)
  | .ok grammar, .ok linked => .ok ⟨id, grammar, linked⟩

/-- What a first load of a language gives, where some languages are enabled. -/
def outcome (s : Stock) (enabled : List LanguageId) (id : LanguageId) : Outcome :=
  if id ∈ enabled then s.prepared id else .error (.disabled id)

/-- A registry was stocked by the registrations, whatever is enabled in it and whatever has been
loaded. -/
structure Stocks (s : Stock) (r : Registry) : Prop where
  runtime : r.runtime = s.runtime
  builtins : r.builtins = (s.registry []).builtins

variable {s : Stock} {id : LanguageId}

theorem isSome_last?_iff :
    (s.last? id).isSome = true ↔ ∃ builtin, (id, builtin) ∈ s.registered := by
  rw [last?, Option.isSome_map, List.getLast?_isSome, Ne, List.filter_eq_nil_iff]
  simp

/-- Of several registrations of a language the latest counts. -/
theorem find?_registry (s : Stock) (enabled : List LanguageId) (id : LanguageId) :
    (s.registry enabled).builtins.find? id = s.last? id := by
  obtain ⟨runtime, registered, files⟩ := s
  unfold registry last?
  dsimp only
  induction registered using List.reverseRecOn with
  | nil => rfl
  | append_singleton earlier registration ih =>
    rw [List.foldl_append, List.foldl_cons, List.foldl_nil, Registry.register,
      NameMap.find?_insert, ih, List.filter_append, List.getLast?_append]
    by_cases heq : id = registration.1
    · simp [heq]
    · simp [heq, Ne.symm heq]

namespace Stocks

variable {r : Registry}

theorem find? (h : s.Stocks r) (id : LanguageId) : r.builtins.find? id = s.last? id := by
  rw [h.builtins, find?_registry]

theorem builtinRules? (h : s.Stocks r) (id : LanguageId) :
    r.builtinRules? id = (s.last? id).bind (·.rules) := by
  rw [Registry.builtinRules?, h.find?]

/-! ### What the list of available languages finds -/

/-- A registry finds rules for a language exactly if there are any in the stock. -/
theorem hasGrammar_iff (h : s.Stocks r) : r.hasGrammar s.files id = true ↔ s.HasRules id := by
  rw [Registry.hasGrammar, h.builtinRules?, h.runtime, Bool.or_eq_true, HasRules,
    Option.isSome_iff_exists]
  simp only [Option.bind_eq_some_iff]
  rw [exists_comm]

theorem hasParser_iff (h : s.Stocks r) : r.hasParser s.files id = true ↔ s.HasParser id := by
  rw [Registry.hasParser, NameMap.contains, h.find?, h.runtime, Bool.or_eq_true, HasParser,
    isSome_last?_iff]

/-- A language is available exactly if it is enabled and has rules and a parser. -/
theorem mem_available_iff (h : s.Stocks r) :
    id ∈ r.available s.files ↔ id ∈ r.enabled ∧ s.HasRules id ∧ s.HasParser id := by
  rw [Registry.available, NameSet.mem_toList_iff, NameSet.contains_ofList, decide_eq_true_iff,
    List.mem_filter, Bool.and_eq_true, h.hasGrammar_iff, h.hasParser_iff]

/-! ### What a load finds -/

theorem start (h : s.Stocks r) (id : LanguageId) : s.Stocks (r.start id) := by
  unfold Registry.start
  split
  · exact h
  · exact ⟨h.runtime, h.builtins⟩

theorem prepareGrammar_eq (h : s.Stocks r) (id : LanguageId) :
    r.prepareGrammar s.files id = (s.grammar id).mapError .grammar := by
  rw [Registry.prepareGrammar, h.builtinRules?, h.runtime, grammar]
  cases (s.last? id).bind (·.rules) <;> rfl

theorem prepareParser_eq (h : s.Stocks r) (id : LanguageId) :
    r.prepareParser s.files id = (s.parser id).mapError .parser := by
  rw [Registry.prepareParser, h.find?, h.runtime, parser]
  cases s.last? id <;> rfl

/-- Getting a language ready depends on its latest registration and the files only. -/
theorem prepare_eq (h : s.Stocks r) (id : LanguageId) :
    r.prepare s.files id = s.prepared id := by
  rw [Registry.prepare_eq_bind, h.prepareGrammar_eq, h.prepareParser_eq, prepared]
  cases s.grammar id <;> cases s.parser id <;> rfl

/-- The first load of a language. -/
theorem outcome_load (h : s.Stocks r) (hfirst : r.progress.find? id = none) :
    (r.load s.files id).1.outcome = s.outcome r.enabled id := by
  unfold outcome
  split
  · next henabled =>
    have hload := Registry.load_of_none (List.contains_iff_mem.2 henabled) hfirst s.files
    rw [hload]
    exact (h.start id).prepare_eq id
  · next hdisabled =>
    have hrefused : ¬ r.isEnabled id = true := mt List.contains_iff_mem.1 hdisabled
    rw [Registry.load, if_neg hrefused]
    rfl

end Stocks

theorem outcome_eq_disabled_iff {enabled : List LanguageId} {name : LanguageId} :
    s.outcome enabled id = .error (.disabled name) ↔ name = id ∧ id ∉ enabled := by
  unfold outcome prepared
  split
  · next henabled => split <;> simp [henabled]
  · next hdisabled => simp [hdisabled, eq_comm]

theorem outcome_eq_grammar_iff {enabled : List LanguageId} {e : GrammarError} :
    s.outcome enabled id = .error (.grammar e) ↔ id ∈ enabled ∧ s.grammar id = .error e := by
  unfold outcome prepared
  split
  · next henabled => cases s.grammar id <;> cases s.parser id <;> simp [henabled]
  · next hdisabled => simp [hdisabled]

theorem outcome_eq_parser_iff {enabled : List LanguageId} {e : ParserError} :
    s.outcome enabled id = .error (.parser e) ↔
      id ∈ enabled ∧ (∃ g, s.grammar id = .ok g) ∧ s.parser id = .error e := by
  unfold outcome prepared
  split
  · next henabled => cases s.grammar id <;> cases s.parser id <;> simp [henabled]
  · next hdisabled => simp [hdisabled]

/-- A first load succeeds exactly if the language is enabled and both of its parts can be had. -/
theorem outcome_eq_ok_iff {enabled : List LanguageId} {language : Language} :
    s.outcome enabled id = .ok language ↔
      id ∈ enabled ∧ ∃ g linked, s.grammar id = .ok g ∧ s.parser id = .ok linked ∧
        language = ⟨id, g, linked⟩ := by
  unfold outcome prepared
  split
  · next henabled => cases s.grammar id <;> cases s.parser id <;> simp [henabled, eq_comm]
  · next hdisabled => simp [hdisabled]

/-- The rules of a language are not found exactly if there are none. -/
theorem grammar_eq_notFound_iff {name : String} :
    s.grammar id = .error (.notFound name) ↔ name = id ∧ ¬ s.HasRules id := by
  unfold grammar HasRules
  cases hlast : s.last? id with
  | none => simp [Grammar.load_eq_notFound_iff]
  | some builtin =>
    cases hrules : builtin.rules with
    | none => simp [hrules, Grammar.load_eq_notFound_iff]
    | some rules => simp [hrules, Grammar.parse_ne_notFound]

/-- The parser of a language is not found exactly if there is none. -/
theorem parser_eq_notFound_iff {name : String} :
    s.parser id = .error (.notFound name) ↔ name = id ∧ ¬ s.HasParser id := by
  unfold parser HasParser
  rw [← isSome_last?_iff]
  cases s.last? id with
  | none => simp [LinkedParser.loadInstalled_eq_notFound_iff]
  | some builtin => simp [LinkedParser.load_ne_notFound]

/-- Rules that could be read are there. -/
theorem hasRules_of_grammar {g : Grammar} (h : s.grammar id = .ok g) : s.HasRules id := by
  by_contra hnone
  rw [grammar_eq_notFound_iff.2 ⟨rfl, hnone⟩] at h
  cases h

/-- A parser that could be taken is there. -/
theorem hasParser_of_linked {linked : LinkedParser} (h : s.parser id = .ok linked) :
    s.HasParser id := by
  by_contra hnone
  rw [parser_eq_notFound_iff.2 ⟨rfl, hnone⟩] at h
  cases h

/-- What the outcome of a first load says about the sources of a language. -/
structure Explains (s : Stock) (available enabled : List LanguageId) (id : LanguageId)
    (outcome : Outcome) : Prop where
  ready : ∀ language, outcome = .ok language → id ∈ available
  disabled : ∀ name, outcome = .error (.disabled name) ↔ name = id ∧ id ∉ enabled
  noRules : ∀ name, outcome = .error (.grammar (.notFound name)) ↔
    name = id ∧ id ∈ enabled ∧ ¬ s.HasRules id
  noParser : ∀ name, outcome = .error (.parser (.notFound name)) ↔
    name = id ∧ id ∈ enabled ∧ (∃ g, s.grammar id = .ok g) ∧ ¬ s.HasParser id
  /-- Whatever is wrong with the rules is told, and what is wrong with the parser is not. -/
  grammarFirst : ∀ e, outcome = .error (.grammar e) ↔ id ∈ enabled ∧ s.grammar id = .error e
  parserNext : ∀ e, outcome = .error (.parser e) ↔
    id ∈ enabled ∧ (∃ g, s.grammar id = .ok g) ∧ s.parser id = .error e

/-- The outcome of a first load tells what the stock has for the language. -/
theorem Stocks.explains {r : Registry} (h : s.Stocks r) (id : LanguageId) :
    s.Explains (r.available s.files) r.enabled id (s.outcome r.enabled id) := by
  constructor
  case ready =>
    intro language hok
    obtain ⟨henabled, g, linked, hgrammar, hparser, -⟩ := outcome_eq_ok_iff.1 hok
    exact h.mem_available_iff.2
      ⟨henabled, hasRules_of_grammar hgrammar, hasParser_of_linked hparser⟩
  case disabled => exact fun name => outcome_eq_disabled_iff
  -- The rules are read first, so their absence is reported whether or not there is a parser.
  case noRules =>
    intro name
    rw [outcome_eq_grammar_iff, grammar_eq_notFound_iff, and_left_comm]
  case noParser =>
    intro name
    rw [outcome_eq_parser_iff, parser_eq_notFound_iff]
    tauto
  case grammarFirst => exact fun e => outcome_eq_grammar_iff
  case parserNext => exact fun e => outcome_eq_parser_iff

/-- **The list of available languages agrees with what loading gives.** Let a registry be stocked by
any registrations, of which the latest of a language counts, and let any languages be enabled.

* The list is in the order of the bytes of the names, without repetitions, and holds the languages
  that are enabled and have rules and a parser.
* A first load with the same files succeeds only for a language in the list. It refuses the
  languages that are not enabled, and misses the rules or the parser exactly of those that have
  none; whatever is wrong with the rules goes before everything that is wrong with the parser. -/
theorem available_agrees_with_load (s : Stock) {r : Registry} (h : s.Stocks r) :
    (r.available s.files).Pairwise (fun a b => bytes a < bytes b) ∧
    (∀ id, id ∈ r.available s.files ↔ id ∈ r.enabled ∧ s.HasRules id ∧ s.HasParser id) ∧
    ∀ id, r.progress.find? id = none →
      s.Explains (r.available s.files) r.enabled id (r.load s.files id).1.outcome := by
  refine ⟨?_, fun id => h.mem_available_iff, ?_⟩
  · simp only [bytes_lt_bytes_iff]
    exact List.pairwise_map.2 (NameSet.ofList _).members.increasing
  · intro id hfirst
    rw [h.outcome_load hfirst]
    exact h.explains id

end Stock

namespace Sample

/-- One language is registered twice, the second time with rules; another one has an empty text for
its rules and a parser that is too old. -/
def shelf : Stock where
  runtime := ""
  registered :=
    [("digits", ⟨.builtin ⟨"digits", newestVersion⟩, none⟩),
      ("torn", ⟨.builtin ⟨"torn", 3⟩, some ""⟩),
      ("digits", ⟨.builtin ⟨"digits", newestVersion⟩, some "\x7b\x7d"⟩)]
  files := .empty "/"

open Json5 in
theorem grammar_torn : shelf.grammar "torn" = .error (.malformed "torn") := by
  have htokens : tokens [] = some [] := by
    have hblanks : skipBlanks [] = [] := by rw [skipBlanks.eq_def]
    rw [tokens, hblanks]
    simp [token?]
  have hvalue : Value.parse "" = none := by
    rw [Value.parse, show "".toList = [] from rfl, htokens]
    simp [readValue]
  show Grammar.parse "torn" "" = _
  rw [Grammar.parse, Rules.parse, hvalue]
  rfl

end Sample

/-- The second registration counts, a language that is not enabled is refused, and of a language
without a grammar or a parser that can be used the grammar is told. -/
theorem Stock.available_agrees_with_load_shelf :
    ∃ r, r = Sample.shelf.registry ["torn", "digits", "digits"] ∧
      Sample.shelf.Stocks r ∧
      (∀ id, r.progress.find? id = none) ∧
      "digits" ∈ r.available Sample.shelf.files ∧
      (r.load Sample.shelf.files "signs").1.outcome = .error (.disabled "signs") ∧
      (r.load Sample.shelf.files "torn").1.outcome = .error (.grammar (.malformed "torn")) := by
  have hstocks : Sample.shelf.Stocks (Sample.shelf.registry ["torn", "digits", "digits"]) :=
    ⟨rfl, rfl⟩
  obtain ⟨-, havailable, hload⟩ := available_agrees_with_load Sample.shelf hstocks
  refine ⟨_, rfl, hstocks, fun _ => rfl, ?_, ?_, ?_⟩
  · exact (havailable "digits").2 ⟨by decide, .inl ⟨_, _, rfl, rfl⟩, .inl ⟨_, List.mem_cons_self⟩⟩
  · exact ((hload "signs" rfl).disabled "signs").2 ⟨rfl, by decide⟩
  · exact ((hload "torn" rfl).grammarFirst _).2 ⟨by decide, Sample.grammar_torn⟩

end SyntaxHighlight
