import SyntaxHighlight.Files.Tree
import SyntaxHighlight.Grammar.Rules
import SyntaxHighlight.Scope.Reader

/-!
# Grammars

A grammar maps the types of syntax nodes to terms: some types directly, others through scope
patterns. Next to the tables it holds two bounds on what matching has to look at, the greatest depth
of a pattern and whether any pattern counts siblings; both are fixed when the grammar is made.

`Grammar.ofRules` takes the rules in increasing order of their names and stops at the first one that
is wrong, so a grammar is complete or there is none.
-/

namespace SyntaxHighlight

/-- A label for a class of source text, such as `function` or `comment`. -/
abbrev Term := String

inductive GrammarError where
  | notFound (language : String)
  | file (path : String) (error : FileError)
  /-- The rule file is no JSON5, or not of the shape of a rule file. -/
  | malformed (language : String)
  | invalidPattern (pattern : String) (reason : Scope.PatternError)
  | emptyTerm (key : String)
deriving DecidableEq, Repr

def GrammarError.message : GrammarError → String
  | .notFound language => "grammar not found: " ++ language
  | .file path error => "I/O error reading " ++ path ++ ": " ++ error.message
  | .malformed language => "malformed grammar for " ++ language
  | .invalidPattern pattern reason =>
    "invalid scope pattern `" ++ pattern ++ "`: " ++ reason.message
  | .emptyTerm key => "empty term for `" ++ key ++ "`"

/-- The scope patterns of a grammar by their canonical keys, and what matching them needs. -/
structure ScopeTable where
  terms : NameMap Term := .empty
  /-- The greatest number of ancestors that a pattern speaks of. -/
  maxDepth : Nat := 0
  /-- Whether some pattern counts siblings. -/
  usesOrder : Bool := false
deriving DecidableEq

structure Grammar where
  language : String
  simpleTerms : NameMap Term
  complexTerms : NameSet
  scopes : ScopeTable
deriving DecidableEq

namespace Grammar

/-- A term has to hold something other than blanks. -/
def checkTerm (key term : String) : Except GrammarError Term :=
  if Text.isBlankText term then .error (.emptyTerm key) else .ok term

/-- Add a pattern. Of two spellings of one pattern the later counts. -/
def addScope (table : ScopeTable) (rule : String × String) : Except GrammarError ScopeTable :=
  match Scope.Pattern.parse rule.1 with
  | .error reason => .error (.invalidPattern rule.1 reason)
  | .ok pattern => do
    let term ← checkTerm rule.1 rule.2
    return {
      terms := table.terms.insert pattern.canonical term
      maxDepth := max table.maxDepth pattern.depth
      usesOrder := table.usesOrder || pattern.usesOrder }

/-- Make a grammar of its rules: first the types with one term, then the patterns, each in
increasing order of their names. -/
def ofRules (language : String) (rules : Rules) : Except GrammarError Grammar := do
  rules.simpleTerms.entries.forM fun (key, term) => discard (checkTerm key term)
  let scopes ← rules.complexScopes.entries.foldlM addScope {}
  return ⟨language, rules.simpleTerms, rules.complexTerms, scopes⟩

def parse (language text : String) : Except GrammarError Grammar :=
  match Rules.parse text with
  | none => .error (.malformed language)
  | some rules => ofRules language rules

/-- The term of a type that needs no look at its surroundings. -/
def simpleTerm? (g : Grammar) (key : String) : Option Term := g.simpleTerms.find? key

/-- Whether nodes of a type are matched with the scope patterns. -/
def isComplex (g : Grammar) (key : String) : Bool := g.complexTerms.contains key

def scopeTerm? (g : Grammar) (key : String) : Option Term := g.scopes.terms.find? key

/-- How many ancestors of a node matching has to look at. -/
def maxDepth (g : Grammar) : Nat := g.scopes.maxDepth

/-- Whether matching has to count siblings. -/
def usesOrder (g : Grammar) : Bool := g.scopes.usesOrder

/-- Every term that the grammar can give, once each and in increasing order. -/
def terms (g : Grammar) : List Term :=
  (NameSet.ofList (g.simpleTerms.values ++ g.scopes.terms.values)).toList

/-! ### Rule files in a runtime directory -/

def path (runtime language : String) : String :=
  Path.join (Path.join runtime "grammars") (language ++ ".json")

def load (files : FileTree) (runtime language : String) : Except GrammarError Grammar :=
  let file := path runtime language
  if files.pathExists file then
    match files.readText file with
    | .error e => .error (.file file e)
    | .ok text => parse language text
  else .error (.notFound language)

/-- The languages with a rule file in a runtime directory, in increasing order. -/
def installed (files : FileTree) (runtime : String) : List String :=
  match files.list (Path.join runtime "grammars") with
  | .error _ => []
  | .ok names =>
    (names.filterMap fun name =>
      match Path.splitName name with
      | (stem, some "json") => some stem
      | _ => none).mergeSort (fun a b => a ≤ b)

end Grammar

end SyntaxHighlight
