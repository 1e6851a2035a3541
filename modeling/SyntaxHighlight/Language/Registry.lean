import SyntaxHighlight.Language.Basic
import SyntaxHighlight.Names.Set

/-!
# The registry of languages

The registry gets each language ready at most once and keeps the outcome, good or bad, for good.
Loading a language has two steps, between which other loads may go on:

    start   the first load of an enabled language starts the work
    finish  the work ends, and its outcome is kept

A load of a language that is not enabled changes nothing, whatever outcome is kept.
-/

namespace SyntaxHighlight

/-- A language built into the program: its parser, and its rules unless they are in a rule file. -/
structure Builtin where
  provider : ParserProvider
  rules : Option String
deriving DecidableEq

/-- How far the work on a language has come. -/
inductive Progress where
  | running
  | finished (outcome : Outcome)

structure Registry where
  /-- The directory with rule files and parser libraries. -/
  runtime : String
  builtins : NameMap Builtin := .empty
  enabled : List LanguageId
  progress : NameMap Progress := .empty
  /-- How often the work on a language was started. -/
  starts : Nat := 0

namespace Registry

/-- Register a built-in language, in place of any earlier one of the same name. -/
def register (r : Registry) (id : LanguageId) (builtin : Builtin) : Registry :=
  { r with builtins := r.builtins.insert id builtin }

/-- Replace the enabled languages. Outcomes are kept. -/
def setEnabled (r : Registry) (enabled : List LanguageId) : Registry := { r with enabled }

def isEnabled (r : Registry) (id : LanguageId) : Bool := r.enabled.contains id

/-! ### What is available -/

def builtinRules? (r : Registry) (id : LanguageId) : Option String :=
  (r.builtins.find? id).bind (·.rules)

def hasGrammar (r : Registry) (files : FileTree) (id : LanguageId) : Bool :=
  (r.builtinRules? id).isSome || files.pathExists (Grammar.path r.runtime id)

def hasParser (r : Registry) (files : FileTree) (id : LanguageId) : Bool :=
  r.builtins.contains id || files.pathExists (LinkedParser.libraryPath r.runtime id)

/-- The enabled languages with rules and a parser, once each and in increasing order. -/
def available (r : Registry) (files : FileTree) : List LanguageId :=
  (NameSet.ofList (r.enabled.filter fun id => r.hasGrammar files id && r.hasParser files id)).toList

/-! ### Loading -/

/-- Get a language ready: the grammar first, then the parser. -/
def prepare (r : Registry) (files : FileTree) (id : LanguageId) : Outcome := do
  let grammar ← match r.builtinRules? id with
    | some rules => (Grammar.parse id rules).mapError .grammar
    | none => (Grammar.load files r.runtime id).mapError .grammar
  let linked ← match r.builtins.find? id with
    | some builtin => (LinkedParser.load files id builtin.provider).mapError .parser
    | none => (LinkedParser.loadInstalled files r.runtime id).mapError .parser
  return ⟨id, grammar, linked⟩

def get? (r : Registry) (id : LanguageId) : Option Outcome :=
  match r.progress.find? id with
  | some (.finished outcome) => some outcome
  | _ => none

/-- Start the work on a language, unless it was started before. -/
def start (r : Registry) (id : LanguageId) : Registry :=
  if r.progress.contains id then r
  else { r with progress := r.progress.insert id .running, starts := r.starts + 1 }

/-- End the work on a language, if it is going on. -/
def finish (r : Registry) (files : FileTree) (id : LanguageId) : Registry :=
  match r.progress.find? id with
  | some .running => { r with progress := r.progress.insert id (.finished (r.prepare files id)) }
  | _ => r

/-- What a load answers: the outcome that is kept for a language and shared by all its loads, or
a refusal. -/
inductive Answer where
  | kept (id : LanguageId) (outcome : Outcome)
  | refused (id : LanguageId)

def Answer.outcome : Answer → Outcome
  | .kept _ outcome => outcome
  | .refused id => .error (.disabled id)

/-- Whether two answers are one kept outcome. -/
def Answer.shares : Answer → Answer → Bool
  | .kept id _, .kept id' _ => id == id'
  | _, _ => false

/-- Load a language, from its start to its end. -/
def load (r : Registry) (files : FileTree) (id : LanguageId) : Answer × Registry :=
  if r.isEnabled id then
    let r := (r.start id).finish files id
    match r.get? id with
    | some outcome => (.kept id outcome, r)
    | none => (.refused id, r)
  else (.refused id, r)

def loadAll (r : Registry) (files : FileTree) : List LanguageId → List Answer × Registry
  | [] => ([], r)
  | id :: rest =>
    let (answer, r) := r.load files id
    let (answers, r) := r.loadAll files rest
    (answer :: answers, r)

/-- For each answer whether it is the very same as the first. -/
def Answer.sharedWithFirst : List Answer → List Bool
  | [] => []
  | first :: rest => true :: rest.map (first.shares ·)

def debugText (r : Registry) : String :=
  "LanguageRegistry \x7b runtime: " ++ Text.quoted r.runtime ++ ", enabled: ["
    ++ ", ".intercalate (r.enabled.map Text.quoted) ++ "], .. \x7d"

end Registry

end SyntaxHighlight
