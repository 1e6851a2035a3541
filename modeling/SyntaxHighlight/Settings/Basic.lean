import SyntaxHighlight.Legend
import SyntaxHighlight.Names.Set

/-!
# Settings

What a user can choose: the languages and terms that are enabled, whether comments are highlighted,
the delay of debounced work, and the directory with rule files and parsers.
-/

namespace SyntaxHighlight

inductive SettingsWarning where
  | unknownNode (name : String)
  | duplicate (name : String)
deriving DecidableEq, Repr

def SettingsWarning.message : SettingsWarning → String
  | .unknownNode name => "unknown config node '" ++ name ++ "' ignored"
  | .duplicate name => "'" ++ name ++ "' given more than once; last value wins"

structure Settings where
  languages : List String
  terms : List Term
  highlightComments : Bool
  /-- The delay of debounced work in milliseconds. -/
  debounce : Nat
  /-- The directory with rule files and parser libraries. -/
  runtime : String
  warnings : List SettingsWarning
deriving DecidableEq, Repr

namespace Settings

/-- The settings of a user who chooses nothing. -/
def default (runtime : String) : Settings where
  languages := ["c", "cpp", "javascript", "typescript"]
  terms := defaultTerms
  highlightComments := true
  debounce := 20
  runtime := runtime
  warnings := []

/-- The term that is enabled only if comments are highlighted. -/
def commentTerm : Term := "comment"

def enabledTerms (s : Settings) : NameSet :=
  .ofList (s.terms.filter fun t => s.highlightComments || t != commentTerm)

def enables (s : Settings) (id : String) : Bool := s.languages.contains id

end Settings

end SyntaxHighlight
