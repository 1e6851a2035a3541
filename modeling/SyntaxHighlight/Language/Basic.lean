import SyntaxHighlight.Grammar.Basic
import SyntaxHighlight.Language.Parser

/-!
# Languages

A language that can be highlighted is a grammar and a parser.
-/

namespace SyntaxHighlight

abbrev LanguageId := String

structure Language where
  id : LanguageId
  grammar : Grammar
  linked : LinkedParser
deriving DecidableEq

def Language.debugText (l : Language) : String :=
  "LoadedLanguage \x7b id: " ++ Text.quoted l.id
    ++ ", parser: ParserAsset \x7b abi_version: " ++ l.linked.parser.abiVersion.repr
    ++ ", dynamic: " ++ toString l.linked.fromLibrary ++ " \x7d, .. \x7d"

inductive LanguageError where
  | grammar (error : GrammarError)
  | parser (error : ParserError)
  /-- The language is not among those that the settings enable. -/
  | disabled (id : LanguageId)
deriving DecidableEq, Repr

def LanguageError.message : LanguageError → String
  | .grammar e => e.message
  | .parser e => e.message
  | .disabled id => "language not enabled: " ++ id

abbrev Outcome := Except LanguageError Language

end SyntaxHighlight
