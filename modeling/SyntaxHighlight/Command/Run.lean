import SyntaxHighlight.Command.Arguments
import SyntaxHighlight.Document
import SyntaxHighlight.Language.Registry
import SyntaxHighlight.Settings.Environment

/-!
# Carrying out commands

A command is a function of the files, the environment and the way in which texts are parsed. It
gives the lines to print, or says what went wrong.
-/

namespace SyntaxHighlight

namespace Command

inductive Failure where
  | settings (error : SettingsError)
  | unknownLanguage (file : String)
  | languageDisabled (id : LanguageId)
  | unreadable (file : String)
  | loading (id : LanguageId) (error : LanguageError)
  | grammar (error : GrammarError)
deriving DecidableEq, Repr

def Failure.message : Failure → String
  | .settings e => e.message
  | .unknownLanguage file => "cannot guess the language of " ++ file ++ "; pass --language"
  | .languageDisabled id => "language '" ++ id ++ "' is not enabled in the configuration"
  | .unreadable file => "reading " ++ file
  | .loading id e => "loading " ++ id ++ ": " ++ e.message
  | .grammar e => e.message

/-- The language of a file by what stands behind the last dot of its name. -/
def languageOf? (path : String) : Option LanguageId := do
  match ← Path.extension? path with
  | "c" | "h" => some "c"
  | "cc" | "cpp" | "cxx" | "hh" | "hpp" | "hxx" => some "cpp"
  | "js" | "mjs" | "cjs" | "jsx" => some "javascript"
  | "ts" | "mts" | "cts" | "tsx" => some "typescript"
  | _ => none

/-- The highlights of a text with an enabled term, by start and end; highlights of one range stay
in their order. -/
def sortedHighlights (parse : Parse) (settings : Settings) (language : Language) (text : String) :
    List Highlight :=
  let highlights := (parse language.linked.parser text).highlights language.grammar
  (highlights.filter fun a => settings.enabledTerms.contains a.term).mergeSort
    fun a b => a.range.notAfter b.range

/-- The lines for a highlight: one for each line of text that it covers if they are to be split. -/
def highlightLines (text : String) (splitLines : Bool) (a : Highlight) : List String :=
  if splitLines then (a.range.split text).map fun range => (Highlight.mk a.term range).text
  else [a.text]

def printHighlights (parse : Parse) (files : FileTree) (settings : Settings) (file : String)
    (language : Option LanguageId) (splitLines : Bool) : Except Failure (List String) := do
  let id ← match language.or (languageOf? file) with
    | some id => pure id
    | none => throw (.unknownLanguage file)
  if !settings.enables id then throw (.languageDisabled id)
  let text ← (files.readText file).mapError fun _ => .unreadable file
  let registry : Registry := { runtime := settings.runtime, enabled := settings.languages }
  let loaded ← (registry.load files id).1.outcome.mapError (.loading id)
  return (sortedHighlights parse settings loaded text).flatMap (highlightLines text splitLines)

def printGrammar (files : FileTree) (settings : Settings) (language : LanguageId) :
    Except Failure (List String) := do
  let g ← (Grammar.load files settings.runtime language).mapError .grammar
  return [
    "language:       " ++ g.language,
    "max_depth:      " ++ g.maxDepth.repr,
    "uses_order:     " ++ toString g.usesOrder,
    "simple_terms:   " ++ g.simpleTerms.size.repr,
    "complex_terms:  " ++ g.complexTerms.size.repr,
    "complex_scopes: " ++ g.scopes.terms.size.repr,
    "terms:          " ++ " ".intercalate g.terms]

def printLanguages (files : FileTree) (settings : Settings) : List String :=
  let registry : Registry := { runtime := settings.runtime, enabled := settings.languages }
  registry.available files

end Command

namespace Arguments

def settings (a : Arguments) (files : FileTree) (env : Environment) :
    Except SettingsError Settings := do
  let settings ← match a.config with
    | some path => Settings.load files env.runtimeDirectory path
    | none => Settings.ofUser files env
  return { settings with runtime := a.runtime.getD settings.runtime }

/-- The files that a call may read once its settings are known. -/
def consulted (a : Arguments) (settings : Settings) : List String :=
  let assets (id : LanguageId) : List String :=
    [Grammar.path settings.runtime id, LinkedParser.libraryPath settings.runtime id]
  match a.command with
  | .highlight file language _ =>
    file :: ((language.or (Command.languageOf? file)).map assets).getD []
  | .grammar language => assets language
  | .languages => settings.languages.flatMap assets

/-- Carry out a call: the lines to print. -/
def run (a : Arguments) (parse : Parse) (files : FileTree) (env : Environment) :
    Except Command.Failure (List String) := do
  let settings ← (a.settings files env).mapError .settings
  match a.command with
  | .highlight file language splitLines =>
    Command.printHighlights parse files settings file language splitLines
  | .grammar language => Command.printGrammar files settings language
  | .languages => return Command.printLanguages files settings

end Arguments

/-- What a call leaves behind: its exit status, what it prints, and what it complains about. -/
structure CallResult where
  status : UInt8
  output : String
  complaint : Option String

/-- A call of the program. The complaint about a command that fails is one line. -/
def call (parse : Parse) (files : FileTree) (env : Environment) (arguments : List String) :
    CallResult :=
  match Arguments.parse arguments with
  | .error .help => ⟨0, Arguments.usage, none⟩
  | .error .usage => ⟨2, "", some Arguments.usage⟩
  | .ok a =>
    match a.run parse files env with
    | .ok lines => ⟨0, String.join (lines.map (· ++ "\n")), none⟩
    | .error failure =>
      ⟨1, "", some ("Error: " ++ String.ofList (failure.message.toList.takeWhile (· != '\n')))⟩

end SyntaxHighlight
