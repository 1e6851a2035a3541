import SyntaxHighlight.Files.Tree
import SyntaxHighlight.Text.Quoted

/-!
# Parsers

A parser is built into the program or exported by a library in the `parsers` directory of a runtime
directory. It can be used if it was built for a supported version of the parser interface.
-/

namespace SyntaxHighlight

inductive ParserError where
  | notFound (language : String)
  /-- The file is no loadable library. -/
  | library (path : String)
  | missingSymbol (path symbol : String)
  | incompatible (language : String) (version : Nat)
deriving DecidableEq, Repr

def oldestVersion : Nat := 13

def newestVersion : Nat := 15

def ParserError.message : ParserError → String
  | .notFound language => "parser not found: " ++ language
  | .library path => "failed to load parser library " ++ path
  | .missingSymbol path symbol => "parser library " ++ path ++ " missing symbol " ++ symbol
  | .incompatible language version =>
    "parser for " ++ language ++ " is incompatible: Incompatible language version " ++ version.repr
      ++ ". Expected minimum " ++ oldestVersion.repr ++ ", maximum " ++ newestVersion.repr

inductive ParserProvider where
  | builtin (parser : Parser)
  | library (path : String)
deriving DecidableEq, Repr

def ParserProvider.debugText : ParserProvider → String
  | .builtin _ => "Builtin"
  | .library path => "Library(" ++ Text.quoted path ++ ")"

/-- A parser that can be used, and whether it comes from a library. -/
structure LinkedParser where
  parser : Parser
  fromLibrary : Bool
deriving DecidableEq, Repr

namespace LinkedParser

def safeName (language : String) : String :=
  String.ofList (language.toList.map fun c => if c = '-' then '_' else c)

/-- The symbol under which a library exports the parser of a language. -/
def symbol (language : String) : String := "tree_sitter_" ++ safeName language

def libraryPath (runtime language : String) : String :=
  Path.join (Path.join runtime "parsers") ("lib" ++ safeName language ++ ".so")

/-- A name as it is handed to the loader of libraries. It may have a NUL at its end, which is not
part of it; no name holds another. -/
def loaderName? (name : String) : Option (List Char) :=
  let chars := name.toList
  let chars := if chars.getLast? = some '\x00' then chars.dropLast else chars
  if chars.contains '\x00' then none else some chars

/-- What the loader finds at a path: the parsers that are exported there by symbol. A library given
by its mere name is not looked for, and the empty path leads to the program itself, which exports no
parser. -/
def exportsAt? (files : FileTree) (path : String) : Option (NameMap Parser) := do
  let chars ← loaderName? path
  if chars.isEmpty then return .empty
  if !chars.contains '/' then failure
  match files.resolve (String.ofList chars) with
  | .ok (.library exports) => return exports
  | _ => failure

/-- The parser that is exported under a symbol. -/
def exported? (exports : NameMap Parser) (symbol : String) : Option Parser := do
  exports.find? (String.ofList (← loaderName? symbol))

def fromLibrary? (files : FileTree) (language path : String) : Except ParserError LinkedParser :=
  match exportsAt? files path with
  | some exports =>
    match exported? exports (symbol language) with
    | some parser => .ok ⟨parser, true⟩
    | none => .error (.missingSymbol path (symbol language))
  | none => .error (.library path)

def checkVersion (language : String) (linked : LinkedParser) : Except ParserError LinkedParser :=
  let version := linked.parser.abiVersion
  if oldestVersion ≤ version && version ≤ newestVersion then .ok linked
  else .error (.incompatible language version)

def load (files : FileTree) (language : String) : ParserProvider → Except ParserError LinkedParser
  | .builtin parser => checkVersion language ⟨parser, false⟩
  | .library path => do checkVersion language (← fromLibrary? files language path)

def loadInstalled (files : FileTree) (runtime language : String) :
    Except ParserError LinkedParser :=
  let path := libraryPath runtime language
  if files.pathExists path then load files language (.library path)
  else .error (.notFound language)

end LinkedParser

end SyntaxHighlight
