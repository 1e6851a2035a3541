import SyntaxHighlight.Files.Tree
import SyntaxHighlight.Kdl.Reader
import SyntaxHighlight.Settings.Basic

/-!
# Reading settings

Settings are written as a KDL document with a node for each choice:

    languages c cpp
    terms function comment
    highlight-comments #false
    debounce-ms 50
    runtime "/opt/share"

Every node is optional. If a node is given more than once, the last one counts, but all of them have
to be right; unknown nodes are passed over. Both are noted as warnings.
-/

namespace SyntaxHighlight

inductive ValueProblem where
  | unexpectedProperty (name : String)
  | wrongCount (count : Nat)
  | notAString (value : Kdl.Value)
  | notABool (value : Kdl.Value)
  | notAnInteger (value : Kdl.Value)
  | outOfRange (n : Int)
deriving DecidableEq, Repr

def ValueProblem.message : ValueProblem → String
  | .unexpectedProperty name => "unexpected property `" ++ name ++ "`"
  | .wrongCount count => "expected one value, got " ++ count.repr
  | .notAString value => "expected string, got " ++ value.text
  | .notABool value => "expected #true or #false, got " ++ value.text
  | .notAnInteger value => "expected integer, got " ++ value.text
  | .outOfRange n => (Kdl.Value.integer n).text ++ " is out of range"

inductive SettingsError where
  /-- The text is no KDL document. -/
  | notKdl
  | file (path : String) (error : FileError)
  | invalidValue (key : String) (problem : ValueProblem)
deriving DecidableEq, Repr

def SettingsError.message : SettingsError → String
  | .notKdl => "KDL parse error"
  | .file path error => "I/O error reading " ++ path ++ ": " ++ error.message
  | .invalidValue key problem => "invalid value for `" ++ key ++ "`: " ++ problem.message

namespace Settings

/-! ### Values of a node -/

/-- The arguments of a node, which may have no properties. -/
def arguments (entries : List Kdl.Entry) : Except ValueProblem (List Kdl.Value) :=
  entries.mapM fun entry =>
    match entry.name with
    | some name => .error (.unexpectedProperty name)
    | none => .ok entry.value

def argument (entries : List Kdl.Entry) : Except ValueProblem Kdl.Value := do
  match ← arguments entries with
  | [value] => return value
  | values => throw (.wrongCount values.length)

def asString : Kdl.Value → Except ValueProblem String
  | .string text => .ok text
  | value => .error (.notAString value)

def asBool : Kdl.Value → Except ValueProblem Bool
  | .bool b => .ok b
  | value => .error (.notABool value)

/-- A value that is an integer of 64 bits without sign. -/
def asNatural : Kdl.Value → Except ValueProblem Nat
  | .integer n => if 0 ≤ n && n.toNat < UInt64.size then .ok n.toNat else .error (.outOfRange n)
  | value => .error (.notAnInteger value)

/-- The arguments of a node, all strings, of which each counts once. -/
def strings (entries : List Kdl.Entry) : Except ValueProblem (List String) := do
  return (← (← arguments entries).mapM asString).eraseDups

/-! ### Nodes -/

/-- What a node sets; none if its name is unknown. -/
def setting? (name : String) (entries : List Kdl.Entry) :
    Option (Except ValueProblem (Settings → Settings)) :=
  match name with
  | "languages" => some do
    let languages ← strings entries
    return fun s => { s with languages }
  | "terms" => some do
    let terms ← strings entries
    return fun s => { s with terms }
  | "highlight-comments" => some do
    let highlightComments ← asBool (← argument entries)
    return fun s => { s with highlightComments }
  | "debounce-ms" => some do
    let debounce ← asNatural (← argument entries)
    return fun s => { s with debounce }
  | "runtime" => some do
    let runtime ← asString (← argument entries)
    return fun s => { s with runtime }
  | _ => none

/-- Note something that is passed over. -/
def warn (s : Settings) (warning : SettingsWarning) : Settings :=
  { s with warnings := s.warnings ++ [warning] }

/-- Apply nodes in order, given the known names seen before. -/
def applyNodes (s : Settings) (seen : List String) :
    List Kdl.Node → Except SettingsError Settings
  | [] => .ok s
  | node :: rest =>
    match setting? node.name node.entries with
    | none => (s.warn (.unknownNode node.name)).applyNodes seen rest
    | some (.error problem) => .error (.invalidValue node.name problem)
    | some (.ok set) =>
      let s := set s
      let s := if seen.contains node.name then s.warn (.duplicate node.name) else s
      s.applyNodes (node.name :: seen) rest

/-- The settings of a document, starting from those of a user who chooses nothing. -/
def ofNodes (runtime : String) (nodes : List Kdl.Node) : Except SettingsError Settings :=
  (default runtime).applyNodes [] nodes

def parse (runtime text : String) : Except SettingsError Settings :=
  match Kdl.parse text with
  | none => .error .notKdl
  | some nodes => ofNodes runtime nodes

def load (files : FileTree) (runtime path : String) : Except SettingsError Settings :=
  match files.readText path with
  | .error e => .error (.file path e)
  | .ok text => parse runtime text

end Settings

end SyntaxHighlight
