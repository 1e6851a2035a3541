import SyntaxHighlight.Files.Path
import SyntaxHighlight.Names.Map

/-!
# File trees

A `FileTree` is what a file system held at one moment: directories, files with their bytes, and
parser libraries with the parsers they export. Reading it is a function, so everything that depends
on files is a function of the tree.
-/

namespace SyntaxHighlight

/-- A parser: which one it is, and the version of the interface that it was built for. -/
structure Parser where
  name : String
  abiVersion : Nat
deriving DecidableEq, Repr

/-- What a path may lead to. -/
inductive FileNode where
  | directory
  | file (bytes : ByteArray)
  /-- A loadable library and the parsers it exports by symbol. -/
  | library (exports : NameMap Parser)

inductive FileError where
  | notFound
  | notADirectory
  | isADirectory
  | invalidUtf8
deriving DecidableEq, Repr

def FileError.message : FileError → String
  | .notFound => "No such file or directory (os error 2)"
  | .notADirectory => "Not a directory (os error 20)"
  | .isADirectory => "Is a directory (os error 21)"
  | .invalidUtf8 => "stream did not contain valid UTF-8"

/-- Everything below the root by its absolute path, and the directory where relative paths start. -/
structure FileTree where
  nodes : NameMap FileNode
  workingDirectory : String

namespace FileTree

/-- The absolute path of a place given by the names that lead to it, the last one first. -/
def absolute (place : List String) : String :=
  place.reverse.foldl (fun path name => path ++ "/" ++ name) ""

/-- What stands at a place; the root is a directory. -/
def node? (t : FileTree) (place : List String) : Option FileNode :=
  match place with
  | [] => some .directory
  | _ => t.nodes.find? (absolute place)

/-- Follow one component of a path from a place. -/
def step (t : FileTree) (place : List String) (component : String) :
    Except FileError (List String) :=
  match t.node? place with
  | none => .error .notFound
  | some .directory =>
    if component = "" || component = "." then .ok place
    else if component = ".." then .ok place.tail
    else if (t.node? (component :: place)).isSome then .ok (component :: place)
    else .error .notFound
  | some _ => .error .notADirectory

/-- Follow a path to its place. -/
def locate (t : FileTree) (path : String) : Except FileError (List String) := do
  if path.isEmpty then throw .notFound
  let start ← if Path.isAbsolute path then pure [] else
    (Path.components t.workingDirectory).foldlM t.step []
  (Path.components path).foldlM t.step start

def resolve (t : FileTree) (path : String) : Except FileError FileNode := do
  match t.node? (← t.locate path) with
  | some node => return node
  | none => throw .notFound

def pathExists (t : FileTree) (path : String) : Bool :=
  match t.resolve path with
  | .ok _ => true
  | .error _ => false

/-- Whether a path leads to something that is no directory. -/
def isFile (t : FileTree) (path : String) : Bool :=
  match t.resolve path with
  | .ok .directory => false
  | .ok _ => true
  | .error _ => false

def readText (t : FileTree) (path : String) : Except FileError String := do
  match ← t.resolve path with
  | .directory => throw .isADirectory
  | .library _ => throw .invalidUtf8
  | .file bytes =>
    match String.fromUTF8? bytes with
    | some text => return text
    | none => throw .invalidUtf8

/-- The names in a directory, in increasing order. -/
def list (t : FileTree) (path : String) : Except FileError (List String) := do
  let place ← t.locate path
  match t.node? place with
  | none => throw .notFound
  | some .directory =>
    let parent := absolute place ++ "/"
    return t.nodes.keys.filterMap fun path =>
      match path.toList.drop parent.length with
      | [] => none
      | name =>
        if path.startsWith parent && !name.contains '/' then some (String.ofList name) else none
  | some _ => throw .notADirectory

/-! ### Building trees -/

def empty (workingDirectory : String) : FileTree := ⟨.empty, workingDirectory⟩

/-- Put a node at an absolute path, with the directories above it. -/
def write (t : FileTree) (path : String) (node : FileNode) : FileTree :=
  let names := (Path.components path).filter (· != "")
  let parents := (List.range names.length).tail.map fun n => absolute (names.take n).reverse
  let addParent (nodes : NameMap FileNode) (p : String) : NameMap FileNode :=
    if nodes.contains p then nodes else nodes.insert p .directory
  { t with nodes := (parents.foldl addParent t.nodes).insert (absolute names.reverse) node }

/-- Remove the file at an absolute path; directories stay. -/
def remove (t : FileTree) (path : String) : Bool × FileTree :=
  match t.nodes.find? path with
  | some (.file _) | some (.library _) => (true, { t with nodes := t.nodes.erase path })
  | _ => (false, t)

end FileTree

end SyntaxHighlight
