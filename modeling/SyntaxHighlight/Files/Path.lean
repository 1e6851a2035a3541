/-!
# Paths

A path is a text whose components are separated by `/`; it is absolute if it starts with one.
-/

namespace SyntaxHighlight.Path

def isAbsolute (path : String) : Bool := path.toList.head? == some '/'

/-- A path below another. An absolute path is itself, whatever it is put below. -/
def join (base name : String) : String :=
  if isAbsolute name then name
  else if base.isEmpty || base.toList.getLast? == some '/' then base ++ name
  else base ++ "/" ++ name

/-- The components of a path; two slashes in a row have an empty component between them. -/
def components (path : String) : List String := (path.toList.splitOn '/').map String.ofList

/-- The last component that names something, without regard to slashes and dots behind it. -/
def fileName? (path : String) : Option String :=
  match (components path).filter (fun c => c != "" && c != ".") |>.getLast? with
  | some ".." => none
  | name => name

/-- The part of a file name before its last dot, and the part behind it. A dot in front of a name
does not count. -/
def splitName (name : String) : String × Option String :=
  match name.toList.reverse.dropWhile (· != '.') with
  | [] => (name, none)
  | [_] => (name, none)
  | _ :: stem =>
    let extension := (name.toList.reverse.takeWhile (· != '.')).reverse
    (String.ofList stem.reverse, some (String.ofList extension))

def extension? (path : String) : Option String := do (splitName (← fileName? path)).2

end SyntaxHighlight.Path
