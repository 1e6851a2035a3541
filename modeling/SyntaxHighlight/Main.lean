import SyntaxHighlight.Command.Run

/-!
# The program

The outer layer: it looks at the files that a call may read, carries the call out, and prints.
Parser libraries are shared objects, which this program has no loader for, so it takes every library
for a file that is none.
-/

namespace SyntaxHighlight.Program

/-- What stands at a path; none if nothing does. Whatever is there and cannot be read as a file is
taken for a directory. -/
def look (path : String) : IO (Option FileNode) := do
  match ← (IO.FS.readBinFile path).toBaseIO with
  | .ok bytes => return some (.file bytes)
  | .error (.noFileOrDirectory _ _ _) => return none
  | .error (.noSuchThing _ _ _) => return none
  | .error _ => return some .directory

/-- Add what stands at a path, and at every place on the way to it. -/
def record (files : FileTree) (path : String) : IO FileTree := do
  let absolute := if Path.isAbsolute path then path else Path.join files.workingDirectory path
  let mut files := files
  let mut place : List String := []
  for component in Path.components absolute do
    if component = ".." then place := place.tail
    else if component != "" && component != "." then
      place := component :: place
      let here := FileTree.absolute place
      match ← look here with
      | some node => files := files.write here node
      | none => break
  return files

def environment : IO Environment := do
  return {
    runtime := ← IO.getEnv "TINCT_RUNTIME"
    dataHome := ← IO.getEnv "XDG_DATA_HOME"
    configHome := ← IO.getEnv "XDG_CONFIG_HOME"
    home := ← IO.getEnv "HOME" }

def snapshot (env : Environment) (arguments : List String) : IO FileTree := do
  let directory := toString (← IO.currentDir)
  let files ← record (.empty directory) directory
  match Arguments.parse arguments with
  | .error _ => return files
  | .ok a =>
    let files ← (a.config.or env.settingsPath?).toList.foldlM record files
    match a.settings files env with
    | .error _ => return files
    | .ok settings => (a.consulted settings).foldlM record files

/-- The tree of a text without a parser: one node for nothing. -/
def noParse : Parse := fun _ _ => .node ⟨0, "", true, ⟨.origin, .origin⟩⟩ []

end SyntaxHighlight.Program

open SyntaxHighlight SyntaxHighlight.Program in
def main (arguments : List String) : IO UInt32 := do
  let env ← environment
  let files ← snapshot env arguments
  let result := call noParse files env arguments
  IO.print result.output
  match result.complaint with
  | some complaint => IO.eprintln complaint
  | none => pure ()
  return result.status.toUInt32
