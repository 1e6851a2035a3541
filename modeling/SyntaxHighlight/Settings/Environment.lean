import SyntaxHighlight.Settings.Reader

/-!
# Where settings are found

Environment variables say where a user keeps settings and where rule files and parsers are.
-/

namespace SyntaxHighlight

/-- The environment variables that count, as far as they are set. -/
structure Environment where
  /-- The variable `TINCT_RUNTIME`. -/
  runtime : Option String := none
  /-- The variable `XDG_DATA_HOME`. -/
  dataHome : Option String := none
  /-- The variable `XDG_CONFIG_HOME`. -/
  configHome : Option String := none
  /-- The variable `HOME`. -/
  home : Option String := none
deriving DecidableEq, Repr

namespace Environment

/-- A base directory: what a variable says if that is an absolute path, and otherwise a directory
below the home directory, unless the name of that is empty. -/
def baseDirectory? (env : Environment) (named : Option String) (below : String) : Option String :=
  match named.filter Path.isAbsolute with
  | some path => some path
  | none => (env.home.filter (!·.isEmpty)).map (Path.join · below)

def runtimeDirectory (env : Environment) : String :=
  match env.runtime with
  | some runtime => runtime
  | none =>
    match env.baseDirectory? env.dataHome ".local/share" with
    | some base => Path.join base "tinct"
    | none => "."

def settingsPath? (env : Environment) : Option String :=
  (env.baseDirectory? env.configHome ".config").map fun base =>
    Path.join (Path.join base "tinct") "config.kdl"

end Environment

namespace Settings

/-- Read the settings file of the user if there is one. -/
def ofUser (files : FileTree) (env : Environment) : Except SettingsError Settings :=
  match env.settingsPath? with
  | some path =>
    if files.isFile path then load files env.runtimeDirectory path
    else .ok (default env.runtimeDirectory)
  | none => .ok (default env.runtimeDirectory)

end Settings

end SyntaxHighlight
