/-!
# Command line arguments

The program has three commands, and options that may stand before the command or behind it:

    highlight FILE [-l ID | --language ID] [--split-lines]
    grammar ID
    languages

    -c PATH | --config PATH    -r DIR | --runtime DIR    -v | --verbose

Arguments are read from left to right. A request for help, or the first argument that is wrong,
decides what becomes of the call. An option whose value is an argument of its own is found wrong
only when the next option of its level, or the end of the level, is reached; the last one in front
of the command comes after everything behind the command.
-/

namespace SyntaxHighlight

inductive Command where
  | highlight (file : String) (language : Option String) (splitLines : Bool)
  | grammar (language : String)
  | languages
deriving DecidableEq, Repr

structure Arguments where
  /-- The settings file to use in place of the user's. -/
  config : Option String
  /-- The directory with rule files and parsers to use in place of the one in the settings. -/
  runtime : Option String
  verbose : Bool
  command : Command
deriving DecidableEq, Repr

/-- Why a call is not carried out. -/
inductive Stop where
  | help
  | usage
deriving DecidableEq, Repr

namespace Arguments

def usage : String :=
  "Usage: tinct [OPTIONS] <COMMAND>\n\n" ++
  "Commands:\n" ++
  "  highlight FILE [-l ID] [--split-lines]  Classify a file and print its annotations\n" ++
  "  grammar ID                              Print the properties of a grammar rule table\n" ++
  "  languages                               List languages that can be highlighted\n\n" ++
  "Options:\n" ++
  "  -c, --config PATH    Config file\n" ++
  "  -r, --runtime DIR    Runtime directory holding grammars and parsers\n" ++
  "  -v, --verbose        Verbose logging\n" ++
  "  -h, --help           Print help\n"

/-- Where an argument stands: before the command, or behind one of the commands. -/
inductive Level where
  | top
  | highlight
  | grammar
  | languages
deriving DecidableEq, Repr

def Level.ofName? : String → Option Level
  | "highlight" => some .highlight
  | "grammar" => some .grammar
  | "languages" => some .languages
  | _ => none

inductive Flag where
  | config
  | runtime
  | verbose
  | help
  | language
  | splitLines
deriving DecidableEq, Repr

namespace Flag

def allowed (level : Level) : Flag → Bool
  | .language | .splitLines => level = .highlight
  | _ => true

def longNames : List (String × Flag) :=
  [("config", .config), ("runtime", .runtime), ("verbose", .verbose), ("help", .help),
    ("language", .language), ("split-lines", .splitLines)]

def letters : List (Char × Flag) :=
  [('c', .config), ('r', .runtime), ('v', .verbose), ('h', .help), ('l', .language)]

def ofLong? (level : Level) (name : String) : Option Flag :=
  (longNames.lookup name).filter (allowed level)

def ofShort? (level : Level) (letter : Char) : Option Flag :=
  (letters.lookup letter).filter (allowed level)

def takesValue : Flag → Bool
  | .config | .runtime | .language => true
  | _ => false

/-- Whether an option accepts a value; a path may not be empty. -/
def accepts (flag : Flag) (value : String) : Bool :=
  match flag with
  | .config | .runtime => !value.isEmpty
  | _ => true

end Flag

/-- The options and other arguments of one level. -/
structure Given where
  flags : List (Flag × String) := []
  /-- The last option, if its value was an argument of its own. It is checked when the next one is
  read. -/
  waiting : Option (Flag × String) := none
  /-- The arguments that are no options, in order. -/
  positional : List String := []

namespace Given

def value? (g : Given) (flag : Flag) : Option String :=
  (g.flags.find? (·.1 = flag)).map (·.2)

def has (g : Given) (flag : Flag) : Bool := (g.value? flag).isSome

/-- Check an option, which may be given only once at a level, and put it to the others. -/
def check (g : Given) (flag : Flag) (value : String) : Except Stop Given :=
  if flag = .help then .error .help
  else if g.has flag || !flag.accepts value then .error .usage
  else .ok { g with flags := g.flags ++ [(flag, value)] }

/-- Check the option that waits for it. -/
def settle (g : Given) : Except Stop Given :=
  match g.waiting with
  | some (flag, value) => { g with waiting := none }.check flag value
  | none => .ok g

/-- Add an option that is checked at once. -/
def add (g : Given) (flag : Flag) (value : String) : Except Stop Given := do
  (← g.settle).check flag value

/-- Add an option whose value is an argument of its own. -/
def hold (g : Given) (flag : Flag) (value : String) : Except Stop Given := do
  return { (← g.settle) with waiting := some (flag, value) }

/-- Add an argument that is no option. The commands have one or none. -/
def addPositional (g : Given) (level : Level) (argument : String) : Except Stop Given :=
  match level, g.positional with
  | .highlight, [] =>
    if argument.isEmpty then .error .usage else .ok { g with positional := [argument] }
  | .grammar, [] => .ok { g with positional := [argument] }
  | _, _ => .error .usage

end Given

/-- Whether an argument is written like an option. A lone `-` is not. -/
def isOption (argument : String) : Bool :=
  match argument.toList with
  | '-' :: _ :: _ => true
  | _ => false

/-- What the letters of an argument such as `-vc` give: the options without value, and the last one
if it has a value, with the rest of the letters. -/
def readLetters (level : Level) (g : Given) :
    List Char → Except Stop (Given × Option (Flag × Option String))
  | [] => .ok (g, none)
  | c :: rest =>
    match Flag.ofShort? level c with
    | none => .error .usage
    | some flag =>
      if flag.takesValue then
        match rest with
        | [] => .ok (g, some (flag, none))
        | '=' :: value => .ok (g, some (flag, some (String.ofList value)))
        | value => .ok (g, some (flag, some (String.ofList value)))
      else do readLetters level (← g.add flag "") rest

def readLong (level : Level) (g : Given) (text : List Char) :
    Except Stop (Given × Option (Flag × Option String)) :=
  let name := String.ofList (text.takeWhile (· != '='))
  let value := match text.dropWhile (· != '=') with
    | [] => none
    | _ :: value => some (String.ofList value)
  match Flag.ofLong? level name with
  | none => .error .usage
  | some flag =>
    if flag.takesValue then .ok (g, some (flag, value))
    else if value.isSome then .error .usage
    else do return (← g.add flag "", none)

def readOption (level : Level) (g : Given) (argument : String) :
    Except Stop (Given × Option (Flag × Option String)) :=
  match argument.toList with
  | '-' :: '-' :: text => readLong level g text
  | _ :: letters => readLetters level g letters
  | [] => .error .usage

/-- Read the arguments of a level up to the first one that `isCommand` accepts, and hand back what
follows it. -/
def readLevel (level : Level) (isCommand : String → Bool) (g : Given) :
    List String → Except Stop (Given × Option (String × List String))
  | [] => .ok (g, none)
  | argument :: rest =>
    if argument = "--" then do
      let g ← rest.foldlM (fun g a => g.addPositional level a) g
      return (g, none)
    else if isOption argument then
      match readOption level g argument with
      | .error stop => .error stop
      | .ok (g, none) => readLevel level isCommand g rest
      | .ok (g, some (flag, some value)) => do readLevel level isCommand (← g.add flag value) rest
      | .ok (g, some (flag, none)) =>
        match rest with
        | value :: rest =>
          if isOption value then .error .usage
          else do readLevel level isCommand (← g.hold flag value) rest
        | [] => .error .usage
    else if isCommand argument then .ok (g, some (argument, rest))
    else do readLevel level isCommand (← g.addPositional level argument) rest

/-- Whether a name stands in front of further arguments before the command. -/
def isCommandName (name : String) : Bool := name = "help" || (Level.ofName? name).isSome

/-- A request for help names at most one command. -/
def readHelp : List String → Stop
  | [] => .help
  | [name] => if isCommandName name then .help else .usage
  | _ => .usage

def commandOf (level : Level) (g : Given) : Except Stop Command :=
  match level, g.positional with
  | .highlight, [file] => .ok (.highlight file (g.value? .language) (g.has .splitLines))
  | .grammar, [language] => .ok (.grammar language)
  | .languages, [] => .ok .languages
  | _, _ => .error .usage

/-- Read the arguments of a call. What is given behind the command goes before what is given in
front of it. -/
def parse (arguments : List String) : Except Stop Arguments := do
  let (top, command) ← readLevel .top isCommandName {} arguments
  match command with
  | none => throw .usage
  | some (name, rest) =>
    match Level.ofName? name with
    | none => throw (readHelp rest)
    | some level =>
      let g ← (← readLevel level (fun _ => false) {} rest).1.settle
      let command ← commandOf level g
      let top ← top.settle
      return {
        config := (g.value? .config).or (top.value? .config)
        runtime := (g.value? .runtime).or (top.value? .runtime)
        verbose := g.has .verbose || top.has .verbose
        command }

end Arguments

end SyntaxHighlight
