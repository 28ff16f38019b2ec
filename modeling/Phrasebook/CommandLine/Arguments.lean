/-!
The arguments of the program: a command, and for the extraction its options and paths. Options have
long names and letters; letters may share a dash, and after two dashes alone all arguments are paths.
-/

set_option autoImplicit false

namespace Phrasebook.CommandLine

structure ExtractArguments where
  paths : List String := []
  recursive : Bool := false
  excludes : List String := []
  locales : Option String := none
  overwrite : Bool := false
  verbose : Bool := false
  deriving DecidableEq, Repr

inductive Command
  | extract (arguments : ExtractArguments)
  | init
  deriving DecidableEq, Repr

def Command.isVerbose : Command → Bool
  | extract arguments => arguments.verbose
  | init => false

inductive Topic
  | program
  | extract
  | init
  | help
  deriving DecidableEq, Repr

namespace Topic

def commands : List (String × Topic) := [("extract", extract), ("init", init), ("help", help)]

def commandsOf : Topic → List (String × Topic)
  | program => commands
  | _ => []

end Topic

inductive Choice
  | recursive
  | exclude
  | locales
  | overwrite
  | verbose
  | help
  deriving DecidableEq, Repr

namespace Choice

def all : List Choice := [recursive, exclude, locales, overwrite, verbose, help]

def name : Choice → String
  | recursive => "recursive"
  | exclude => "exclude"
  | locales => "locales"
  | overwrite => "overwrite"
  | verbose => "verbose"
  | help => "help"

def letter? : Choice → Option Char
  | recursive => some 'r'
  | exclude => some 'e'
  | locales => some 'l'
  | overwrite => none
  | verbose => some 'v'
  | help => some 'h'

def value? : Choice → Option String
  | exclude => some "GLOB"
  | locales => some "LIST"
  | _ => none

def display (choice : Choice) : String :=
  "--" ++ choice.name ++ ((choice.value?.map fun value => " <" ++ value ++ ">").getD "")

def ofName? (name : String) : Option Choice := all.find? (·.name == name)

def ofLetter? (letter : Char) : Option Choice := all.find? (·.letter? == some letter)

end Choice

def pathsDisplay : String := "[PATHS]..."

inductive Refusal
  | help (topic : Topic)
  | version
  | unknownArgument (topic : Topic) (argument : String) (isOption : Bool)
  | unknownCommand (topic : Topic) (name : String)
  /-- The name of a command stands after two dashes. -/
  | hiddenCommand (name : String)
  /-- An option without its value, or an empty path. -/
  | missingValue (slot : String)
  | repeated (slot : String)
  | needlessValue (topic : Topic) (slot value : String)
  deriving DecidableEq, Repr

/-- What an argument looks like. -/
inductive Shape
  | divider
  | long (name : String) (value : Option String)
  | letters (text : List Char)
  | plain
  deriving DecidableEq, Repr

def shapeOf (argument : String) : Shape :=
  match argument.toList with
  | ['-', '-'] => .divider
  | '-' :: '-' :: text =>
    let name := String.ofList (text.takeWhile (· != '='))
    match text.dropWhile (· != '=') with
    | [] => .long name none
    | _ :: value => .long name (some (String.ofList value))
  | '-' :: first :: rest => .letters (first :: rest)
  | _ => .plain

/-- Arguments that are read but not yet taken over. -/
inductive Pending
  | nothing
  | paths (found : List String)
  | valued (choice : Choice) (value : Option String)
  deriving DecidableEq, Repr

structure Reading where
  arguments : ExtractArguments := {}
  pending : Pending := .nothing
  deriving DecidableEq, Repr

namespace Reading

def assign (reading : Reading) (choice : Choice) (value : String) : Except Refusal Reading :=
  let known := reading.arguments
  match choice with
  | .exclude =>
    .ok { reading with arguments := { known with excludes := known.excludes ++ [value] } }
  | .locales =>
    if known.locales.isSome then .error (.repeated choice.display)
    else .ok { reading with arguments := { known with locales := some value } }
  | _ => .ok reading

def turnOn (reading : Reading) (choice : Choice) : Except Refusal Reading :=
  let known := reading.arguments
  let checked (isOn : Bool) (changed : ExtractArguments) : Except Refusal Reading :=
    if isOn then .error (.repeated choice.display) else .ok { reading with arguments := changed }
  match choice with
  | .recursive => checked known.recursive { known with recursive := true }
  | .overwrite => checked known.overwrite { known with overwrite := true }
  | .verbose => checked known.verbose { known with verbose := true }
  | .help => .error (.help .extract)
  | .exclude | .locales => .ok reading

def settle (reading : Reading) : Except Refusal Reading :=
  let cleared := { reading with pending := .nothing }
  match reading.pending with
  | .nothing => .ok cleared
  | .paths found =>
    if found.contains "" then .error (.missingValue pathsDisplay)
    else
      let known := reading.arguments
      .ok { cleared with arguments := { known with paths := known.paths ++ found } }
  | .valued choice none => .error (.missingValue choice.display)
  | .valued choice (some value) => cleared.assign choice value

def readChoice (reading : Reading) (choice : Choice) (value : Option String) :
    Except Refusal Reading := do
  match choice.value?, value with
  | none, none => (← reading.settle).turnOn choice
  | none, some value => .error (.needlessValue .extract choice.display value)
  | some _, none => return { (← reading.settle) with pending := .valued choice none }
  | some _, some value => (← reading.settle).assign choice value

/-- Reads letters that share a dash. What follows the letter of an option with a value is the value,
after an equals sign or at once. -/
def readLetters (reading : Reading) : List Char → Except Refusal Reading
  | [] => .ok reading
  | letter :: rest =>
    match Choice.ofLetter? letter with
    | none => .error (.unknownArgument .extract ("-" ++ letter.toString) true)
    | some choice =>
      match choice.value?, rest with
      | some _, [] => reading.readChoice choice none
      | some _, '=' :: value => reading.readChoice choice (some (String.ofList value))
      | some _, value => reading.readChoice choice (some (String.ofList value))
      | none, rest =>
        match reading.readChoice choice none with
        | .ok reading => readLetters reading rest
        | .error refusal => .error refusal

def readPath (reading : Reading) (path : String) : Except Refusal Reading :=
  match reading.pending with
  | .paths found => .ok { reading with pending := .paths (found ++ [path]) }
  | _ => reading.settle.map fun settled => { settled with pending := .paths [path] }

def readPlain (reading : Reading) (text : String) : Except Refusal Reading :=
  match reading.pending with
  | .valued choice none => .ok { reading with pending := .valued choice (some text) }
  | _ => reading.readPath text

def readAll (reading : Reading) : List String → Except Refusal Reading
  | [] => reading.settle
  | argument :: rest =>
    match shapeOf argument with
    | .divider => do (← rest.foldlM readPath reading).settle
    | .long name value => do
      match Choice.ofName? name with
      | some choice => readAll (← reading.readChoice choice value) rest
      | none => .error (.unknownArgument .extract ("--" ++ name) true)
    | .letters text => do readAll (← reading.readLetters text) rest
    | .plain => do readAll (← reading.readPlain argument) rest

end Reading

/-- The arguments of the extraction. Without a list of locales the one in the environment counts. -/
def extractArguments (environment : Option String) (arguments : List String) :
    Except Refusal ExtractArguments :=
  (Reading.readAll {} arguments).map fun reading =>
    let known := reading.arguments
    { known with locales := known.locales <|> environment }

def refusePlain (topic : Topic) (isAfterDivider : Bool) (argument : String) : Refusal :=
  match topic with
  | .program =>
    if isAfterDivider && (Topic.commands.lookup argument).isSome then .hiddenCommand argument
    else .unknownCommand topic argument
  | _ => .unknownArgument topic argument false

/-- The refusal of an option where only help and, for the program, its version can be asked for. -/
def refuseOption (topic : Topic) (name shown : String) (value : Option String) : Refusal :=
  let isHelp := name == "help"
  let isVersion := name == "version" && topic == .program
  if !isHelp && !isVersion then .unknownArgument topic shown true
  else match value with
    | some value => .needlessValue topic ("--" ++ name) value
    | none => if isHelp then .help topic else .version

/-- Reads arguments where there are no options but help and version, and finds nothing to do. -/
def refuseAll (topic : Topic) : List String → Except Refusal Unit
  | [] => .ok ()
  | argument :: rest =>
    match shapeOf argument with
    | .divider =>
      match rest with
      | [] => .ok ()
      | next :: _ => .error (refusePlain topic true next)
    | .long name value => .error (refuseOption topic name ("--" ++ name) value)
    | .letters text =>
      let letter := text.headD '-'
      let name := if letter == 'h' then "help" else if letter == 'V' then "version" else ""
      .error (refuseOption topic name ("-" ++ letter.toString) none)
    | .plain => .error (refusePlain topic false argument)

def helpOn (topic : Topic) : List String → Refusal
  | [] => .help topic
  | word :: rest =>
    match topic.commandsOf.lookup word with
    | some inner => helpOn inner rest
    | none => .unknownCommand topic word

/-- What the arguments ask for; nothing at all is no command. -/
def parse (environment : Option String) (arguments : List String) :
    Except Refusal (Option Command) :=
  match arguments with
  | "extract" :: rest =>
    (extractArguments environment rest).map fun found => some (.extract found)
  | "init" :: rest => (refuseAll .init rest).map fun _ => some .init
  | "help" :: rest => .error (helpOn .program rest)
  | _ => (refuseAll .program arguments).map fun _ => none

end Phrasebook.CommandLine
