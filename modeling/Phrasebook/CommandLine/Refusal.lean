import Phrasebook.CommandLine.Help
import Phrasebook.Text.Similarity

/-!
The texts for arguments that the program refuses: what is wrong, what may be meant, and how the program
is called.
-/

set_option autoImplicit false

namespace Phrasebook.CommandLine

def Topic.optionNames : Topic → List String
  | program => [Choice.help.name, "version"]
  | extract => Choice.all.map Choice.name
  | init => [Choice.help.name]
  | help => []

def suggestionTip (kind : String) : List String → List String
  | [] => []
  | [word] => ["a similar " ++ kind ++ " exists: '" ++ word ++ "'"]
  | words =>
    ["some similar " ++ kind ++ "s exist: " ++
      String.intercalate ", " (words.map fun word => "'" ++ word ++ "'")]

namespace Refusal

def problem : Refusal → String
  | help _ => "help"
  | version => "version"
  | unknownArgument _ argument _ => "unexpected argument '" ++ argument ++ "' found"
  | unknownCommand _ name => "unrecognized subcommand '" ++ name ++ "'"
  | hiddenCommand name => "unexpected argument '" ++ name ++ "' found"
  | missingValue slot => "a value is required for '" ++ slot ++ "' but none was supplied"
  | repeated slot => "the argument '" ++ slot ++ "' cannot be used multiple times"
  | needlessValue _ slot value =>
    "unexpected value '" ++ value ++ "' for '" ++ slot ++ "' found; no more were expected"

def similarOption? (topic : Topic) (argument : String) : Option String :=
  let written := argument.toList
  if written.take 2 == ['-', '-'] then
    ((Text.suggestions (String.ofList (written.drop 2)) topic.optionNames).getLast?).map ("--" ++ ·)
  else none

def tips : Refusal → List String
  | unknownArgument topic argument isOption =>
    match similarOption? topic argument with
    | some option => suggestionTip "argument" [option]
    | none =>
      if topic == .extract && isOption then
        ["to pass '" ++ argument ++ "' as a value, use '-- " ++ argument ++ "'"]
      else []
  | unknownCommand topic name =>
    suggestionTip "subcommand" (Text.suggestions name (topic.commandsOf.map (·.1)))
  | hiddenCommand name =>
    ["subcommand '" ++ name ++ "' exists; to use it, remove the '--' before it"]
  | _ => []

def usage? : Refusal → Option String
  | unknownArgument topic _ _ | unknownCommand topic _ | needlessValue topic _ _ => some topic.usage
  | hiddenCommand _ => some Topic.program.usage
  | repeated _ => some Topic.extract.usage
  | help _ | version | missingValue _ => none

/-- Whether something is asked for that is no command, and nothing is wrong. -/
def isQuestion : Refusal → Bool
  | help _ | version => true
  | _ => false

def message (environment : Option String) (refusal : Refusal) : String :=
  match refusal with
  | help topic => topic.page environment
  | version => programName ++ " " ++ programVersion ++ "\n"
  | _ =>
    let tips := refusal.tips.map ("\n  tip: " ++ ·)
    let usage := (refusal.usage?.map ("\n\nUsage: " ++ ·)).getD ""
    "error: " ++ refusal.problem ++ (if tips.isEmpty then "" else "\n") ++ String.join tips ++ usage
      ++ "\n\nFor more information, try '--help'.\n"

end Refusal

end Phrasebook.CommandLine
