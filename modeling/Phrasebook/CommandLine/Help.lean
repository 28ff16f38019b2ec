import Phrasebook.CommandLine.Arguments

/-!
Help pages: what a command is for, how it is called, and sections whose rows explain terms in two
columns.
-/

set_option autoImplicit false

namespace Phrasebook.CommandLine

def programName : String := "lingo"

def programVersion : String := "0.1.0"

def localesVariable : String := "LINGO_LOCALES"

def Topic.usage : Topic → String
  | program => programName ++ " [COMMAND]"
  | extract => programName ++ " extract [OPTIONS] " ++ pathsDisplay
  | init => programName ++ " init"
  | help => programName ++ " help [COMMAND]..."

def Topic.about : Topic → String
  | program => "PO catalog engine and source extractor for localized command handlers"
  | extract => "Scan source files and write a catalog per locale next to them"
  | init => "Initialize a new .lingorc.json configuration file"
  | help => "Print this message or the help of the given subcommand(s)"

structure Section where
  title : String
  rows : List (String × String)
  deriving DecidableEq, Repr

namespace Section

def width (part : Section) : Nat := (part.rows.map (·.1.length)).foldl max 0

/-- A term with its explanation, which starts in the same column in all rows. -/
def row (width : Nat) (term text : String) : String :=
  "  " ++ term.pushn ' ' (width - term.length) ++ "  " ++ text ++ "\n"

def render (part : Section) : String :=
  part.title ++ ":\n" ++ String.join (part.rows.map fun (term, text) => row part.width term text)

end Section

def Choice.about (environment : Option String) : Choice → String
  | recursive => "Descend into subdirectories"
  | exclude => "Skip paths matching this glob or path prefix (repeatable)"
  | locales =>
    "Comma separated target locales, or `all` [env: " ++ localesVariable ++ "="
      ++ environment.getD "" ++ "]"
  | overwrite => "Discard existing translations instead of merging them"
  | verbose => "Enable verbose output"
  | help => "Print help"

/-- The term of an option. Where there are letters, those without one leave room for it. -/
def Choice.term (choice : Choice) : String :=
  match choice.letter? with
  | some letter => "-" ++ letter.toString ++ ", " ++ choice.display
  | none => "    " ++ choice.display

namespace Topic

def sections (environment : Option String) : Topic → List Section
  | program =>
    [⟨"Commands", commands.map fun (name, topic) => (name, topic.about)⟩,
      ⟨"Options", [(Choice.help.term, Choice.help.about environment),
        ("-V, --version", "Print version")]⟩]
  | extract =>
    [⟨"Arguments", [(pathsDisplay,
        "Files or directories to scan (overrides `includes` from the config file)")]⟩,
      ⟨"Options", Choice.all.map fun choice => (choice.term, choice.about environment)⟩]
  | init => [⟨"Options", [(Choice.help.term, Choice.help.about environment)]⟩]
  | help => [⟨"Arguments", [("[COMMAND]...", "Print help for the subcommand(s)")]⟩]

def page (environment : Option String) (topic : Topic) : String :=
  topic.about ++ "\n\nUsage: " ++ topic.usage ++ "\n"
    ++ String.join ((topic.sections environment).map fun part => "\n" ++ part.render)

end Topic

end Phrasebook.CommandLine
