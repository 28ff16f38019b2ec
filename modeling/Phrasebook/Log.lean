/-!
Events that are worth a note while the program runs, and the line that tells of an event.
-/

set_option autoImplicit false

namespace Phrasebook.Log

inductive Level
  | debug
  | info
  | warn
  deriving DecidableEq, Repr

def Level.name : Level → String
  | debug => "DEBUG"
  | info => "INFO"
  | warn => "WARN"

inductive Area
  | catalogs
  | selection
  | extraction
  | settings
  | lookups
  | command
  deriving DecidableEq, Repr

def Area.name : Area → String
  | catalogs => "lingo::catalog::codec"
  | selection => "lingo::extract::files"
  | extraction => "lingo::extract::pipeline"
  | settings => "lingo::config"
  | lookups => "lingo::localization"
  | command => "lingo::cli::commands::extract"

structure Event where
  level : Level
  area : Area
  message : String
  details : List (String × String) := []
  deriving DecidableEq, Repr

def debug (area : Area) (message : String) (details : List (String × String)) : Event :=
  ⟨.debug, area, message, details⟩

def info (area : Area) (message : String) (details : List (String × String)) : Event :=
  ⟨.info, area, message, details⟩

def warn (area : Area) (message : String) (details : List (String × String)) : Event :=
  ⟨.warn, area, message, details⟩

/-- The line that tells of an event. The names of levels end in the same column. -/
def Event.line (event : Event) : String :=
  let level := "".pushn ' ' (5 - event.level.name.length) ++ event.level.name
  let details := event.details.map fun (name, text) => " " ++ name ++ "=" ++ text
  level ++ " " ++ event.message ++ String.join details

end Phrasebook.Log
