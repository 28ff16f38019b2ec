import Phrasebook.CommandLine.Refusal
import Phrasebook.CommandLine.Summary
import Phrasebook.Log.Filter
import Phrasebook.Settings.Discovery
import Phrasebook.Settings.Printer

/-!
Runs of the program on a file tree: what a command changes there, what it prints and the status that it
ends with.
-/

set_option autoImplicit false

namespace Phrasebook.CommandLine

inductive Status
  | success
  /-- The run is complete, but some of its work failed. -/
  | failure
  /-- The run was broken off. -/
  | fatal
  deriving DecidableEq, Repr

def Status.code : Status → Nat
  | success => 0
  | failure => 1
  | fatal => 2

structure Outcome where
  status : Status := .success
  output : String := ""
  diagnostics : String := ""
  events : List Log.Event := []
  deriving DecidableEq, Repr

inductive Fatal
  | settings (error : Settings.LoadError)
  | givenLocales (error : Locale.UnknownTag)
  | settledLocales (error : Locale.UnknownTag)
  | noLocales
  | unwritable (fault : Fault)
  deriving DecidableEq, Repr

def Fatal.message : Fatal → String
  | settings error => error.message
  | givenLocales error => "Invalid --locales: " ++ error.message
  | settledLocales error => error.message
  | noLocales => "No target locales given"
  | unwritable fault => "Failed to write " ++ Settings.fileName ++ ": " ++ fault.message

def Fatal.outcome (reason : Fatal) (events : List Log.Event) : Outcome where
  status := .fatal
  diagnostics := "Error: " ++ reason.message ++ "\n"
  events := events

structure Plan where
  inputs : List String
  excludes : List String
  recursive : Bool
  options : Extraction.Options
  deriving DecidableEq, Repr

/-- A path of the settings as seen from the working directory, which need not hold the settings
file. -/
def fromSettings (place : String) (file : Option String) (entry : String) : String :=
  match file.bind Path.parent? with
  | some directory => if Path.same directory place then entry else Path.join directory entry
  | none => entry

def targetLocales (settings : Settings) (given : Option String) : Except Fatal (List String) :=
  let found := match given with
    | some list => (Locale.parseList list).mapError Fatal.givenLocales
    | none => settings.targets.mapError Fatal.settledLocales
  match found with
  | .ok [] => .error .noLocales
  | other => other

def plan (place : String) (settings : Settings) (file : Option String)
    (arguments : ExtractArguments) : Except Fatal Plan :=
  (targetLocales settings arguments.locales).map fun locales =>
    let fromSettings := fromSettings place file
    let exclusion (entry : String) : String :=
      if Glob.isPattern entry then entry else fromSettings entry
    { inputs := if arguments.paths.isEmpty then settings.includes.map fromSettings else arguments.paths
      excludes := settings.excludes.map exclusion ++ arguments.excludes
      recursive := arguments.recursive || settings.recursive
      options := {
        locales
        directory := settings.catalogDirectory
        overwrite := arguments.overwrite
        markers := settings.markersOf } }

def Plan.select (plan : Plan) (tree : FileTree) : Selection :=
  Selection.collect tree plan.inputs plan.excludes plan.recursive

def selectionEvent (plan : Plan) (selection : Selection) : Log.Event :=
  Log.debug .command "collected source files"
    [("files", toString selection.files.length), ("skipped", "0"),
      ("recursive", toString plan.recursive)]

/-- Does what a plan says. Inputs that do not exist are failures. -/
def Plan.carryOut (plan : Plan) : StateM FileTree Extraction.Report := do
  let selection := plan.select (← get)
  let report ← Extraction.extract plan.options selection.files
  return { report with
    failures := report.failures ++ selection.missing.map (⟨·, .missing⟩)
    events := selection.events ++ selectionEvent plan selection :: report.events }

def reportOutcome (colored : Bool) (report : Extraction.Report) : Outcome where
  status := if report.hasFailures then .failure else .success
  output := summary colored report
  diagnostics := diagnostics colored report
  events := report.events

def settingsEvents (file : Option String) : List Log.Event :=
  file.toList.map fun path => Log.debug .settings "loaded config" [("path", path)]

def runExtract (colored : Bool) (arguments : ExtractArguments) : StateM FileTree Outcome := do
  let tree ← get
  match Settings.load tree tree.placePath with
  | .error error => return (Fatal.settings error).outcome []
  | .ok (settings, file) =>
    match plan tree.placePath settings file arguments with
    | .error reason => return reason.outcome (settingsEvents file)
    | .ok plan =>
      let outcome := reportOutcome colored (← plan.carryOut)
      return { outcome with events := settingsEvents file ++ outcome.events }

/-- Writes the usual settings to a file in the working directory, unless there is one. -/
def runInit (colored : Bool) : StateM FileTree Outcome := do
  if (← get).isPresent Settings.fileName then
    return {
      status := .failure
      diagnostics := errorLine colored (Settings.fileName ++ " already exists") }
  match ← (Change.write Settings.fileName (.text ({} : Settings).render)).run with
  | .error fault => return (Fatal.unwritable fault).outcome []
  | .ok _ =>
    return { output := Style.green.paint colored successMark ++ " "
      ++ Style.green.paint colored ("Created " ++ Settings.fileName) ++ "\n" }

/-- Does what a command says. Without a command there is help. -/
def run (colored : Bool) (environment : Option String) :
    Option Command → StateM FileTree Outcome
  | none => return { output := Topic.program.page environment }
  | some (.extract arguments) => runExtract colored arguments
  | some .init => runInit colored

structure Environment where
  locales : Option String := none
  log : Option String := none
  deriving DecidableEq, Repr

def Refusal.outcome (environment : Environment) (refusal : Refusal) : Outcome :=
  let text := refusal.message environment.locales
  if refusal.isQuestion then { output := text } else { status := .fatal, diagnostics := text }

def eventLines (environment : Environment) (command : Option Command) (events : List Log.Event) :
    String :=
  let isVerbose := (command.map Command.isVerbose).getD false
  let filter := Log.Filter.ofSetting environment.log isVerbose
  String.join ((events.filter filter.admits).map fun event => event.line ++ "\n")

/-- Does what arguments say. Lines for events come before all other diagnostics. -/
def execute (colored : Bool) (environment : Environment) (arguments : List String) :
    StateM FileTree Outcome := do
  match parse environment.locales arguments with
  | .error refusal => return refusal.outcome environment
  | .ok command =>
    let outcome ← run colored environment.locales command
    return { outcome with
      diagnostics := eventLines environment command outcome.events ++ outcome.diagnostics }

end Phrasebook.CommandLine
