import Phrasebook.Catalog.File
import Phrasebook.Files.Selection
import Phrasebook.Script.Messages

/-!
Extraction: the messages of script files go to the catalog directory beside each file, where they are
merged with the texts that each locale has already. Files and catalogs that fail are reported and do
not stop the rest.
-/

set_option autoImplicit false

namespace Phrasebook.Extraction

def defaultDirectory : String := "locales"

structure Options where
  locales : List String := []
  /-- The catalog directory, as seen from the directory of each script file. -/
  directory : String := defaultDirectory
  overwrite : Bool := false
  markers : Script.Markers := {}
  deriving DecidableEq, Repr

inductive Cause
  | noPlace (path : String)
  | unreadable (path : String) (fault : Fault)
  | malformed (path : String)
  | catalog (error : Catalog.FileError)
  | missing
  deriving DecidableEq, Repr

def Cause.message : Cause → String
  | .noPlace path => "no catalog directory could be established for " ++ path
  | .unreadable path fault => "Failed to read file: " ++ path ++ ": " ++ fault.message
  | .malformed path => "Failed to parse " ++ path ++ ": [parse error]"
  | .catalog error => error.message
  | .missing => "No such file or directory"

structure Failure where
  path : String
  cause : Cause
  deriving DecidableEq, Repr

structure DirectoryReport where
  directory : String
  /-- The number of different messages. -/
  entries : Nat
  written : List String
  deriving DecidableEq, Repr

structure Report where
  scanned : Nat := 0
  directories : List DirectoryReport := []
  issues : List Script.Issue := []
  failures : List Failure := []
  events : List Log.Event := []
  deriving DecidableEq, Repr

def Report.hasFailures (report : Report) : Bool := !report.failures.isEmpty

def outputDirectory (file directory : String) : Except Cause String :=
  if Text.isBlankLine directory.toList then .error (.noPlace file)
  else match Path.parent? file with
    | none => .error (.noPlace file)
    | some parent => .ok (Path.join (if parent.isEmpty then "." else parent) directory)

/-- What became of a script file with a catalog directory. -/
structure Outcome where
  file : String
  directory : String
  result : Except Cause Script.Scan

def scanFile (tree : FileTree) (markers : Script.Markers) (file : String) :
    Except Cause Script.Scan :=
  match tree.readText file with
  | .error fault => .error (.unreadable file fault)
  | .ok text =>
    match Script.scan? file text markers with
    | some scan => .ok scan
    | none => .error (.malformed file)

/-- What becomes of the script files that have a catalog directory. -/
def outcomes (tree : FileTree) (options : Options) (files : List String) : List Outcome :=
  files.filterMap fun file =>
    match outputDirectory file options.directory with
    | .ok directory => some ⟨file, directory, scanFile tree options.markers file⟩
    | .error _ => none

/-- The use of a message in a file, whose name stands for its path. -/
def useOf (file : String) (message : Script.Message) : Catalog.Use where
  key := message.literal
  comments := message.comments
  occurrence := ⟨(Path.fileName? file).getD file, message.line⟩
  isFormat := message.isFormat
  isDocumentation := message.isDocumentation

def usesIn (directory : String) (found : List Outcome) : List Catalog.Use :=
  found.flatMap fun outcome =>
    match outcome.result with
    | .ok scan =>
      if Path.same outcome.directory directory then scan.messages.map (useOf outcome.file) else []
    | .error _ => []

/-- The messages that come to a directory, without a locale. -/
def freshCatalog (directory : String) (found : List Outcome) : Catalog :=
  (usesIn directory found).foldl Catalog.record {}

def directoriesOf (found : List Outcome) : List String :=
  found.foldl (fun known outcome => Path.insert outcome.directory known) []

/-- The catalog that a file holds, or an empty one if there is no file or it is dropped. -/
def existingCatalog (tree : FileTree) (overwrite : Bool) (path locale : String) :
    Except Catalog.FileError Catalog :=
  if !overwrite && tree.isFile path then Catalog.load tree path locale
  else .ok (Catalog.empty locale)

def existingEvents (tree : FileTree) (overwrite : Bool) (path : String) : List Log.Event :=
  if !overwrite && tree.isFile path then Catalog.loadEvents tree path else []

/-- Merges messages into the catalog of a locale and writes it; says how many messages were written,
if any. -/
def writeLocale (overwrite : Bool) (fresh : Catalog) (path locale : String) :
    Catalog.Writing (Option Nat) := do
  match existingCatalog (← get) overwrite path locale with
  | .error error => throw error
  | .ok existing =>
    let merged := existing.merge fresh
    if ← merged.save path then return some merged.size
    return none

/-- The writing of reports: it changes the tree and cannot fail. -/
abbrev Reporting (α : Type) := StateM (FileTree × Report) α

def note (change : Report → Report) : Reporting Unit :=
  modify fun (tree, report) => (tree, change report)

def reportLocale (options : Options) (directory : String) (fresh : Catalog) (locale : String) :
    Reporting Bool := do
  let path := Catalog.filePath directory locale
  let (tree, _) ← get
  note fun report =>
    { report with events := report.events ++ existingEvents tree options.overwrite path }
  let (result, changed) := (writeLocale options.overwrite fresh path locale).run.run tree
  modify fun (_, report) => (changed, report)
  match result with
  | .ok (some count) =>
    let event := Log.debug .extraction "wrote catalog" [("path", path), ("entries", toString count)]
    note fun report => { report with events := report.events ++ [event] }
    return true
  | .ok none => return false
  | .error error =>
    note fun report => { report with failures := report.failures ++ [⟨path, .catalog error⟩] }
    return false

def reportDirectory (options : Options) (found : List Outcome) (directory : String) :
    Reporting Unit := do
  let fresh := freshCatalog directory found
  let written ← options.locales.filterM (reportLocale options directory fresh)
  note fun report =>
    { report with directories := report.directories ++ [⟨directory, fresh.size, written⟩] }

def unroutedFailure? (options : Options) (file : String) : Option Failure :=
  match outputDirectory file options.directory with
  | .error cause => some ⟨file, cause⟩
  | .ok _ => none

def Outcome.failure? (outcome : Outcome) : Option Failure :=
  match outcome.result with
  | .error cause => some ⟨outcome.file, cause⟩
  | .ok _ => none

def Outcome.scan? (outcome : Outcome) : Option Script.Scan :=
  match outcome.result with
  | .ok scan => some scan
  | .error _ => none

def Outcome.event? (outcome : Outcome) : Option Log.Event :=
  outcome.scan?.map fun scan => Log.debug .extraction "scanned"
    [("file", outcome.file), ("entries", toString scan.messages.length),
      ("issues", toString scan.issues.length)]

def issueAtMost (a b : Script.Issue) : Bool :=
  decide (a.path < b.path) || (a.path == b.path && decide (a.line ≤ b.line))

def searchReport (options : Options) (files : List String) (found : List Outcome) : Report where
  scanned := (found.filterMap Outcome.scan?).length
  issues := ((found.filterMap Outcome.scan?).flatMap (·.issues)).mergeSort issueAtMost
  failures := files.filterMap (unroutedFailure? options) ++ found.filterMap Outcome.failure?
  events := found.filterMap Outcome.event?

/-- Extracts the messages of script files: all files are read first, then the catalogs are written,
directory by directory. -/
def extract (options : Options) (files : List String) : StateM FileTree Report := do
  let tree ← get
  let found := outcomes tree options files
  let writing := (directoriesOf found).forM (reportDirectory options found)
  let (_, tree, report) := writing.run (tree, searchReport options files found)
  set tree
  return report

end Phrasebook.Extraction
