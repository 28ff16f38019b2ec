import Phrasebook.Extraction
import Phrasebook.Locale

/-!
The settings of a project: what is searched for messages, for which locales, and what marks a message.
-/

set_option autoImplicit false

namespace Phrasebook

structure Settings where
  includes : List String := ["."]
  excludes : List String := ["**/node_modules/**"]
  recursive : Bool := false
  /-- The locales to write catalogs for; one word stands for all of them. -/
  locales : List String := [Locale.everyWord]
  catalogDirectory : String := Extraction.defaultDirectory
  entryPoints : List String := ({} : Script.Markers).entryPoints
  markers : List String := ({} : Script.Markers).decorators
  markerFields : List String := ({} : Script.Markers).fields
  deriving DecidableEq, Repr

namespace Settings

def markersOf (settings : Settings) : Script.Markers where
  entryPoints := settings.entryPoints
  decorators := settings.markers
  fields := settings.markerFields

def targets (settings : Settings) : Except Locale.UnknownTag (List String) :=
  Locale.parseList (String.intercalate "," settings.locales)

inductive Defect
  | badPattern (pattern : String) (error : Glob.SyntaxError)
  | unknownLocale (error : Locale.UnknownTag)
  | noDirectory
  | noEntryPoint
  deriving DecidableEq, Repr

def Defect.message : Defect → String
  | .badPattern pattern error =>
    "Invalid glob pattern in 'excludes': \"" ++ pattern ++ "\": " ++ error.message
  | .unknownLocale error => "Invalid entry in 'locales': " ++ error.message
  | .noDirectory => "'catalogDir' must not be empty"
  | .noEntryPoint => "'entryPoints' must name at least one function"

def excludeDefect? (text : String) : Option Defect :=
  if Glob.isPattern text then
    match Glob.parse text with
    | .ok _ => none
    | .error error => some (.badPattern text error)
  else none

def localesDefect? (settings : Settings) : Option Defect :=
  match settings.targets with
  | .ok _ => none
  | .error error => some (.unknownLocale error)

/-- Why the settings cannot be used, if they cannot: the first reason counts. -/
def defect? (settings : Settings) : Option Defect :=
  settings.excludes.findSome? excludeDefect? <|> settings.localesDefect? <|>
    (if Text.isBlankLine settings.catalogDirectory.toList then some .noDirectory else none) <|>
    (if settings.entryPoints.isEmpty then some .noEntryPoint else none)

inductive Field
  | includes
  | excludes
  | recursive
  | locales
  | catalogDirectory
  | entryPoints
  | markers
  | markerFields
  deriving DecidableEq, Repr

namespace Field

def all : List Field :=
  [includes, excludes, recursive, locales, catalogDirectory, entryPoints, markers, markerFields]

def name : Field → String
  | includes => "includes"
  | excludes => "excludes"
  | recursive => "recursive"
  | locales => "locales"
  | catalogDirectory => "catalogDir"
  | entryPoints => "entryPoints"
  | markers => "markers"
  | markerFields => "markerFields"

end Field

end Settings

end Phrasebook
