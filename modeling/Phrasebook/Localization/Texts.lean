import Phrasebook.Catalog.File
import Phrasebook.Locale
import Phrasebook.Pairs

/-!
The texts of a catalog directory. A directory that exists has texts for every recognized locale, some
of them perhaps empty; one that does not exist has none.
-/

set_option autoImplicit false

namespace Phrasebook

/-- The texts of a directory: by locale, then by key. -/
abbrev Texts := List (String × List (String × String))

namespace Texts

def get? (texts : Texts) (locale key : String) : Option String :=
  (texts.lookup locale).bind (·.lookup key)

def locales (texts : Texts) : List String := texts.map (·.1)

def isCatalogPath (tree : FileTree) (path : String) : Bool :=
  tree.isFile path && Path.extension? path == some Catalog.fileExtension
    && Locale.isRecognized ((Path.stem? path).getD "")

def addFile (tree : FileTree) (texts : Texts) (path : String) : Texts :=
  if isCatalogPath tree path then
    let locale := (Path.stem? path).getD ""
    match Catalog.load tree path locale with
    | .ok catalog => Pairs.put locale catalog.texts texts
    | .error _ => texts
  else texts

/-- Texts for every recognized locale, none of which has any. -/
def unfilled : Texts := Locale.recognized.map fun locale => (locale, [])

/-- The texts of all catalogs in a directory. -/
def load (tree : FileTree) (directory : String) : Texts :=
  if tree.isDirectory directory then
    match tree.children directory with
    | .ok found =>
      found.foldl (fun texts child => addFile tree texts (Path.join directory child.1)) unfilled
    | .error _ => unfilled
  else []

def strayMessage (path : String) : String := "unexpected file in catalog directory: " ++ path

/-- The notes on one thing in a catalog directory. The reserved name is passed over in silence. -/
def eventsAt (tree : FileTree) (path : String) : List Log.Event :=
  if isCatalogPath tree path then
    match tree.readText path with
    | .ok _ => Catalog.loadEvents tree path
    | .error fault =>
      [Log.warn .lookups "skipping catalog"
        [("error", (Catalog.FileError.unreadable path fault).summary)]]
  else if Path.stem? path == some Locale.reservedStem then []
  else [Log.warn .lookups "skipping file" [("error", strayMessage path)]]

def loadEvents (tree : FileTree) (directory : String) : List Log.Event :=
  match tree.children directory with
  | .ok found => found.flatMap fun (name, _) => eventsAt tree (Path.join directory name)
  | .error _ => []

end Texts

end Phrasebook
