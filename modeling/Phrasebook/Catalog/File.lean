import Phrasebook.Catalog.Printer
import Phrasebook.Catalog.Reader
import Phrasebook.Files.Change

/-!
Catalogs as files: one file for each locale in a directory. A catalog is written beside its file first
and then moved there, so that a failure leaves the file as it was.
-/

set_option autoImplicit false

namespace Phrasebook.Catalog

def fileExtension : String := "po"

def filePath (directory locale : String) : String :=
  Path.join directory (locale ++ "." ++ fileExtension)

inductive FileError
  | unreadable (path : String) (fault : Fault)
  | noDirectory (path : String) (fault : Fault)
  | unwritable (path : String) (fault : Fault)
  | irreplaceable (path : String) (fault : Fault)
  deriving DecidableEq, Repr

def FileError.summary : FileError → String
  | .unreadable path _ => "Failed to read catalog: " ++ path
  | .noDirectory path _ => "Failed to create directory: " ++ path
  | .unwritable path _ => "Failed to write catalog: " ++ path
  | .irreplaceable path _ => "Failed to replace catalog: " ++ path

def FileError.fault : FileError → Fault
  | .unreadable _ fault | .noDirectory _ fault | .unwritable _ fault | .irreplaceable _ fault => fault

def FileError.message (error : FileError) : String := error.summary ++ ": " ++ error.fault.message

def load (tree : FileTree) (path locale : String) : Except FileError Catalog :=
  match tree.readText path with
  | .ok text => .ok (parse text locale)
  | .error fault => .error (.unreadable path fault)

def loadEvents (tree : FileTree) (path : String) : List Log.Event :=
  match tree.readText path with
  | .ok text => (read text "").2.map Skipped.event
  | .error _ => []

/-- The file beside a catalog that its text is written to first. -/
def stagingPath (path : String) : String :=
  Path.withFileName path ("." ++ (Path.fileName? path).getD "" ++ ".tmp")

/-- The writing of a catalog, which keeps what it has done when it fails. -/
abbrev Writing (α : Type) := ExceptT FileError (StateM FileTree) α

def step {α : Type} (error : Fault → FileError) (change : Change α) : Writing α := do
  match ← (change.run : StateM FileTree (Except Fault α)) with
  | .ok value => return value
  | .error fault => throw (error fault)

def makeParentOn (disk : Disk) (path : String) : Writing Unit := do
  match Path.parent? path with
  | none => pure ()
  | some parent => step (.noDirectory parent) (disk.makeDirectories parent)

def makeParent (path : String) : Writing Unit := makeParentOn .sound path

/-- Writes a catalog to a file of a disk, and says whether it did: one without messages is not written. -/
def saveOn (disk : Disk) (catalog : Catalog) (path : String) : Writing Bool := do
  if catalog.isEmpty then return false
  makeParentOn disk path
  let staging := stagingPath path
  step (.unwritable staging) (disk.write staging (.text catalog.render))
  try step (.irreplaceable path) (disk.rename staging path)
  catch error =>
    try step (.unwritable staging) (disk.remove staging) catch _ => pure ()
    throw error
  return true

def save (catalog : Catalog) (path : String) : Writing Bool := catalog.saveOn .sound path

end Phrasebook.Catalog
