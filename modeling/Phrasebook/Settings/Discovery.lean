import Phrasebook.Settings.Reader

/-!
The settings file of a project: the nearest one at or above a directory, within the repository that
the directory is in.
-/

set_option autoImplicit false

namespace Phrasebook.Settings

def fileName : String := ".lingorc.json"

def repositoryMark : String := ".git"

/-- The nearest settings file among the first `count + 1` directories from one upwards. -/
def findWithin (tree : FileTree) : Nat → String → Option String
  | count, directory =>
    let path := Path.join directory fileName
    if tree.isPresent path then some path
    else if tree.isPresent (Path.join directory repositoryMark) then none
    else match count, Path.parent? directory with
      | count + 1, some parent => findWithin tree count parent
      | _, _ => none

/-- The nearest settings file at or above a directory. The search ends with the directory that holds
a repository. -/
def find? (tree : FileTree) (directory : String) : Option String :=
  findWithin tree (Path.parts directory).length directory

inductive LoadError
  | unreadable (path : String) (fault : Fault)
  | malformed (path : String) (error : Json.Error)
  | invalid (path : String) (defect : Defect)
  deriving DecidableEq, Repr

def LoadError.message : LoadError → String
  | .unreadable path fault => "Failed to read config file: " ++ path ++ ": " ++ fault.message
  | .malformed path error => "Failed to parse config file: " ++ path ++ ": " ++ error.message
  | .invalid path defect => "Invalid config file: " ++ path ++ ": " ++ defect.message

def ofFile (tree : FileTree) (path : String) : Except LoadError Settings :=
  match tree.readText path with
  | .error fault => .error (.unreadable path fault)
  | .ok text =>
    match ofText text with
    | .error error => .error (.malformed path error)
    | .ok settings =>
      match settings.defect? with
      | some defect => .error (.invalid path defect)
      | none => .ok settings

/-- The settings for a directory with the file that they are from, or the usual settings if there is
no file. -/
def load (tree : FileTree) (directory : String) : Except LoadError (Settings × Option String) :=
  match find? tree directory with
  | none => .ok ({}, none)
  | some path => (ofFile tree path).map fun settings => (settings, some path)

end Phrasebook.Settings
