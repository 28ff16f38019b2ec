import Phrasebook.Files.Tree

/-!
Changes of a file tree. A change that fails keeps what it has done before.
-/

set_option autoImplicit false

namespace Phrasebook

/-- A change of a file tree, which may fail halfway. -/
abbrev Change (α : Type) := ExceptT Fault (StateM FileTree) α

namespace FileTree

def put (tree : FileTree) (names : Names) (item : Item) : FileTree :=
  { tree with items := replaced tree.items }
where
  replaced : List (Names × Item) → List (Names × Item)
    | [] => [(names, item)]
    | other :: rest => if other.1 = names then (names, item) :: rest else other :: replaced rest

def erase (tree : FileTree) (names : Names) : FileTree :=
  { tree with items := tree.items.filter (·.1 != names) }

/-- Takes the item under names away with all that stands in it. -/
def prune (tree : FileTree) (names : Names) : FileTree :=
  { tree with items := tree.items.filter (!names.isPrefixOf ·.1) }

end FileTree

namespace Change

def ask {α : Type} (question : FileTree → α) : Change α := return question (← get)

def askOrFail {α : Type} (question : FileTree → Except Fault α) : Change α := do
  match question (← get) with
  | .ok found => return found
  | .error fault => throw fault

def put (names : Names) (item : Item) : Change Unit := modify (·.put names item)

def makeDirectory (path : String) : Change Unit := do
  match ← askOrFail (·.locate false path) with
  | .free names => put names .directory
  | .item _ _ => throw .alreadyExists

/-- Makes a directory in one that exists, unless it exists itself. -/
def ensureDirectory (path : String) : Change Unit := do
  try makeDirectory path
  catch fault =>
    unless ← ask (·.isDirectory path) do throw fault

/-- A path and the paths of the directories that it is in, from the inside out. -/
def withAncestors (path : String) : List String := go (Path.parts path).length path
where
  go : Nat → String → List String
    | 0, path => [path]
    | count + 1, path =>
      match Path.parent? path with
      | none => [path]
      | some parent => path :: go count parent

/-- Makes the first of some directories, of which each is in the next one. -/
def makeFirst : List String → Change Unit
  | [] => pure ()
  | path :: outer => do
    if path.isEmpty then return
    try ensureDirectory path
    catch fault =>
      if fault != .notFound then throw fault
      makeFirst outer
      ensureDirectory path

def makeDirectories (path : String) : Change Unit := makeFirst (withAncestors path)

def write (path : String) (content : Content) : Change Unit := do
  match ← askOrFail (·.locate true path) with
  | .free names => put names (.file content)
  | .item names (.file _) => put names (.file content)
  | .item _ _ => throw .isDirectory

def makeLink (path target : String) : Change Unit := do
  match ← askOrFail (·.locate false path) with
  | .free names => put names (.link target)
  | .item _ _ => throw .alreadyExists

def remove (path : String) : Change Unit := do
  match ← askOrFail (·.locate false path) with
  | .free _ => throw .notFound
  | .item _ .directory => throw .isDirectory
  | .item names _ => modify (·.erase names)

def removeAll (path : String) : Change Unit := do
  match ← askOrFail (·.locate false path) with
  | .free _ => throw .notFound
  | .item names _ => modify (·.prune names)

/-- Moves a file or a link to another path, in place of the file or link there. -/
def rename (source target : String) : Change Unit := do
  match ← askOrFail (·.locate false source) with
  | .free _ => throw .notFound
  | .item old found =>
    let last := (FileTree.piecesOf target).getLast?
    if last == some "." || last == some ".." then throw .busy
    if last == some "" && !target.isEmpty then throw .notDirectory
    match ← askOrFail (·.locate false target) with
    | .item _ .directory => throw .isDirectory
    | .item new _ => move old new found
    | .free new => move old new found
where
  move (old new : Names) (found : Item) : Change Unit := do
    unless old = new do modify fun tree => (tree.erase old).put new found

end Change

/-- The changes that a disk makes when it is asked for them. -/
structure Disk where
  makeDirectories : String → Change Unit
  write : String → Content → Change Unit
  rename : String → String → Change Unit
  remove : String → Change Unit

/-- The disk where a change fails only if the tree does not allow it. -/
def Disk.sound : Disk where
  makeDirectories := Change.makeDirectories
  write := Change.write
  rename := Change.rename
  remove := Change.remove

end Phrasebook
