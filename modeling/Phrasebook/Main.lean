import Phrasebook.CommandLine.Run

/-!
The program itself: it takes in the files of the repository that it is started in, does what its
arguments say, and brings the changes to the disk.
-/

set_option autoImplicit false

namespace Phrasebook.Main

/-- The item at a path on the disk. A link is kept as a link to where it leads in the end. -/
def itemAt (path : String) : IO Item := do
  let real := (← IO.FS.realPath path).toString
  if real != path then return .link real
  let data ← IO.FS.readBinFile path
  return .file (.ofBytes data.toList)

partial def itemsIn (place : String) (names : Names) : IO (List (Names × Item)) := do
  let here := (← IO.currentDir) / place
  let mut found := []
  for entry in ← (try here.readDir catch _ => pure #[]) do
    let path := Path.join place entry.fileName
    let inner := names ++ [entry.fileName]
    let real := (← (try IO.FS.realPath path catch _ => pure here)).toString
    if real == path && (← entry.path.isDir) then
      found := found ++ (inner, .directory) :: (← itemsIn path inner)
    else
      try found := found ++ [(inner, ← itemAt path)] catch _ => pure ()
  return found

def namesOf (path : String) : Names := (FileTree.piecesOf path).filter (!·.isEmpty)

/-- The directory that the files are taken in from: the nearest one at or above a directory that holds
a repository or settings, or that directory itself. -/
def topOf (place : String) : IO String := do
  for path in Change.withAncestors place do
    let here := (← IO.currentDir) / path
    if (← (here / Settings.repositoryMark).pathExists)
        || (← (here / Settings.fileName).pathExists) then return path
  return place

def directoriesAlong (names : Names) : List (Names × Item) :=
  (List.range names.length).map fun count => (names.take (count + 1), .directory)

def itemsFrom (path : String) : IO (List (Names × Item)) := do
  let names := namesOf path
  if ← ((← IO.currentDir) / path).isDir then
    return directoriesAlong names ++ (← itemsIn path names)
  return directoriesAlong names.dropLast ++ [(names, ← itemAt path)]

/-- The tree of the files around a directory and of those that arguments name. -/
def takeIn (place : String) (arguments : List String) : IO FileTree := do
  let mut items ← itemsFrom (← topOf place)
  for argument in arguments do
    if ← ((← IO.currentDir) / argument).pathExists then
      items := items ++ (← itemsFrom (← IO.FS.realPath argument).toString)
  return items.foldl (fun tree (names, item) => tree.put names item) { place := namesOf place }

def bringOut (names : Names) (item : Item) : IO Unit := do
  let path := FileTree.absolute names
  match item with
  | .directory => IO.FS.createDirAll path
  | .file (.text text) => IO.FS.writeFile path text
  | .file (.raw bytes) => IO.FS.writeBinFile path ⟨bytes.toArray⟩
  | .link _ => pure ()

/-- Brings the changes of a tree to the disk. -/
def bringChanges (before after : FileTree) : IO Unit := do
  for (names, item) in after.items do
    if before.item? names != some item then bringOut names item

def run (arguments : List String) : IO UInt32 := do
  let environment : CommandLine.Environment :=
    ⟨← IO.getEnv CommandLine.localesVariable, ← IO.getEnv "LINGO_LOG"⟩
  let before ← takeIn (← IO.currentDir).toString arguments
  let (outcome, after) := (CommandLine.execute false environment arguments).run before
  bringChanges before after
  (← IO.getStdout).putStr outcome.output
  (← IO.getStderr).putStr outcome.diagnostics
  return outcome.status.code.toUInt32

end Phrasebook.Main

def main (arguments : List String) : IO UInt32 := Phrasebook.Main.run arguments
