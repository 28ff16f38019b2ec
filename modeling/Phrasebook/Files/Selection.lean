import Phrasebook.Files.Glob
import Phrasebook.Files.Tree
import Phrasebook.Log

/-!
The script files that inputs stand for: files as they are given, and the script files in directories.
What is excluded is left out.
-/

set_option autoImplicit false

namespace Phrasebook

/-- What is left out: all that a path leads to, and all that a pattern matches. -/
structure Exclusion where
  places : List String := []
  patterns : List (List Glob.Token) := []
  deriving DecidableEq, Repr

namespace Exclusion

/-- Adds an exclusion by its text. One with wildcards is a pattern, and is ignored with a warning if
it is malformed. -/
def add (exclusion : Exclusion) (text : String) : Exclusion × List Log.Event :=
  if Glob.isPattern text then
    match Glob.parse text with
    | .ok tokens => ({ exclusion with patterns := exclusion.patterns ++ [tokens] }, [])
    | .error error =>
      (exclusion, [Log.warn .selection "ignoring invalid exclude pattern"
        [("pattern", text), ("error", error.message)]])
  else ({ exclusion with places := exclusion.places ++ [text] }, [])

def ofTexts : List String → Exclusion × List Log.Event
  | texts => texts.foldl (fun (exclusion, events) text =>
      let (next, more) := exclusion.add text
      (next, events ++ more)) ({}, [])

def excludes (exclusion : Exclusion) (path : String) : Bool :=
  exclusion.places.any (Path.startsWith path) || exclusion.patterns.any (Glob.isMatch · path)

end Exclusion

structure Selection where
  files : List String := []
  missing : List String := []
  events : List Log.Event := []
  deriving DecidableEq, Repr

namespace Selection

def scriptExtensions : List String := ["ts", "tsx", "mts", "cts", "js", "jsx", "mjs", "cjs"]

def isScript (path : String) : Bool :=
  match Path.extension? path with
  | some found => scriptExtensions.contains found
  | none => false

/-- The paths of the files in a directory, and in those in it up to the given depth. Links are not
followed. -/
def filesIn (tree : FileTree) : Nat → String → Names → List String
  | depth, path, names =>
    (tree.childrenOf names).flatMap fun (name, item) =>
      let inner := Path.join path name
      match item, depth with
      | .file _, _ => [inner]
      | .directory, depth + 1 => filesIn tree depth inner (names ++ [name])
      | _, _ => []

def depthOf (tree : FileTree) (recursive : Bool) : Nat :=
  if recursive then tree.items.length else 0

/-- The paths that one input stands for, or nothing if it does not exist. -/
def pathsOf (tree : FileTree) (recursive : Bool) (input : String) : Option (List String) :=
  match tree.resolve input with
  | .ok (_, .file _) => some [input]
  | .ok (names, .directory) =>
    some ((filesIn tree (depthOf tree recursive) input names).filter isScript)
  | _ => none

def addInput (tree : FileTree) (exclusion : Exclusion) (recursive : Bool) (selection : Selection)
    (input : String) : Selection :=
  match pathsOf tree recursive input with
  | some paths =>
    { selection with
      files := (paths.filter (!exclusion.excludes ·)).foldl (fun files path => Path.insert path files)
        selection.files }
  | none =>
    { selection with
      missing := selection.missing ++ [input]
      events := selection.events ++
        [Log.warn .selection "input path does not exist" [("path", input)]] }

/-- The files that inputs stand for. A directory stands for the script files in it, and for those in
the directories in it if the search is recursive. -/
def collect (tree : FileTree) (inputs excludes : List String) (recursive : Bool) : Selection :=
  let (exclusion, events) := Exclusion.ofTexts excludes
  inputs.foldl (addInput tree exclusion recursive) { events }

end Selection

end Phrasebook
