import Phrasebook.Files.Fault
import Phrasebook.Files.Path

/-!
A tree of files, directories and links, the way from a path to what it names, and questions about
that.
-/

set_option autoImplicit false

namespace Phrasebook

inductive Content
  | text (text : String)
  | raw (bytes : List UInt8)
  deriving DecidableEq, Repr

/-- Bytes as the text that they spell, if they spell one. -/
def Content.ofBytes (bytes : List UInt8) : Content :=
  match String.fromUTF8? (ByteArray.mk bytes.toArray) with
  | some spelled => .text spelled
  | none => .raw bytes

inductive Item
  | file (content : Content)
  | directory
  | link (target : String)
  deriving DecidableEq, Repr

abbrev Names := List String

/-- A tree of files. The parent of every item is a directory of the tree. -/
structure FileTree where
  items : List (Names × Item) := []
  /-- The directory that relative paths start from. -/
  place : Names := []
  deriving DecidableEq, Repr

namespace FileTree

def item? (tree : FileTree) (names : Names) : Option Item :=
  if names.isEmpty then some .directory
  else (tree.items.find? (·.1 == names)).map (·.2)

/-- Where a path leads. -/
inductive Spot
  | item (names : Names) (found : Item)
  /-- To a name that is not taken, in a directory that exists. -/
  | free (names : Names)
  deriving DecidableEq, Repr

def nameLimit : Nat := 255

def pathLimit : Nat := 4096

def linkLimit : Nat := 40

def piecesOf (path : String) : List String :=
  (Text.splitAt (· == '/') path.toList).map String.ofList

/-- Follows pieces of a path from a directory. A link as the last piece is followed on demand. -/
def walk (tree : FileTree) (followsLast : Bool) (links : Nat) (directory : Names) :
    List String → Except Fault Spot
  | [] => .ok (.item directory .directory)
  | piece :: rest =>
    if piece == "" || piece == "." then walk tree followsLast links directory rest
    else if piece == ".." then walk tree followsLast links directory.dropLast rest
    else if piece.utf8ByteSize > nameLimit then .error .nameTooLong
    else
      let names := directory ++ [piece]
      match tree.item? names with
      | none => if rest.isEmpty then .ok (.free names) else .error .notFound
      | some .directory => walk tree followsLast links names rest
      | some (.file content) =>
        if rest.isEmpty then .ok (.item names (.file content)) else .error .notDirectory
      | some (.link target) =>
        if rest.isEmpty && !followsLast then .ok (.item names (.link target))
        else match links with
          | 0 => .error .tooManyLinks
          | links + 1 =>
            let start := if Path.isAbsolute target.toList then [] else directory
            walk tree followsLast links start (piecesOf target ++ rest)
termination_by pieces => (links, pieces.length)

def locate (tree : FileTree) (followsLast : Bool) (path : String) : Except Fault Spot :=
  if path.toList.contains '\x00' then .error .nulInPath
  else if path.isEmpty then .error .notFound
  else if path.utf8ByteSize ≥ pathLimit then .error .nameTooLong
  else
    let start := if Path.isAbsolute path.toList then [] else tree.place
    walk tree followsLast linkLimit start (piecesOf path)

/-- The item that a path leads to, through links, with its names. -/
def resolve (tree : FileTree) (path : String) : Except Fault (Names × Item) := do
  match ← tree.locate true path with
  | .item names found => return (names, found)
  | .free _ => throw .notFound

def isPresent (tree : FileTree) (path : String) : Bool := (tree.resolve path).isOk

def isFile (tree : FileTree) (path : String) : Bool :=
  match tree.resolve path with
  | .ok (_, .file _) => true
  | _ => false

def isDirectory (tree : FileTree) (path : String) : Bool :=
  match tree.resolve path with
  | .ok (_, .directory) => true
  | _ => false

def readText (tree : FileTree) (path : String) : Except Fault String := do
  match ← tree.resolve path with
  | (_, .file (.text text)) => return text
  | (_, .file (.raw _)) => throw .notText
  | (_, _) => throw .isDirectory

def absolute (names : Names) : String :=
  match names with
  | [] => "/"
  | names => String.join (names.map ("/" ++ ·))

/-- The path from the root, without links, that a path leads along. -/
def canonical (tree : FileTree) (path : String) : Except Fault String := do
  return absolute (← tree.resolve path).1

def placePath (tree : FileTree) : String := absolute tree.place

def childrenOf (tree : FileTree) (directory : Names) : List (String × Item) :=
  let found := tree.items.filterMap fun (names, item) =>
    match names.getLast? with
    | some name => if names.dropLast == directory then some (name, item) else none
    | none => none
  found.mergeSort fun a b => decide (a.1 ≤ b.1)

def children (tree : FileTree) (path : String) : Except Fault (List (String × Item)) := do
  match ← tree.resolve path with
  | (names, .directory) => return tree.childrenOf names
  | _ => throw .notDirectory

end FileTree

end Phrasebook
