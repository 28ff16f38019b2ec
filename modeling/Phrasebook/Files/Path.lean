import Phrasebook.Text.Blank

/-!
Paths as text: their parts, and the ways of building one path from another. Slashes in a row count as
one, and a single point counts only at the start of a relative path.
-/

set_option autoImplicit false

namespace Phrasebook.Path

inductive Part
  | root
  | here
  | up
  | name (text : String)
  deriving DecidableEq, Repr

namespace Part

def rank : Part → Nat
  | root => 0
  | here => 1
  | up => 2
  | name _ => 3

def before : Part → Part → Bool
  | name a, name b => decide (a < b)
  | a, b => decide (a.rank < b.rank)

end Part

def isAbsolute (path : List Char) : Bool := path.head? == some '/'

/-- What a path starts with before its first name, with what follows. -/
def splitHead : List Char → List Char × List Char
  | '/' :: rest => (['/'], rest)
  | ['.'] => (['.'], [])
  | '.' :: '/' :: rest => (['.'], '/' :: rest)
  | path => ([], path)

def isVoid (piece : List Char) : Bool := piece.isEmpty || piece == ['.']

def partOf? (piece : List Char) : Option Part :=
  if isVoid piece then none
  else if piece == ['.', '.'] then some .up
  else some (.name (String.ofList piece))

def pieces (path : List Char) : List (List Char) :=
  Text.splitAt (· == '/') (splitHead path).2

def parts (path : String) : List Part :=
  let head := match (splitHead path.toList).1 with
    | ['/'] => [Part.root]
    | ['.'] => [Part.here]
    | _ => []
  head ++ (pieces path.toList).filterMap partOf?

def dropVoidEnd (found : List (List Char)) : List (List Char) :=
  (found.reverse.dropWhile isVoid).reverse

/-- The path without its last part; a root and the empty path have no parent. -/
def parent? (path : String) : Option String :=
  let (head, _) := splitHead path.toList
  match dropVoidEnd (pieces path.toList) with
  | [] => if head == ['.'] then some "" else none
  | found =>
    some (String.ofList (head ++ Text.joinWith ['/'] (dropVoidEnd found.dropLast)))

def fileName? (path : String) : Option String :=
  match (parts path).getLast? with
  | some (.name text) => some text
  | _ => none

/-- What follows the last point of the name, unless the point comes first. -/
def extension? (path : String) : Option String := do
  let reversed := (← fileName? path).toList.reverse
  match reversed.dropWhile (· != '.') with
  | _ :: _ :: _ => some (String.ofList (reversed.takeWhile (· != '.')).reverse)
  | _ => none

def stem? (path : String) : Option String := do
  let name ← fileName? path
  match name.toList.reverse.dropWhile (· != '.') with
  | _ :: before@(_ :: _) => some (String.ofList before.reverse)
  | _ => some name

/-- The path that `path` is when seen from `base`. -/
def join (base path : String) : String :=
  if isAbsolute path.toList || base.isEmpty then path
  else if base.toList.getLast? == some '/' then base ++ path
  else base ++ "/" ++ path

def Part.spelling : Part → String
  | .root => "/"
  | .here => "."
  | .up => ".."
  | .name text => text

def ofParts (parts : List Part) : String :=
  parts.foldl (fun path part => join path part.spelling) ""

def withFileName (path name : String) : String :=
  match fileName? path with
  | some _ => join ((parent? path).getD "") name
  | none => join path name

def startsWith (path start : String) : Bool := (parts start).isPrefixOf (parts path)

def partsBefore : List Part → List Part → Bool
  | _, [] => false
  | [], _ :: _ => true
  | a :: as, b :: bs => a.before b || (a == b && partsBefore as bs)

def before (a b : String) : Bool := partsBefore (parts a) (parts b)

def same (a b : String) : Bool := parts a == parts b

/-- Adds a path in its place among paths in order, unless one with the same parts is there. -/
def insert (path : String) : List String → List String
  | [] => [path]
  | other :: rest =>
    if same path other then other :: rest
    else if before path other then path :: other :: rest
    else other :: insert path rest

end Phrasebook.Path
