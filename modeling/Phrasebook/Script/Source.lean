import Phrasebook.Text.Blank

/-!
Script text addressed by character position, its lines, and the dialect that a file name selects.
-/

set_option autoImplicit false

namespace Phrasebook.Script

abbrev Source := Array Char

namespace Source

/-- The characters of a text; a byte order mark at its start does not count. -/
def ofText (text : String) : Source :=
  match text.toList with
  | '\ufeff' :: rest => rest.toArray
  | characters => characters.toArray

/-- Whether the character at a position ends a line: a line feed, or a carriage return that no line
feed follows. -/
def endsLine (source : Source) (position : Nat) : Bool :=
  match source[position]? with
  | some '\n' => true
  | some '\r' => source[position + 1]? != some '\n'
  | _ => false

def lineAt (source : Source) (position : Nat) : Nat :=
  ((List.range position).filter source.endsLine).length + 1

def slice (source : Source) (start stop : Nat) : List Char := (source.extract start stop).toList

end Source

structure Span where
  start : Nat
  stop : Nat
  deriving DecidableEq, Repr

structure Dialect where
  types : Bool
  elements : Bool
  deriving DecidableEq, Repr

/-- The part of a path after its last point, or the whole path without one. -/
def extension (path : List Char) : List Char :=
  (path.reverse.takeWhile (· != '.')).reverse

/-- The dialect of a file: four extensions have elements and no types, every other one has types,
and one of these has elements too. -/
def Dialect.ofPath (path : String) : Dialect :=
  let found := String.ofList (extension path.toList)
  if ["js", "jsx", "mjs", "cjs"].contains found then ⟨false, true⟩
  else ⟨true, found == "tsx"⟩

end Phrasebook.Script
