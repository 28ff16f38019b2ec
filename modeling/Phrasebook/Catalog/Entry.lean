import Phrasebook.Text.Blank

/-!
One message of a catalog: its key, its text in the catalog's locale, and where and how the sources
use it.
-/

set_option autoImplicit false

namespace Phrasebook

structure Occurrence where
  path : String
  line : Nat
  deriving DecidableEq, Repr

namespace Occurrence

def lineBound : Nat := Nat.pow 2 64

def before (a b : Occurrence) : Bool :=
  decide (a.path < b.path) || (a.path == b.path && decide (a.line < b.line))

def atMost (a b : Occurrence) : Bool := !before b a

def digitsValue (digits : List Char) : Nat :=
  digits.foldl (fun value c => value * 10 + (c.toNat - '0'.toNat)) 0

/-- The number that a line reference spells: ASCII digits after an optional plus sign, below the
bound of line numbers. -/
def lineNumber? (text : List Char) : Option Nat :=
  let digits := (Text.dropStart? ['+'] text).getD text
  if !digits.isEmpty && digits.all Char.isDigit && decide (digitsValue digits < lineBound) then
    some (digitsValue digits)
  else none

/-- Reads `path:line`. The line follows the last colon, and the path is not empty. -/
def ofChars? (text : List Char) : Option Occurrence :=
  let reversed := text.reverse
  match reversed.dropWhile (· != ':') with
  | [] => none
  | _ :: path =>
    if path.isEmpty then none
    else (lineNumber? (reversed.takeWhile (· != ':')).reverse).map fun line =>
      ⟨String.ofList path.reverse, line⟩

def parse? (text : String) : Option Occurrence := ofChars? text.toList

def toChars (occurrence : Occurrence) : List Char :=
  occurrence.path.toList ++ ':' :: Nat.toDigits 10 occurrence.line

def render (occurrence : Occurrence) : String := String.ofList occurrence.toChars

end Occurrence

structure Entry where
  key : String
  /-- The text in the catalog's locale; empty until someone supplies it. -/
  localized : String := ""
  occurrences : List Occurrence := []
  comments : List String := []
  isFormat : Bool := false
  isDocumentation : Bool := false
  deriving DecidableEq, Repr

namespace Entry

def ofKey (key : String) : Entry := { key }

def isLocalized (entry : Entry) : Bool := !entry.localized.isEmpty

def addOccurrence (entry : Entry) (occurrence : Occurrence) : Entry :=
  if entry.occurrences.contains occurrence then entry
  else { entry with occurrences := entry.occurrences ++ [occurrence] }

def dropRepeats {α : Type} [DecidableEq α] : List α → List α
  | a :: b :: rest => if a = b then dropRepeats (b :: rest) else a :: dropRepeats (b :: rest)
  | short => short

def sortedDistinct (texts : List String) : List String :=
  dropRepeats (texts.mergeSort fun a b => decide (a ≤ b))

def addComments (entry : Entry) (comments : List String) : Entry :=
  { entry with comments := sortedDistinct (entry.comments ++ comments) }

def sortedOccurrences (entry : Entry) : List Occurrence :=
  entry.occurrences.mergeSort Occurrence.atMost

/-- The smallest occurrence, which decides the place of the entry in the file. -/
def firstOccurrence? (entry : Entry) : Option Occurrence :=
  match entry.occurrences with
  | [] => none
  | first :: others =>
    some (others.foldl (fun least other => if other.before least then other else least) first)

/-- Whether an entry comes before another one in the file: by first occurrence, those without any
last, and by key between equals. -/
def before (a b : Entry) : Bool :=
  match a.firstOccurrence?, b.firstOccurrence? with
  | some x, some y => x.before y || (x == y && decide (a.key < b.key))
  | some _, none => true
  | none, some _ => false
  | none, none => decide (a.key < b.key)

def atMost (a b : Entry) : Bool := !before b a

end Entry

end Phrasebook
