import Phrasebook.Catalog.Reader

/-!
The written form of a catalog: one block per entry in file order, with an empty line between blocks.
-/

set_option autoImplicit false

namespace Phrasebook.Catalog

def endLine (line : List Char) : List Char := line ++ ['\n']

/-- The pieces of a text that end right after each line feed; the last piece may lack one. -/
def segments : List Char → List (List Char)
  | [] => []
  | '\n' :: rest => ['\n'] :: segments rest
  | c :: rest =>
    match segments rest with
    | [] => [[c]]
    | piece :: pieces => (c :: piece) :: pieces

def quoted (text : List Char) : List Char := '"' :: (escape text ++ ['"'])

/-- The lines of a string after its keyword. A text of several lines is written line by line after
an empty string. -/
def stringLines (keyword text : List Char) : List (List Char) :=
  match segments text with
  | first :: second :: others =>
    (keyword ++ quoted []) :: (first :: second :: others).map quoted
  | _ => [keyword ++ quoted text]

def flagNames (entry : Entry) : List (List Char) :=
  (if entry.isFormat then [formatFlag] else []) ++
    (if entry.isDocumentation then [documentationFlag] else [])

def metadataLines (entry : Entry) : List (List Char) :=
  let remarks := (entry.comments.flatMap fun text => Text.lines text.toList).map fun line =>
    "#. ".toList ++ Text.trim line
  let places := entry.sortedOccurrences.map fun occurrence => "#: ".toList ++ occurrence.toChars
  let flags := match flagNames entry with
    | [] => []
    | names => ["#, ".toList ++ Text.joinWith [',', ' '] names]
  remarks ++ places ++ flags

def renderEntry (entry : Entry) : List Char :=
  (metadataLines entry ++ stringLines keyWord entry.key.toList ++
    stringLines textWord entry.localized.toList).flatMap endLine

def renderChars (catalog : Catalog) : List Char :=
  Text.joinWith ['\n'] (catalog.sorted.map renderEntry)

def render (catalog : Catalog) : String := String.ofList catalog.renderChars

end Phrasebook.Catalog
