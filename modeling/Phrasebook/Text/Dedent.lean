import Phrasebook.Text.Blank

/-!
Removal of the margin that the lines of a block share, so that an indented block and its flush form
are the same text.
-/

set_option autoImplicit false

namespace Phrasebook.Text

def margin (line : List Char) : List Char := line.takeWhile fun c => c == ' ' || c == '\t'

def commonStart : List Char → List Char → List Char
  | c :: text, d :: other => if c = d then c :: commonStart text other else []
  | [], _ => []
  | _ :: _, [] => []

/-- The longest margin common to all lines that are not blank. -/
def sharedMargin (block : List (List Char)) : List Char :=
  match (block.filter (!isBlankLine ·)).map margin with
  | [] => []
  | first :: others => others.foldl commonStart first

/-- A line without the given margin; a blank line becomes empty. -/
def dropMargin (shared line : List Char) : List Char :=
  if isBlankLine line then [] else (dropStart? shared line).getD line

def dedent (text : List Char) : List Char :=
  let block := splitLines text
  joinWith ['\n'] (block.map (dropMargin (sharedMargin block)))

end Phrasebook.Text
