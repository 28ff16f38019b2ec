import Phrasebook.Text.Dedent

/-!
The message in a documentation comment: the text between the delimiters, freed of the column of
asterisks at its left, of blank lines at either end and of its margin.
-/

set_option autoImplicit false

namespace Phrasebook.Text

/-- A line without the asterisk that comes first on it, blanks aside. -/
def dropGutter (line : List Char) : List Char :=
  match trimStart line with
  | '*' :: rest => rest
  | _ => line

def dropBlankEnds (block : List (List Char)) : List (List Char) :=
  ((block.dropWhile isBlankLine).reverse.dropWhile isBlankLine).reverse

/-- The message of a documentation comment, whose text starts after the opening slash and
asterisk. The gutter runs from the second line on. -/
def cleanDocComment (text : List Char) : List Char :=
  let body := (dropStart? ['*'] text).getD text
  match splitLines body with
  | [] => []
  | first :: others =>
    let block := (first :: others.map dropGutter).map trimEnd
    dedent (joinWith ['\n'] (dropBlankEnds block))

end Phrasebook.Text
