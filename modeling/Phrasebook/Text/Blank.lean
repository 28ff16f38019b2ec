/-!
White space of any script, and the ways of cutting text at it and at line ends. Text is a list of
characters here; lines are separated by line feeds.
-/

set_option autoImplicit false

namespace Phrasebook.Text

/-- The characters with the White_Space property. -/
def isBlank (c : Char) : Bool :=
  let code := c.toNat
  (0x9 ≤ code && code ≤ 0xd) || code == 0x20 || code == 0x85 || code == 0xa0 || code == 0x1680 ||
    (0x2000 ≤ code && code ≤ 0x200a) || code == 0x2028 || code == 0x2029 || code == 0x202f ||
    code == 0x205f || code == 0x3000

def trimStart (text : List Char) : List Char := text.dropWhile isBlank

def trimEnd (text : List Char) : List Char := (text.reverse.dropWhile isBlank).reverse

def trim (text : List Char) : List Char := trimEnd (trimStart text)

def isBlankLine (text : List Char) : Bool := text.all isBlank

/-- The pieces between the characters that satisfy `cut`; there is always one more piece than
there are cuts. -/
def splitAt (cut : Char → Bool) : List Char → List (List Char)
  | [] => [[]]
  | c :: rest =>
    if cut c then [] :: splitAt cut rest
    else match splitAt cut rest with
      | [] => [[c]]
      | piece :: pieces => (c :: piece) :: pieces

def splitLines (text : List Char) : List (List Char) := splitAt (· == '\n') text

def words (text : List Char) : List (List Char) :=
  (splitAt isBlank text).filter (!·.isEmpty)

def dropReturn (line : List Char) : List Char :=
  if line.getLast? == some '\r' then line.dropLast else line

/-- The lines of text without their ends: a line feed, or a carriage return and a line feed. Text
that ends with a line feed has no further line after it. -/
def lines (text : List Char) : List (List Char) :=
  finish (splitLines text)
where
  /-- The last piece ended no line: it is kept as it is, or dropped when it is empty. -/
  finish : List (List Char) → List (List Char)
    | [] => []
    | [last] => if last.isEmpty then [] else [last]
    | line :: rest => dropReturn line :: finish rest

def joinWith (separator : List Char) : List (List Char) → List Char
  | [] => []
  | [piece] => piece
  | piece :: pieces => piece ++ separator ++ joinWith separator pieces

def dropStart? : List Char → List Char → Option (List Char)
  | [], text => some text
  | _ :: _, [] => none
  | c :: start, d :: text => if c = d then dropStart? start text else none

def dropEnd? (finish text : List Char) : Option (List Char) :=
  (dropStart? finish.reverse text.reverse).map List.reverse

end Phrasebook.Text
