import Phrasebook.Text.Blank
import Phrasebook.Text.Category

/-!
Recognition of brace placeholders: an optional name or number, accessors, a conversion and a format,
as in `{user.name!r:>8}` or `{items[0]}`. Doubled braces are literal.
-/

set_option autoImplicit false

namespace Phrasebook.Text

/-- Text without the pairs of `c` in it, taken from left to right. -/
def dropPairs (c : Char) : List Char → List Char
  | a :: b :: rest =>
    if a = c ∧ b = c then dropPairs c rest else a :: dropPairs c (b :: rest)
  | short => short

def isNameStart (c : Char) : Bool := c.isAlpha || c == '_'

def dropName? : List Char → Option (List Char)
  | c :: rest => if isNameStart c then some (rest.dropWhile isWordChar) else none
  | [] => none

def dropFieldName (text : List Char) : List Char :=
  (dropName? text).getD (text.dropWhile isDecimal)

/-- What follows an accessor: a name after a point, or an index in brackets. -/
def dropAccessor? : List Char → Option (List Char)
  | '.' :: rest => dropName? rest
  | '[' :: rest => dropStart? [']'] (rest.dropWhile fun c => c != ']' && c != '{' && c != '}')
  | _ => none

/-- What follows all accessors at the start of the text; `fuel` bounds their number. -/
def dropAccessors : Nat → List Char → List Char
  | 0, text => text
  | fuel + 1, text =>
    match dropAccessor? text with
    | some rest => dropAccessors fuel rest
    | none => text

def dropConversion : List Char → List Char
  | '!' :: c :: rest => if c == 'r' || c == 's' || c == 'a' then rest else '!' :: c :: rest
  | text => text

def dropFormat : List Char → List Char
  | ':' :: rest => rest.dropWhile fun c => c != '{' && c != '}'
  | text => text

def closesField (text : List Char) : Bool :=
  let rest := dropFieldName text
  (dropFormat (dropConversion (dropAccessors rest.length rest))).head? == some '}'

def hasPlaceholder : List Char → Bool
  | [] => false
  | c :: rest => (c == '{' && closesField rest) || hasPlaceholder rest

/-- Whether the text has a placeholder once doubled braces are taken out, the opening ones first. -/
def isFormatString (text : List Char) : Bool :=
  hasPlaceholder (dropPairs '}' (dropPairs '{' text))

end Phrasebook.Text
