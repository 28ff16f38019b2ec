import Phrasebook.Script.Token
import Phrasebook.Text.Category
import Phrasebook.Text.Digit

/-!
Reading of tokens, comments, quoted strings, template chunks, regular expressions and the text between
elements, each from a given position. A reader returns the position after what it has read, or nothing
when the characters do not fit.
-/

set_option autoImplicit false

namespace Phrasebook.Script.Lexer

def skipWhile (source : Source) (p : Char → Bool) (i : Nat) : Nat :=
  if h : i < source.size then
    if p source[i] then skipWhile source p (i + 1) else i
  else i
termination_by source.size - i

theorem le_skipWhile (source : Source) (p : Char → Bool) (i : Nat) : i ≤ skipWhile source p i := by
  fun_induction skipWhile source p i with
  | case1 i _ _ ih => exact Nat.le_trans (Nat.le_succ i) ih
  | case2 => exact Nat.le_refl _
  | case3 => exact Nat.le_refl _

def isLineEnd (c : Char) : Bool := c == '\n' || c == '\r' || c == '\u2028' || c == '\u2029'

def isSpace (c : Char) : Bool :=
  c == '\ufeff' || c == '\u200b' || (Text.isBlank c && !isLineEnd c)

def isNameStart (c : Char) : Bool :=
  c.isAlpha || c == '$' || c == '_' || (c.toNat ≥ 0x80 && Text.isIdentifierStart c)

def isNamePart (c : Char) : Bool :=
  c.isAlphanum || c == '$' || c == '_' ||
    (c.toNat ≥ 0x80 && (Text.isIdentifierPart c || c == '\u200c' || c == '\u200d'))

def startsAt (source : Source) (i : Nat) : List Char → Bool
  | [] => true
  | c :: rest => source[i]? == some c && startsAt source (i + 1) rest

structure Trivia where
  stop : Nat
  newline : Bool
  comments : List Comment
  /-- The first mark in it, which counts as the start of the token. -/
  mark : Option Nat := none

def blockEnd? (source : Source) (i : Nat) : Option Nat :=
  let star := skipWhile source (· != '*') i
  if h : star < source.size then
    if source[star + 1]? == some '/' then some (star + 2)
    else blockEnd? source (star + 1)
  else none
termination_by source.size - i
decreasing_by
  have := le_skipWhile source (· != '*') i
  omega

def lineComment (source : Source) (start length : Nat) : Comment :=
  let stop := skipWhile source (!isLineEnd ·) (start + length)
  ⟨⟨start, stop⟩, false, false, source.slice (start + length) stop⟩

/-- A comment in a block, and the position after it; one that does not end is no comment. It belongs
to the token before it, if that can have comments, and to a semicolon right after it. -/
def blockComment (source : Source) (i : Nat) (newline holds : Bool) : Option Comment × Nat :=
  match blockEnd? source (i + 2) with
  | none => (none, source.size)
  | some stop =>
    let trailing := !newline && (holds || source[stop]? == some ';')
    (some ⟨⟨i, stop⟩, true, trailing, source.slice (i + 2) (stop - 2)⟩, stop)

/-- What hides the rest of a line without being a comment by its look, with its length: markup
comments and arrows, and the lines that a failed merge leaves. All but the first stand at the start of
a line. -/
def mark? (source : Source) (i : Nat) (newline : Bool) : Option Nat :=
  if startsAt source i "<!--".toList then some 4
  else if !newline then none
  else if startsAt source i "-->".toList then some 3
  else if startsAt source i "<<<<<<< ".toList then some 7
  else if startsAt source i ">>>>>>> ".toList then some 8
  else if startsAt source i "=======".toList then some 7
  else none

/-- Reads blanks and comments from a position on, where `holds` says whether the token before them
can have comments of its own. -/
def trivia (source : Source) (holds : Bool) : Nat → Trivia → Trivia
  | 0, found => found
  | fuel + 1, found =>
    match source[found.stop]? with
    | none => found
    | some c =>
      let i := found.stop
      if isSpace c then trivia source holds fuel { found with stop := i + 1 }
      else if isLineEnd c then trivia source holds fuel { found with stop := i + 1, newline := true }
      else if startsAt source i ['/', '/'] then
        let comment := lineComment source i 2
        trivia source holds fuel
          { found with stop := comment.span.stop, comments := comment :: found.comments }
      else if startsAt source i ['/', '*'] then
        let (comment, stop) := blockComment source i found.newline holds
        let breaks := (source.slice i stop).any isLineEnd
        trivia source holds fuel { found with
          stop, newline := found.newline || breaks
          comments := comment.toList ++ found.comments }
      else
        match mark? source i found.newline with
        | none => found
        | some length =>
          let comment := lineComment source i length
          trivia source holds fuel { found with
            stop := comment.span.stop, comments := comment :: found.comments
            mark := found.mark <|> some i }

/-- Digits with separators among them, which do not count. -/
structure Digits where
  value : Nat
  count : Nat
  stop : Nat

/-- The digits of a radix from a position on, at most as many as the limit says. -/
def digits (source : Source) (radix : Nat) (limit : Option Nat) (found : Digits) : Digits :=
  if h : found.stop < source.size then
    if limit == some found.count then found
    else if source[found.stop] == '_' then
      digits source radix limit { found with stop := found.stop + 1 }
    else
      match (Text.hexValue? source[found.stop]).filter (· < radix) with
      | some digit =>
        digits source radix limit ⟨found.value * radix + digit, found.count + 1, found.stop + 1⟩
      | none => found
  else found
termination_by source.size - found.stop

def hexDigits? (source : Source) (count i : Nat) : Option (Nat × Nat) :=
  let found := digits source 16 (some count) ⟨0, 0, i⟩
  if found.count == count then some (found.value, found.stop) else none

def isHighSurrogate (code : Nat) : Bool := 0xd800 ≤ code && code < 0xdc00

def isLowSurrogate (code : Nat) : Bool := 0xdc00 ≤ code && code < 0xe000

def joinSurrogates (high low : Nat) : Nat := 0x10000 + (high - 0xd800) * 0x400 + (low - 0xdc00)

/-- Four digits that may be the first half of a surrogate pair, together with the escape for its second
half if that follows. -/
def surrogate? (source : Source) (i : Nat) : Option (Nat × Nat) := do
  let (first, stop) ← hexDigits? source 4 i
  let second := if isHighSurrogate first && startsAt source stop ['\\', 'u'] then
      (hexDigits? source 4 (stop + 2)).filter fun (low, _) => isLowSurrogate low
    else none
  match second with
  | some (low, stop) => some (joinSurrogates first low, stop)
  | none => some (first, stop)

/-- The code point of an escape after its letter `u`: four digits, or digits in braces. A surrogate
pair is read as one, also if braces hold both of its halves. -/
def unicodeEscape? (source : Source) (i : Nat) : Option (Nat × Nat) := do
  let braced := source[i]? == some '{'
  let start := if braced then i + 1 else i
  let found := digits source 16 (if braced then none else some 4) ⟨0, 0, start⟩
  if found.count == 0 || (!braced && found.count < 4) || found.value > 0x10ffff then none
  else
    let (code, stop) ←
      if isHighSurrogate found.value || isLowSurrogate found.value then surrogate? source start
      else some (found.value, found.stop)
    if !braced then some (code, stop)
    else if source[stop]? == some '}' then some (code, stop + 1)
    else none

def octalValue? (c : Char) : Option Nat :=
  if '0' ≤ c ∧ c ≤ '7' then some (c.toNat - '0'.toNat) else none

/-- The code point of up to `count` more octal digits, below 256. -/
def octalDigits (source : Source) : Nat → Nat → Nat → Nat × Nat
  | 0, i, value => (value, i)
  | count + 1, i, value =>
    match source[i]?.bind octalValue? with
    | some digit =>
      if value * 8 + digit < 256 then octalDigits source count (i + 1) (value * 8 + digit)
      else (value, i)
    | none => (value, i)

/-- The code points of the escape after a backslash, and the position after it. A line end stands
for nothing. Octal escapes are for strings alone. -/
def escape? (source : Source) (i : Nat) (inTemplate : Bool) : Option (List Nat × Nat) := do
  let c ← source[i]?
  if c == 'n' then some ([0xa], i + 1)
  else if c == 'r' then some ([0xd], i + 1)
  else if c == 't' then some ([0x9], i + 1)
  else if c == 'b' then some ([0x8], i + 1)
  else if c == 'v' then some ([0xb], i + 1)
  else if c == 'f' then some ([0xc], i + 1)
  else if c == '\r' then some ([], if source[i + 1]? == some '\n' then i + 2 else i + 1)
  else if isLineEnd c then some ([], i + 1)
  else if c == 'x' then (hexDigits? source 2 (i + 1)).map fun (value, stop) => ([value], stop)
  else if c == 'u' then (unicodeEscape? source (i + 1)).map fun (value, stop) => ([value], stop)
  else
    match octalValue? c with
    | none => some ([c.toNat], i + 1)
    | some digit =>
      if digit == 0 && ((source[i + 1]?.bind octalValue?).isNone) then some ([0], i + 1)
      else if inTemplate then none
      else
        let (value, stop) := octalDigits source 2 (i + 1) digit
        some ([value], stop)

/-- The text of code points in which each high surrogate stands right before a low one, and the pair
for one character; nothing if a surrogate stands alone. -/
def ofCodePoints? : List Nat → Option (List Char)
  | [] => some []
  | high :: rest =>
    if isHighSurrogate high then
      match rest with
      | low :: others =>
        if isLowSurrogate low then
          (ofCodePoints? others).map (Char.ofNat (joinSurrogates high low) :: ·)
        else none
      | [] => none
    else if isLowSurrogate high then none
    else (ofCodePoints? rest).map (Char.ofNat high :: ·)

def ofCodes (codes : List Nat) : Option String := (ofCodePoints? codes).map String.ofList

/-- Reads a quoted string after its quote. Of the code points before `i`, last one first, `recent` are
those after the last escape and `codes` the others. A string that does not end on its line has no
others. -/
def string? (source : Source) (quote : Char) : Nat → Nat → List Nat → List Nat → Option (List Nat × Nat)
  | 0, _, _, _ => none
  | fuel + 1, i, codes, recent =>
    match source[i]? with
    | none => some (recent.reverse, i)
    | some c =>
      if c == quote then some ((recent ++ codes).reverse, i + 1)
      else if c == '\n' || c == '\r' then some (recent.reverse, i)
      else if c == '\\' then do
        let (more, stop) ← escape? source (i + 1) false
        string? source quote fuel stop (more.reverse ++ recent ++ codes) []
      else string? source quote fuel (i + 1) codes (c.toNat :: recent)

structure Chunk where
  /-- The code points, unless an escape among them is malformed. -/
  codes : Option (List Nat)
  isLast : Bool
  /-- The position after the backquote, or after the opening of the substitution. -/
  stop : Nat

private def push (more : List Nat) (codes : Option (List Nat)) : Option (List Nat) :=
  codes.map (more.reverse ++ ·)

/-- Reads a template chunk; `codes` are the code points before `i`, last one first. Line ends count
as line feeds. -/
def chunk? (source : Source) : Nat → Nat → Option (List Nat) → Option Chunk
  | 0, _, _ => none
  | fuel + 1, i, codes => do
    let c ← source[i]?
    if c == '`' then some ⟨codes.map List.reverse, true, i + 1⟩
    else if c == '$' && source[i + 1]? == some '{' then
      some ⟨codes.map List.reverse, false, i + 2⟩
    else if c == '\\' then
      match escape? source (i + 1) true with
      | some (more, stop) => chunk? source fuel stop (push more codes)
      | none => chunk? source fuel (if i + 1 < source.size then i + 2 else i + 1) none
    else if c == '\r' then
      chunk? source fuel (if source[i + 1]? == some '\n' then i + 2 else i + 1) (push [0xa] codes)
    else chunk? source fuel (i + 1) (push [c.toNat] codes)

/-- Reads the body of a regular expression after its first slash; slashes in brackets are plain. -/
def expressionBody? (source : Source) : Nat → Nat → Bool → Option Nat
  | 0, _, _ => none
  | fuel + 1, i, inBrackets => do
    let c ← source[i]?
    if isLineEnd c then none
    else if c == '\\' then
      if (source[i + 1]?.map isLineEnd).getD true then none
      else expressionBody? source fuel (i + 2) inBrackets
    else if c == '[' then expressionBody? source fuel (i + 1) true
    else if c == ']' then expressionBody? source fuel (i + 1) false
    else if c == '/' && !inBrackets then some (i + 1)
    else expressionBody? source fuel (i + 1) inBrackets

/-- The characters that an escape in a word stands for; half of a surrogate pair stands for its
digits. -/
def escapedLetters (code : Nat) : List Char :=
  if isHighSurrogate code || isLowSurrogate code then
    '\\' :: 'u' :: (Nat.toDigits 16 code).map Char.toUpper
  else [Char.ofNat code]

/-- Reads the rest of a word, in which escapes stand for any characters; `letters` are those before `i`,
last one first. -/
def word? (source : Source) : Nat → Nat → List Char → Bool → Option (List Char × Bool × Nat)
  | 0, _, _, _ => none
  | fuel + 1, i, letters, escaped =>
    match source[i]? with
    | some '\\' => do
      if source[i + 1]? != some 'u' then none
      let (code, stop) ← unicodeEscape? source (i + 2)
      word? source fuel stop ((escapedLetters code).reverse ++ letters) true
    | some c =>
      if isNamePart c then word? source fuel (i + 1) (c :: letters) escaped
      else some (letters.reverse, escaped, i)
    | none => some (letters.reverse, escaped, i)

def isPlainStart (c : Char) : Bool := c.isAlpha || c == '$' || c == '_'

def regularExpression? (source : Source) (i : Nat) : Option Nat := do
  let stop ← expressionBody? source (source.size + 1) (i + 1) false
  if (source[stop]?.map isPlainStart).getD false then
    return (← word? source (source.size + 1) stop [] false).2.2
  return stop

/-- The word that starts at a position. One that is reserved cannot be spelled with escapes. -/
def word (inModule : Bool) (source : Source) (i : Nat) : Token × Nat :=
  match word? source (source.size + 1) i [] false with
  | none => (.invalid, i + 1)
  | some (letters, escaped, stop) =>
    let name := String.ofList letters
    if !Token.isSpecial name || source[i]? == some '\\' then (.word name none, stop)
    else if !escaped then (.word name (some name), stop)
    else if Token.isReserved name inModule then (.invalid, stop)
    else (.word (String.ofList (source.slice i stop)) (some name), stop)

/-- The position after the digits of a number that no name may follow at once. -/
def endNumber? (source : Source) (stop : Nat) : Option (Token × Nat) :=
  if (source[stop]?.map isNameStart).getD false then none else some (.number, stop)

def wholeDigits? (source : Source) (i : Nat) : Option Nat :=
  let found := digits source 10 none ⟨0, 0, i⟩
  if found.count == 0 then none else some found.stop

/-- The position after the exponent at `i`, if there is one; nothing if it lacks digits. -/
def exponent? (source : Source) (i : Nat) : Option Nat :=
  if source[i]? == some 'e' || source[i]? == some 'E' then
    let signed := source[i + 1]? == some '+' || source[i + 1]? == some '-'
    wholeDigits? source (if signed then i + 2 else i + 1)
  else some i

def fraction? (source : Source) (i : Nat) : Option (Token × Nat) := do
  let stop := if source[i]? == some '.' then (digits source 10 none ⟨0, 0, i + 1⟩).stop else i
  endNumber? source (← exponent? source stop)

def radix? (c : Char) : Option Nat :=
  if c == 'x' || c == 'X' then some 16
  else if c == 'o' || c == 'O' then some 8
  else if c == 'b' || c == 'B' then some 2
  else none

/-- A number of the given radix, after its letter. A big one cannot begin with a separator. -/
def radixNumber? (source : Source) (radix i : Nat) : Option (Token × Nat) :=
  let found := digits source radix none ⟨0, 0, i⟩
  if found.count == 0 then none
  else if source[found.stop]? == some 'n' then
    if source[i]? == some '_' then none else some (.bigNumber, found.stop + 1)
  else endNumber? source found.stop

/-- The number that starts at `i`. After a zero, digits below eight are an octal number, which has no
fraction. -/
def number? (source : Source) (i : Nat) : Option (Token × Nat) :=
  let leadingZero := source[i]? == some '0'
  match (if leadingZero then source[i + 1]?.bind radix? else none) with
  | some radix => radixNumber? source radix (i + 2)
  | none =>
    let stop := (digits source 10 none ⟨0, 0, i⟩).stop
    let padded := leadingZero && stop > i + 1
    if source[stop]? == some 'n' && stop > i && !padded then some (.bigNumber, stop + 1)
    else if padded && (source.slice i stop).all (fun c => c != '8' && c != '9') then
      endNumber? source stop
    else fraction? source stop

/-- The signs of more than one character, longer ones before their beginnings. -/
def longSigns : List (List Char) :=
  ["===", "!==", "**=", "&&=", "||=", "...", "??=",
    "=>", "==", "!=", "++", "+=", "--", "-=", "**", "*=", "/=", "%=", "&&", "&=", "||", "|=",
    "^=", "??"].map String.toList

def shortSigns : List Char :=
  ['{', '}', '(', ')', '[', ']', ';', ',', '<', '>', '.', '?', ':', '=', '!', '+', '-', '*', '/',
    '%', '&', '|', '^', '~', '@', '`', '#']

def sign (source : Source) (i : Nat) : Token × Nat :=
  match longSigns.find? (startsAt source i) with
  | some symbol => (.sign (String.ofList symbol), i + symbol.length)
  | none =>
    match source[i]? with
    | none => (.done, i)
    | some c => if shortSigns.contains c then (.sign c.toString, i + 1) else (.invalid, i + 1)

def quoted (source : Source) (quote : Char) (i : Nat) : Token × Nat :=
  match string? source quote (source.size + 1) (i + 1) [] [] with
  | some (codes, stop) => (.text (ofCodes codes), stop)
  | none => (.invalid, i + 1)

def digitAt (source : Source) (i : Nat) : Bool := (source[i]?.map Char.isDigit).getD false

def token (inModule : Bool) (source : Source) (i : Nat) : Token × Nat :=
  match source[i]? with
  | none => (.done, i)
  | some c =>
    if isNameStart c || c == '\\' then word inModule source i
    else if c == '"' || c == '\'' then quoted source c i
    else if c.isDigit || (c == '.' && digitAt source (i + 1)) then
      (number? source i).getD (.invalid, i + 1)
    else sign source i

def bracketSigns : List (List Char) :=
  [">>>=", ">>>", ">>=", ">>", ">=", "<<=", "<<", "<="].map String.toList

def bracketSign? (source : Source) (i : Nat) : Option (String × Nat) :=
  (bracketSigns.find? (startsAt source i)).map fun symbol =>
    (String.ofList symbol, i + symbol.length)

/-- What stands between elements: an opening bracket or brace, the end, or text up to the next of
these. -/
def content (source : Source) (i : Nat) : Token × Nat :=
  match source[i]? with
  | none => (.done, i)
  | some '<' => (.sign "<", i + 1)
  | some '{' => (.sign Token.openBrace, i + 1)
  | some _ => (.content, skipWhile source (fun c => c != '<' && c != '{') i)

def attributeText? (source : Source) (i : Nat) : Option Nat := do
  let quote ← source[i]?
  if quote == '"' || quote == '\'' then
    let stop := skipWhile source (· != quote) (i + 1)
    if stop < source.size then some (stop + 1) else none
  else none

def elementNameEnd (source : Source) (i : Nat) : Nat :=
  skipWhile source (fun c => isNamePart c || c == '-') i

end Phrasebook.Script.Lexer
