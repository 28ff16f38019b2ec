import Phrasebook.Json.Error
import Phrasebook.Json.Magnitude
import Phrasebook.Text.Digit

/-!
Reading of data texts byte by byte. Each reader starts at a position and moves on; an error is placed
where the reader stands or on the next byte.
-/

set_option autoImplicit false

namespace Phrasebook.Json

abbrev Bytes := Array UInt8

abbrev Reading := ReaderT Bytes (StateT Nat (Except Error))

def byteOf (c : Char) : UInt8 := c.toNat.toUInt8

namespace Reading

def errorAt (bytes : Bytes) (position : Nat) (defect : Defect) : Error :=
  let before := (bytes.extract 0 position).toList
  let lines := before.filter (· == byteOf '\n')
  ⟨defect, lines.length + 1, (before.reverse.takeWhile (· != byteOf '\n')).length⟩

def failHere {α : Type} (defect : Defect) : Reading α := do
  throw (errorAt (← read) (← get) defect)

def failNext {α : Type} (defect : Defect) : Reading α := do
  let bytes ← read
  throw (errorAt bytes (min bytes.size ((← get) + 1)) defect)

def peek : Reading (Option UInt8) := return (← read)[← get]?

def skip : Reading Unit := modify (· + 1)

def next : Reading (Option UInt8) := do
  let found ← peek
  if found.isSome then skip
  return found

def isNext (c : Char) : Reading Bool := return (← peek) == some (byteOf c)

def eat (c : Char) : Reading Bool := do
  if ← isNext c then
    skip
    return true
  return false

def skipWhile (condition : UInt8 → Bool) : Reading Unit := do
  let bytes ← read
  modify fun start => start + ((bytes.extract start bytes.size).toList.takeWhile condition).length

def isBlank (byte : UInt8) : Bool :=
  [byteOf ' ', byteOf '\n', byteOf '\t', byteOf '\r'].contains byte

def isDigit (byte : UInt8) : Bool := byteOf '0' ≤ byte && byte ≤ byteOf '9'

def nextSolid : Reading (Option UInt8) := do
  skipWhile isBlank
  peek

def literal : List Char → Reading Unit
  | [] => return
  | c :: rest => do
    match ← next with
    | none => failHere .endBeforeValue
    | some byte => if byte == byteOf c then literal rest else failHere .noLiteral

def hexFour : Reading Nat := do
  let bytes ← read
  let start ← get
  if start + 4 ≤ bytes.size then
    modify (· + 4)
    let digits := (bytes.extract start (start + 4)).toList.map fun byte =>
      Text.hexValue? (Char.ofNat byte.toNat)
    if digits.all Option.isSome then
      return digits.foldl (fun value digit => value * 16 + digit.getD 0) 0
    else failHere .badEscape
  else
    set bytes.size
    failHere .endInString

/-- Takes the given character inside the escape of a pair of surrogates. -/
def pairCharacter (c : Char) : Reading Unit := do
  match ← next with
  | none => failHere .endInString
  | some byte => unless byte == byteOf c do failHere .halfOfPair

/-- The character of an escape after its letter `u`; a pair of escapes may stand for one. -/
def unicodeEscape : Reading Char := do
  let first ← hexFour
  if 0xdc00 ≤ first && first < 0xe000 then failHere .loneSurrogate
  if first < 0xd800 || 0xdc00 ≤ first then return Char.ofNat first
  pairCharacter '\\'
  pairCharacter 'u'
  let second ← hexFour
  if second < 0xdc00 || 0xe000 ≤ second then failHere .loneSurrogate
  return Char.ofNat (0x10000 + (first - 0xd800) * 0x400 + (second - 0xdc00))

def escapeLetter? (c : Char) : Option Char :=
  if c == '"' || c == '\\' || c == '/' then some c
  else if c == 'b' then some '\x08'
  else if c == 'f' then some '\x0c'
  else if c == 'n' then some '\n'
  else if c == 'r' then some '\r'
  else if c == 't' then some '\t'
  else none

private def escapeCharacter : Reading Char := do
  match ← next with
  | none => failHere .endInString
  | some byte => return Char.ofNat byte.toNat

def isPlain (byte : UInt8) : Bool :=
  byte != byteOf '"' && byte != byteOf '\\' && byteOf ' ' ≤ byte

def stringBytes : Nat → List UInt8 → Reading (List UInt8)
  | 0, _ => failHere .endInString
  | fuel + 1, found => do
    let start ← get
    skipWhile isPlain
    let found := ((← read).extract start (← get)).toList.reverse ++ found
    match ← peek with
    | none => failHere .endInString
    | some byte =>
      skip
      if byte == byteOf '"' then return found.reverse
      else if byte == byteOf '\\' then
        let letter ← escapeCharacter
        let c ← if letter == 'u' then unicodeEscape
          else match escapeLetter? letter with
            | some c => pure c
            | none => failHere .badEscape
        stringBytes fuel (c.toString.toUTF8.toList.reverse ++ found)
      else failHere .controlCharacter

def string : Reading String := do
  let bytes ← stringBytes ((← read).size + 1) []
  return (String.fromUTF8? (ByteArray.mk bytes.toArray)).getD ""

/-- Moves past a string after its quote. Its escapes need not stand for characters. -/
def skipString : Nat → Reading Unit
  | 0 => failHere .endInString
  | fuel + 1 => do
    skipWhile isPlain
    match ← peek with
    | none => failHere .endInString
    | some byte =>
      if byte == byteOf '"' then skip
      else if byte == byteOf '\\' then
        skip
        let letter ← escapeCharacter
        if letter == 'u' then discard hexFour
        else if (escapeLetter? letter).isNone then failHere .badEscape
        skipString fuel
      else failHere .controlCharacter

def digitValue (byte : UInt8) : Nat := byte.toNat - '0'.toNat

def digitBound : Nat := Nat.pow 2 64

def exponentBound : Nat := Nat.pow 2 31

/-- Collects digits into a number as long as it stays below the bound: the number, and how many
digits it has taken. -/
def digits (bound : Nat) : Nat → Nat → Nat → Reading (Nat × Nat)
  | 0, value, count => return (value, count)
  | fuel + 1, value, count => do
    match ← peek with
    | none => return (value, count)
    | some byte =>
      let grown := value * 10 + digitValue byte
      if isDigit byte && grown < bound then
        skip
        digits bound fuel grown (count + 1)
      else return (value, count)

def allDigits (bound value : Nat) : Reading (Nat × Nat) := do
  digits bound ((← read).size + 1) value 0

def isNextDigit : Reading Bool := return (← peek).any isDigit

def decimal (positive : Bool) (value : Nat) (exponent : Int) : Reading Found := do
  match Magnitude.scaled? value exponent with
  | some size => return .decimal (String.ofList ((if positive then [] else ['-']) ++ size.render))
  | none => failHere .numberTooLarge

def exponent (positive : Bool) (value : Nat) (before : Int) : Reading Found := do
  skip
  let plus ← eat '+'
  let minus ← if plus then pure false else eat '-'
  let up := !minus
  match ← next with
  | none => failHere .endBeforeValue
  | some byte =>
    unless isDigit byte do failHere .badNumber
    let (power, _) ← allDigits exponentBound (digitValue byte)
    if ← isNextDigit then
      if value != 0 && up then
        skip
        failHere .numberTooLarge
      skipWhile isDigit
      decimal positive 0 0
    else decimal positive value (if up then before + power else before - power)

def maybeExponent (positive : Bool) (value : Nat) (before : Int) : Reading Found := do
  if (← isNext 'e') || (← isNext 'E') then exponent positive value before
  else decimal positive value before

/-- The digits after a point, at the point, and with them the number. Digits too many are dropped. -/
def fraction (positive : Bool) (value : Nat) (before : Int) : Reading Found := do
  skip
  let (grown, count) ← allDigits digitBound value
  if ← isNextDigit then
    skipWhile isDigit
    maybeExponent positive grown (before - count)
  else if count == 0 then
    if (← peek).isSome then failNext .badNumber else failNext .endBeforeValue
  else maybeExponent positive grown (before - count)

def afterWhole (positive : Bool) (value : Nat) : Reading Found := do
  if ← isNext '.' then fraction positive value 0
  else if (← isNext 'e') || (← isNext 'E') then exponent positive value 0
  else if positive then return .integer value
  else if value == 0 || value > Nat.pow 2 63 then decimal false value 0
  else return .integer (-value)

def afterLong (positive : Bool) (value : Nat) : Reading Found := do
  let start ← get
  skipWhile isDigit
  let dropped : Int := (← get) - start
  if ← isNext '.' then fraction positive value dropped
  else maybeExponent positive value dropped

def number (positive : Bool) : Reading Found := do
  match ← next with
  | none => failHere .endBeforeValue
  | some byte =>
    if !isDigit byte then failHere .badNumber
    else if byte == byteOf '0' then
      if ← isNextDigit then failNext .badNumber
      afterWhole positive 0
    else
      let (value, _) ← allDigits digitBound (digitValue byte)
      if ← isNextDigit then afterLong positive value else afterWhole positive value

private def skipExponent : Reading Unit := do
  skip
  unless ← eat '+' do discard (eat '-')
  match ← next with
  | some byte => if isDigit byte then skipWhile isDigit else failHere .badNumber
  | none => failHere .badNumber

def skipNumber : Reading Unit := do
  match ← next with
  | none => failHere .badNumber
  | some byte =>
    if !isDigit byte then failHere .badNumber
    if byte != byteOf '0' then skipWhile isDigit
    else if ← isNextDigit then failNext .badNumber
    if ← eat '.' then
      unless ← isNextDigit do failNext .badNumber
      skipWhile isDigit
    if (← isNext 'e') || (← isNext 'E') then skipExponent

def failType {α : Type} (expected : String) : Reading α := do
  let wrong (found : Found) : Reading α := failHere (.wrongType found expected)
  match ← peek with
  | none => failNext .noValue
  | some byte =>
    if byte == byteOf 'n' then
      skip
      literal ['u', 'l', 'l']
      wrong .null
    else if byte == byteOf 't' then
      skip
      literal ['r', 'u', 'e']
      wrong (.boolean true)
    else if byte == byteOf 'f' then
      skip
      literal ['a', 'l', 's', 'e']
      wrong (.boolean false)
    else if byte == byteOf '-' then
      skip
      wrong (← number false)
    else if isDigit byte then wrong (← number true)
    else if byte == byteOf '"' then
      skip
      wrong (.string (← string))
    else if byte == byteOf '[' then wrong .sequence
    else if byte == byteOf '{' then wrong .map
    else failNext .noValue

def valueStart : Reading UInt8 := do
  match ← nextSolid with
  | some byte => return byte
  | none => failNext .endBeforeValue

def boolean : Reading Bool := do
  let byte ← valueStart
  if byte == byteOf 't' then
    skip
    literal ['r', 'u', 'e']
    return true
  else if byte == byteOf 'f' then
    skip
    literal ['a', 'l', 's', 'e']
    return false
  else failType "a boolean"

def text : Reading String := do
  if (← valueStart) == byteOf '"' then
    skip
    string
  else failType "a string"

/-- Whether another element of a sequence follows; the comma before it is taken. -/
def hasElement (first : Bool) : Reading Bool := do
  match ← nextSolid with
  | none => failNext .endInSequence
  | some byte =>
    if byte == byteOf ']' then return false
    if first then return true
    unless byte == byteOf ',' do failNext .noCommaInSequence
    skip
    match ← nextSolid with
    | none => failNext .endBeforeValue
    | some byte => if byte == byteOf ']' then failNext .commaBeforeEnd else return true

def endSequence : Reading Unit := do
  match ← nextSolid with
  | none => failNext .endInSequence
  | some byte =>
    if byte == byteOf ']' then skip
    else if byte == byteOf ',' then
      skip
      if (← nextSolid) == some (byteOf ']') then failNext .commaBeforeEnd
      failNext .textAfterEnd
    else failNext .textAfterEnd

def textsUpTo : Nat → Bool → Reading (List String)
  | 0, _ => failNext .endInSequence
  | fuel + 1, first => do
    if ← hasElement first then
      let found ← text
      return found :: (← textsUpTo fuel false)
    return []

def texts : Reading (List String) := do
  unless (← valueStart) == byteOf '[' do failType "a sequence"
  skip
  let found ← textsUpTo ((← read).size + 1) true
  endSequence
  return found

def hasKey (first : Bool) : Reading Bool := do
  match ← nextSolid with
  | none => failNext .endInMap
  | some byte =>
    if byte == byteOf '}' then return false
    if first then
      if byte == byteOf '"' then return true else failNext .keyIsNoString
    unless byte == byteOf ',' do failNext .noCommaInMap
    skip
    match ← nextSolid with
    | none => failNext .endBeforeValue
    | some byte =>
      if byte == byteOf '"' then return true
      if byte == byteOf '}' then failNext .commaBeforeEnd else failNext .keyIsNoString

def colon : Reading Unit := do
  match ← nextSolid with
  | none => failNext .endInMap
  | some byte => if byte == byteOf ':' then skip else failNext .noColon

/-- Fails because of a key that was there before, behind the blanks after it and the end of the map
if that follows. -/
def failDuplicate {α : Type} (name : String) : Reading α := do
  skipWhile isBlank
  discard (eat '}')
  failHere (.duplicateKey name)

private def skipKey : Reading Unit := do
  match ← nextSolid with
  | none => failNext .endInMap
  | some byte => unless byte == byteOf '"' do failNext .keyIsNoString
  skip
  skipString ((← read).size + 1)
  colon

/-- Moves past what stands between the given brackets; a value is the only thing that may follow a
comma. -/
private def skipItems (close : Char) (atEnd noComma : Defect) (item : Reading Unit) :
    Nat → Bool → Reading Unit
  | 0, _ => failNext atEnd
  | fuel + 1, afterItem => do
    match ← nextSolid with
    | none => failNext atEnd
    | some byte =>
      if byte == byteOf close then skip
      else
        if afterItem then
          unless byte == byteOf ',' do failNext noComma
          skip
        item
        skipItems close atEnd noComma item fuel true

def skipValue : Nat → Reading Unit
  | 0 => failNext .noValue
  | fuel + 1 => do
    let byte ← valueStart
    let size := (← read).size + 1
    if byte == byteOf 'n' then
      skip
      literal ['u', 'l', 'l']
    else if byte == byteOf 't' then
      skip
      literal ['r', 'u', 'e']
    else if byte == byteOf 'f' then
      skip
      literal ['a', 'l', 's', 'e']
    else if byte == byteOf '-' then
      skip
      skipNumber
    else if isDigit byte then skipNumber
    else if byte == byteOf '"' then
      skip
      skipString size
    else if byte == byteOf '[' then
      skip
      skipItems ']' .endInSequence .noCommaInSequence (skipValue fuel) size false
    else if byte == byteOf '{' then
      skip
      let pair : Reading Unit := do
        skipKey
        skipValue fuel
      skipItems '}' .endInMap .noCommaInMap pair size false
    else failNext .noValue

def ignore : Reading Unit := do skipValue ((← read).size + 1)

def finish : Reading Unit := do
  if (← nextSolid).isSome then failNext .textAfterEnd

end Reading

def readText {α : Type} (reading : Reading α) (text : String) : Except Error α := do
  let whole : Reading α := reading <* Reading.finish
  let (value, _) ← StateT.run (ReaderT.run whole text.toUTF8.data) 0
  return value

end Phrasebook.Json
