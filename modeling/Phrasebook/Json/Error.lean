import Phrasebook.Text.Quoted

/-!
What can be wrong with a data text, and where.
-/

set_option autoImplicit false

namespace Phrasebook.Json

inductive Found
  | null
  | boolean (value : Bool)
  | integer (value : Int)
  | decimal (text : String)
  | string (value : String)
  | sequence
  | map
  deriving DecidableEq, Repr

def Found.message : Found → String
  | .null => "null"
  | .boolean value => "boolean `" ++ (if value then "true" else "false") ++ "`"
  | .integer value => "integer `" ++ toString value ++ "`"
  | .decimal text => "floating point `" ++ text ++ "`"
  | .string value => "string " ++ String.ofList (Text.quote value.toList)
  | .sequence => "sequence"
  | .map => "map"

inductive Defect
  | endInSequence
  | endInMap
  | endInString
  | endBeforeValue
  | noColon
  | noCommaInSequence
  | noCommaInMap
  | noLiteral
  | noValue
  | badEscape
  | badNumber
  | numberTooLarge
  | controlCharacter
  | keyIsNoString
  | loneSurrogate
  | commaBeforeEnd
  | textAfterEnd
  | halfOfPair
  | duplicateKey (name : String)
  | wrongType (found : Found) (expected : String)
  deriving DecidableEq, Repr

def Defect.message : Defect → String
  | .endInSequence => "EOF while parsing a list"
  | .endInMap => "EOF while parsing an object"
  | .endInString => "EOF while parsing a string"
  | .endBeforeValue => "EOF while parsing a value"
  | .noColon => "expected `:`"
  | .noCommaInSequence => "expected `,` or `]`"
  | .noCommaInMap => "expected `,` or `\x7d`"
  | .noLiteral => "expected ident"
  | .noValue => "expected value"
  | .badEscape => "invalid escape"
  | .badNumber => "invalid number"
  | .numberTooLarge => "number out of range"
  | .controlCharacter => "control character (\\u0000-\\u001F) found while parsing a string"
  | .keyIsNoString => "key must be a string"
  | .loneSurrogate => "lone leading surrogate in hex escape"
  | .commaBeforeEnd => "trailing comma"
  | .textAfterEnd => "trailing characters"
  | .halfOfPair => "unexpected end of hex escape"
  | .duplicateKey name => "duplicate field `" ++ name ++ "`"
  | .wrongType found expected => "invalid type: " ++ found.message ++ ", expected " ++ expected

/-- A defect with its line, counted from one, and the number of bytes before it on that line. -/
structure Error where
  defect : Defect
  line : Nat
  column : Nat
  deriving DecidableEq, Repr

def Error.message (error : Error) : String :=
  error.defect.message ++ " at line " ++ toString error.line ++ " column " ++ toString error.column

end Phrasebook.Json
