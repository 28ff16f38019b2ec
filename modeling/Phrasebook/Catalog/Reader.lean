import Phrasebook.Catalog.Basic
import Phrasebook.Catalog.Escape
import Phrasebook.Log

/-!
Reading of catalog files, line by line. A message is a `msgid` string and a `msgstr` string, each
possibly continued on further lines, after remarks, references and flags on lines that begin with a
number sign. A line that does not fit is skipped and leaves a remark in the log.
-/

set_option autoImplicit false

namespace Phrasebook.Catalog

def formatFlag : List Char := "brace-format".toList

def documentationFlag : List Char := "docstring".toList

def keyWord : List Char := "msgid ".toList

def textWord : List Char := "msgstr ".toList

/-- Why a line is malformed. -/
inductive Defect
  | unterminatedKey
  | textWithoutKey
  | unterminatedText
  | unterminatedString
  | stringWithoutKey
  deriving DecidableEq, Repr

def Defect.message : Defect → String
  | unterminatedKey => "unterminated msgid string"
  | textWithoutKey => "msgstr without a preceding msgid"
  | unterminatedText => "unterminated msgstr string"
  | unterminatedString => "unterminated string"
  | stringWithoutKey => "string before any msgid"

inductive Skipped
  | malformed (line : Nat) (defect : Defect)
  | unsupported (line : Nat)
  deriving DecidableEq, Repr

def malformedMessage (line : Nat) (defect : Defect) : String :=
  "line " ++ toString line ++ ": " ++ defect.message

def Skipped.event : Skipped → Log.Event
  | malformed line defect =>
    Log.debug .catalogs "ignoring malformed catalog line" [("error", malformedMessage line defect)]
  | unsupported line =>
    Log.debug .catalogs "skipping unsupported catalog line" [("line", toString line)]

inductive Stage
  | outside
  | key
  | text
  deriving DecidableEq, Repr

/-- What has been read so far: finished messages, the message being read, and the skipped lines in
reverse order. -/
structure Reading where
  catalog : Catalog
  stage : Stage := .outside
  pending : Entry := Entry.ofKey ""
  skipped : List Skipped := []

/-- The references of a line, where a word without a line number belongs to the path that the next
word continues. -/
def references (path : List Char) : List (List Char) → List Occurrence
  | [] => []
  | word :: rest =>
    let longer := if path.isEmpty then word else path ++ ' ' :: word
    match Occurrence.ofChars? longer with
    | some occurrence => occurrence :: references [] rest
    | none => references longer rest

def parseReferences (text : List Char) : List Occurrence := references [] (Text.words text)

/-- An entry with the flags of a comma separated list; unknown flags count for nothing. -/
def addFlags (entry : Entry) (text : List Char) : Entry :=
  let flags := (Text.splitAt (· == ',') text).map Text.trim
  { entry with
    isFormat := entry.isFormat || flags.contains formatFlag
    isDocumentation := entry.isDocumentation || flags.contains documentationFlag }

def addMetadata (entry : Entry) : List Char → Entry
  | ':' :: text => (parseReferences text).foldl Entry.addOccurrence entry
  | '.' :: text => entry.addComments [String.ofList (Text.trim text)]
  | ',' :: text => addFlags entry text
  | _ => entry

/-- The content of a quoted string, blanks around it allowed. -/
def unquote? (text : List Char) : Option (List Char) :=
  ((Text.dropStart? ['"'] (Text.trim text)).bind (Text.dropEnd? ['"'])).map unescape

namespace Reading

def flush (reading : Reading) : Reading :=
  match reading.stage with
  | .text =>
    { reading with
      catalog := reading.catalog.insert reading.pending
      stage := .outside
      pending := Entry.ofKey "" }
  | _ => reading

def reject (reading : Reading) (line : Nat) (defect : Defect) : Reading :=
  { reading with skipped := .malformed line defect :: reading.skipped }

def readMetadata (reading : Reading) (text : List Char) : Reading :=
  let reading := reading.flush
  { reading with pending := addMetadata reading.pending text }

/-- Reads what follows `msgid`. A key without a text is given up together with its metadata. -/
def readKey (reading : Reading) (line : Nat) (text : List Char) : Reading :=
  let reading := match reading.stage with
    | .key => { reading with pending := Entry.ofKey "" }
    | _ => reading.flush
  match unquote? text with
  | some value =>
    { reading with
      stage := .key
      pending := { reading.pending with key := String.ofList value } }
  | none =>
    { reading with stage := .outside, pending := Entry.ofKey "" }.reject line .unterminatedKey

def readText (reading : Reading) (line : Nat) (text : List Char) : Reading :=
  if reading.stage = .key then
    match unquote? text with
    | some value =>
      { reading with
        stage := .text
        pending := { reading.pending with localized := String.ofList value } }
    | none => reading.reject line .unterminatedText
  else reading.reject line .textWithoutKey

def readContinuation (reading : Reading) (line : Nat) (text : List Char) : Reading :=
  match unquote? text with
  | none => reading.reject line .unterminatedString
  | some value =>
    match reading.stage with
    | .key =>
      { reading with pending :=
          { reading.pending with key := reading.pending.key ++ String.ofList value } }
    | .text =>
      { reading with pending :=
          { reading.pending with localized := reading.pending.localized ++ String.ofList value } }
    | .outside => reading.reject line .stringWithoutKey

def readLine (reading : Reading) (line : Nat) (text : List Char) : Reading :=
  match text with
  | [] => reading
  | '#' :: rest => reading.readMetadata rest
  | '"' :: _ => reading.readContinuation line text
  | _ =>
    match Text.dropStart? keyWord text with
    | some rest => reading.readKey line rest
    | none =>
      match Text.dropStart? textWord text with
      | some rest => reading.readText line rest
      | none => { reading with skipped := .unsupported line :: reading.skipped }

def readLines (reading : Reading) (number : Nat) : List (List Char) → Reading
  | [] => reading
  | line :: rest => (reading.readLine number (Text.trim line)).readLines (number + 1) rest

end Reading

/-- The catalog that a file's content spells for a locale, and the lines that were skipped. -/
def read (content locale : String) : Catalog × List Skipped :=
  let reading := (({ catalog := empty locale } : Reading).readLines 1
    (Text.lines content.toList)).flush
  (reading.catalog, reading.skipped.reverse)

def parse (content locale : String) : Catalog := (read content locale).1

end Phrasebook.Catalog
