import Phrasebook.Text.Blank
import Phrasebook.Text.Quoted

/-!
The recognized locale tags, and comma separated lists of them. A list may hold the word `all`, which
stands for every recognized tag.
-/

set_option autoImplicit false

namespace Phrasebook.Locale

def base : String := "zh-TW"

def everyWord : String := "all"

/-- The catalog name kept free for the texts of the base locale. -/
def reservedStem : String := "base"

def recognized : List String :=
  ["id", "da", "de", "en-GB", "en-US", "es-ES", "es-419", "fr", "hr", "it", "lt", "hu", "nl",
    "no", "pl", "pt-BR", "ro", "fi", "sv-SE", "vi", "tr", "cs", "el", "bg", "ru", "uk", "hi",
    "th", "zh-CN", "ja", "zh-TW", "ko"]

def isRecognized (tag : String) : Bool := recognized.contains tag

structure UnknownTag where
  tag : String
  deriving DecidableEq, Repr

def UnknownTag.message (error : UnknownTag) : String :=
  "locale " ++ String.ofList (Text.quote error.tag.toList) ++ " is not a recognized locale tag"

def validate (tag : String) : Except UnknownTag String :=
  if isRecognized tag then .ok tag else .error ⟨tag⟩

/-- The parts of a comma separated list, without blanks around them and without empty parts. -/
def listParts (list : String) : List String :=
  (((Text.splitAt (· == ',') list.toList).map Text.trim).filter (!·.isEmpty)).map String.ofList

/-- Reads the parts in order, given the distinct tags met so far. The word `all` ends the list. -/
def collect (found : List String) : List String → Except UnknownTag (List String)
  | [] => .ok found
  | part :: rest =>
    if part = everyWord then .ok recognized
    else match validate part with
      | .error unknown => .error unknown
      | .ok tag => collect (if found.contains tag then found else found ++ [tag]) rest

def parseList (list : String) : Except UnknownTag (List String) := collect [] (listParts list)

end Phrasebook.Locale
