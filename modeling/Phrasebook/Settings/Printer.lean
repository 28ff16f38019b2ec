import Phrasebook.Settings.Basic
import Phrasebook.Text.Quoted

/-!
Writing of settings as a map with one value on a line.
-/

set_option autoImplicit false

namespace Phrasebook.Settings

def escapeChar (c : Char) : List Char :=
  if c = '"' then ['\\', '"']
  else if c = '\\' then ['\\', '\\']
  else if c = '\n' then ['\\', 'n']
  else if c = '\r' then ['\\', 'r']
  else if c = '\t' then ['\\', 't']
  else if c.toNat = 8 then ['\\', 'b']
  else if c.toNat = 12 then ['\\', 'f']
  else if c.toNat < 32 then
    let digits := Text.hexDigits c.toNat
    ['\\', 'u'] ++ List.replicate (4 - digits.length) '0' ++ digits
  else [c]

def renderText (text : String) : List Char :=
  '"' :: (text.toList.flatMap escapeChar ++ ['"'])

/-- Items on lines of their own, between brackets, behind the given margin. -/
def renderLines (margin : List Char) (opening closing : Char) (items : List (List Char)) :
    List Char :=
  if items.isEmpty then [opening, closing]
  else
    let inner := items.map (margin ++ [' ', ' '] ++ ·)
    opening :: '\n' :: (Text.joinWith [',', '\n'] inner ++ ['\n'] ++ margin ++ [closing])

def renderTexts (texts : List String) : List Char :=
  renderLines [' ', ' '] '[' ']' (texts.map renderText)

def renderValue (settings : Settings) : Field → List Char
  | .includes => renderTexts settings.includes
  | .excludes => renderTexts settings.excludes
  | .recursive => (if settings.recursive then "true" else "false").toList
  | .locales => renderTexts settings.locales
  | .catalogDirectory => renderText settings.catalogDirectory
  | .entryPoints => renderTexts settings.entryPoints
  | .markers => renderTexts settings.markers
  | .markerFields => renderTexts settings.markerFields

def render (settings : Settings) : String :=
  String.ofList <| renderLines [] '{' '}' <| Field.all.map fun field =>
    renderText field.name ++ [':', ' '] ++ settings.renderValue field

end Phrasebook.Settings
