import Phrasebook.Json.Reader
import Phrasebook.Settings.Basic

/-!
Reading of settings: a map from names to values, or a sequence of values in the order of files. What is
left out has its usual value, and unknown names do not matter.
-/

set_option autoImplicit false

namespace Phrasebook.Settings

open Json (Reading)
open Json.Reading

def readField (settings : Settings) : Field → Reading Settings
  | .includes => return { settings with includes := ← texts }
  | .excludes => return { settings with excludes := ← texts }
  | .recursive => return { settings with recursive := ← boolean }
  | .locales => return { settings with locales := ← texts }
  | .catalogDirectory => return { settings with catalogDirectory := ← text }
  | .entryPoints => return { settings with entryPoints := ← texts }
  | .markers => return { settings with markers := ← texts }
  | .markerFields => return { settings with markerFields := ← texts }

def readValues (settings : Settings) (first : Bool) : List Field → Reading Settings
  | [] => return settings
  | field :: rest => do
    if ← hasElement first then readValues (← readField settings field) false rest
    else return settings

/-- The pairs of a map up to its end. No name may be there twice. -/
def readPairs : Nat → Settings → List Field → Bool → Reading Settings
  | 0, settings, _, _ => return settings
  | fuel + 1, settings, seen, first => do
    unless ← hasKey first do
      skip
      return settings
    skip
    let key ← string
    match Field.all.find? (·.name == key) with
    | none =>
      colon
      ignore
      readPairs fuel settings seen false
    | some field =>
      if seen.contains field then failDuplicate key
      colon
      readPairs fuel (← readField settings field) (field :: seen) false

def reading : Reading Settings := do
  let byte ← valueStart
  if byte == Json.byteOf '[' then
    skip
    let settings ← readValues {} true Field.all
    endSequence
    return settings
  else if byte == Json.byteOf '{' then
    skip
    readPairs ((← read).size + 1) {} [] true
  else failType "struct Config"

def ofText (text : String) : Except Json.Error Settings := Json.readText reading text

end Phrasebook.Settings
