import Phrasebook.Locale
import Phrasebook.Text.Template

/-!
A message in one locale together with its text in all others.
-/

set_option autoImplicit false

namespace Phrasebook

structure Localized where
  text : String
  variants : List (String × String)
  deriving DecidableEq, Repr

namespace Localized

def invariable (text : String) : Localized where
  text := text
  variants := Locale.recognized.map fun locale => (locale, text)

/-- The text with its fields replaced by values; of several values for a name the first counts. -/
def format (message : Localized) (values : List (String × String)) : String :=
  String.ofList (Text.fill (fun name => (values.lookup (String.ofList name)).map String.toList)
    message.text.toList)

end Localized

end Phrasebook
