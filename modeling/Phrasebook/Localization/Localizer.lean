import Phrasebook.Localization.Localized
import Phrasebook.Localization.Request
import Phrasebook.Localization.Texts

/-!
Lookups in the texts of one catalog directory. A lookup never fails: a key without a text stands for
itself.
-/

set_option autoImplicit false

namespace Phrasebook

/-- The texts that were loaded from a directory, under the name that was given first. -/
structure Localizer where
  name : String
  directory : String
  texts : Texts
  deriving DecidableEq, Repr

structure CommandTexts where
  name : List (String × String)
  description : List (String × String)
  deriving DecidableEq, Repr

namespace Localizer

def locales (localizer : Localizer) : List String :=
  localizer.texts.locales.mergeSort fun a b => decide (a ≤ b)

def resolve (localizer : Localizer) (key locale : String) : String :=
  (localizer.texts.get? locale key).getD key

/-- The text of a key in every locale that was loaded and in the base locale. Texts of the base locale, if
there are any, take the place of the key itself. -/
def resolveAll (localizer : Localizer) (key : String) : List (String × String) :=
  localizer.texts.foldl
    (fun variants loaded => Pairs.put loaded.1 ((loaded.2.lookup key).getD key) variants)
    [(Locale.base, key)]

def localizeIn (localizer : Localizer) (key locale : String) : Localized :=
  ⟨localizer.resolve key locale, localizer.resolveAll key⟩

def localize (localizer : Localizer) (ambient : Ambient) (key : String) : Localized :=
  localizer.localizeIn key ambient.current

def localizeFor (localizer : Localizer) (ambient : Ambient) (request : Request)
    (preference : Preference) (key : String) : Localized :=
  localizer.localizeIn key (request.locale preference ambient)

def commandTexts (localizer : Localizer) (name description : String) : CommandTexts :=
  ⟨localizer.resolveAll name, localizer.resolveAll description⟩

def reload (tree : FileTree) (localizer : Localizer) : Localizer :=
  { localizer with texts := Texts.load tree localizer.directory }

end Localizer

end Phrasebook
