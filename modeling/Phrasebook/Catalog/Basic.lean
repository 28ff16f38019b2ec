import Phrasebook.Catalog.Entry

/-!
The messages of one locale in one directory, and their union with freshly extracted messages.
-/

set_option autoImplicit false

namespace Phrasebook

/-- The messages of one locale. No two entries have the same key and no key is empty, since entries
come in through `insert` and `record` alone. -/
structure Catalog where
  locale : String := ""
  entries : List Entry := []
  deriving DecidableEq, Repr

namespace Catalog

def empty (locale : String) : Catalog := { locale }

def size (catalog : Catalog) : Nat := catalog.entries.length

def isEmpty (catalog : Catalog) : Bool := catalog.entries.isEmpty

def get? (catalog : Catalog) (key : String) : Option Entry :=
  catalog.entries.find? (·.key == key)

def put (entry : Entry) : List Entry → List Entry
  | [] => [entry]
  | other :: rest => if other.key = entry.key then entry :: rest else other :: put entry rest

/-- Inserts an entry in place of the one with its key. An entry with an empty key is dropped. -/
def insert (catalog : Catalog) (entry : Entry) : Catalog :=
  if entry.key.isEmpty then catalog
  else { catalog with entries := put entry catalog.entries }

structure Use where
  key : String
  comments : List String
  occurrence : Occurrence
  isFormat : Bool
  isDocumentation : Bool
  deriving DecidableEq, Repr

/-- The entry of a key with one more use: occurrences and remarks are united and flags are kept
once set. -/
def Use.addTo (use : Use) (entry : Entry) : Entry :=
  let grown := (entry.addOccurrence use.occurrence).addComments use.comments
  { grown with
    isFormat := grown.isFormat || use.isFormat
    isDocumentation := grown.isDocumentation || use.isDocumentation }

def record (catalog : Catalog) (use : Use) : Catalog :=
  catalog.insert (use.addTo ((catalog.get? use.key).getD (Entry.ofKey use.key)))

/-- The fresh messages under the locale of the existing catalog, each with the text that the
existing catalog has for it, if any. -/
def merge (existing fresh : Catalog) : Catalog where
  locale := existing.locale
  entries := fresh.entries.map fun entry =>
    { entry with localized := ((existing.get? entry.key).map (·.localized)).getD "" }

def sorted (catalog : Catalog) : List Entry := catalog.entries.mergeSort Entry.atMost

def texts (catalog : Catalog) : List (String × String) :=
  (catalog.entries.filter Entry.isLocalized).map fun entry => (entry.key, entry.localized)

end Catalog

end Phrasebook
