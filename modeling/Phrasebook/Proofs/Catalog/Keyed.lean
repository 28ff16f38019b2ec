import Phrasebook.Proofs.Catalog.Accumulation
import Phrasebook.Proofs.Catalog.Uses
import Phrasebook.Proofs.Pairs

/-!
Catalogs as maps from keys to entries. In a map a key stands apart from the entry that is stored under it
and the entry has a key of its own, so that the two agree is due to the operations alone. Where they
agree, a map says no more than the list of its entries.
-/

set_option autoImplicit false

namespace Phrasebook.Catalog

structure Keyed where
  locale : String := ""
  pairs : List (String × Entry) := []
  deriving DecidableEq, Repr

def keyed (catalog : Catalog) : Keyed where
  locale := catalog.locale
  pairs := catalog.entries.map fun entry => (entry.key, entry)

namespace Keyed

def empty (locale : String) : Keyed := { locale }

def get? (map : Keyed) (key : String) : Option Entry := map.pairs.lookup key

def insert (map : Keyed) (entry : Entry) : Keyed :=
  if entry.key.isEmpty then map else { map with pairs := Pairs.put entry.key entry map.pairs }

def record (map : Keyed) (use : Use) : Keyed :=
  if use.key.isEmpty then map
  else
    let entry := use.addTo ((map.get? use.key).getD (Entry.ofKey use.key))
    { map with pairs := Pairs.put use.key entry map.pairs }

def textOf (map : Keyed) (key : String) : String :=
  (((map.get? key).filter Entry.isLocalized).map (·.localized)).getD ""

/-- The fresh entries under the keys that they were stored under. No key is looked at again. -/
def merge (existing fresh : Keyed) : Keyed where
  locale := existing.locale
  pairs := fresh.pairs.foldl
    (fun merged pair => Pairs.put pair.1 { pair.2 with localized := existing.textOf pair.1 } merged) []

def parse (content locale : String) : Keyed :=
  (messages (Text.lines content.toList)).foldl insert (empty locale)

end Keyed

section Operations

variable (catalog : Catalog)

theorem map_fst_keyed : catalog.keyed.pairs.map (·.1) = catalog.keys := by
  simp [keyed, keys, Function.comp_def]

theorem get?_keyed (key : String) : catalog.keyed.get? key = catalog.get? key := by
  have found : ∀ entries : List Entry,
      (entries.map fun entry => (entry.key, entry)).lookup key = entries.find? (·.key == key) := by
    intro entries
    induction entries with
    | nil => rfl
    | cons entry entries ih =>
      rw [List.map_cons, List.lookup_cons, ih, List.find?_cons]
      by_cases here : entry.key = key
      · simp [here]
      · simp [beq_false_of_ne here, beq_false_of_ne (Ne.symm here)]
  exact found catalog.entries

theorem textOf_keyed (key : String) :
    catalog.keyed.textOf key = ((catalog.get? key).map Entry.localized).getD "" := by
  rw [Keyed.textOf, get?_keyed]
  cases catalog.get? key with
  | none => rfl
  | some entry =>
    by_cases bare : entry.localized = "" <;> simp [Option.filter, Entry.isLocalized, bare]

private theorem put_keyed (entry : Entry) (entries : List Entry) :
    Pairs.put entry.key entry (entries.map fun entry => (entry.key, entry)) =
      (put entry entries).map fun entry => (entry.key, entry) := by
  fun_induction put entry entries with
  | case1 => rfl
  | case2 other rest same => simp [Pairs.put, same]
  | case3 other rest different ih => simp [Pairs.put, different, ih]

theorem insert_keyed (entry : Entry) : catalog.keyed.insert entry = (catalog.insert entry).keyed := by
  unfold Keyed.insert insert
  split
  · rfl
  · simp only [keyed, put_keyed]

theorem foldl_insert_keyed (added : List Entry) :
    added.foldl Keyed.insert catalog.keyed = (added.foldl insert catalog).keyed := by
  induction added generalizing catalog with
  | nil => rfl
  | cons entry added ih => rw [List.foldl_cons, insert_keyed, ih, List.foldl_cons]

theorem record_keyed {catalog : Catalog} (sound : catalog.IsSound) (use : Use) :
    catalog.keyed.record use = (catalog.record use).keyed := by
  by_cases unnamed : use.key = ""
  · rw [record_of_eq_empty unnamed sound]
    simp [Keyed.record, unnamed]
  · have own : (use.addTo ((catalog.get? use.key).getD (Entry.ofKey use.key))).key = use.key := by
      rw [Use.key_addTo]
      cases found : catalog.get? use.key with
      | none => rfl
      | some entry => exact (key_of_get? found).2
    rw [record, ← insert_keyed, Keyed.insert, own, Keyed.record, get?_keyed]

theorem parse_keyed (content locale : String) :
    Keyed.parse content locale = (parse content locale).keyed := by
  rw [parse_eq_foldl, foldl_advance_eq, ← foldl_insert_keyed]
  rfl

end Operations

/-- Merging keeps keys with their entries, although it puts each entry under the key that it finds. -/
theorem merge_keyed {fresh : Catalog} (sound : fresh.IsSound) (existing : Catalog) :
    existing.keyed.merge fresh.keyed = (existing.merge fresh).keyed := by
  have distinct : (fresh.keyed.pairs.map (·.1)).Nodup := by
    rw [map_fst_keyed]
    exact sound.distinct
  rw [Keyed.merge, Pairs.foldl_put_eq_map _ distinct]
  simp only [textOf_keyed]
  simp [keyed, merge, Function.comp_def]

end Phrasebook.Catalog
