import Phrasebook.Proofs.Catalog.Entry
import Phrasebook.Proofs.Catalog.Order

/-!
Catalogs as finite maps from keys to entries: what each operation does to the entry of a key.
-/

set_option autoImplicit false

namespace Phrasebook.Catalog

structure IsSound (catalog : Catalog) : Prop where
  named : ∀ entry ∈ catalog.entries, entry.key ≠ ""
  distinct : catalog.keys.Nodup

theorem key_of_get? {catalog : Catalog} {key : String} {entry : Entry}
    (h : catalog.get? key = some entry) : entry ∈ catalog.entries ∧ entry.key = key :=
  ⟨List.mem_of_find?_eq_some h, by simpa using List.find?_some h⟩

theorem get?_isSome_iff {catalog : Catalog} {key : String} :
    (catalog.get? key).isSome ↔ key ∈ catalog.keys := by
  simp [get?, keys]

theorem get?_eq_none_iff {catalog : Catalog} {key : String} :
    catalog.get? key = none ↔ key ∉ catalog.keys := by
  rw [← get?_isSome_iff]
  simp

theorem isEmpty_iff {catalog : Catalog} :
    catalog.isEmpty = true ↔ ∀ key, key ∉ catalog.keys := by
  rw [isEmpty, List.isEmpty_iff, ← List.eq_nil_iff_forall_not_mem, keys, List.map_eq_nil_iff]

theorem get?_of_mem {catalog : Catalog} (sound : catalog.IsSound) {entry : Entry}
    (h : entry ∈ catalog.entries) : catalog.get? entry.key = some entry := by
  have found : (catalog.get? entry.key).isSome :=
    get?_isSome_iff.mpr (List.mem_map_of_mem h)
  obtain ⟨other, same⟩ := Option.isSome_iff_exists.mp found
  obtain ⟨member, key⟩ := key_of_get? same
  rw [same, List.inj_on_of_nodup_map sound.distinct member h key]

theorem get?_eq_some_iff {catalog : Catalog} (sound : catalog.IsSound) {key : String}
    {entry : Entry} : catalog.get? key = some entry ↔ entry ∈ catalog.entries ∧ entry.key = key := by
  refine ⟨key_of_get?, ?_⟩
  rintro ⟨member, rfl⟩
  exact get?_of_mem sound member

theorem get?_of_perm_map {catalog changed : Catalog} (sound : catalog.IsSound)
    {change : Entry → Entry} (kept : ∀ entry, (change entry).key = entry.key)
    (perm : changed.entries.Perm (catalog.entries.map change)) (key : String) :
    changed.get? key = (catalog.get? key).map change := by
  have keys : changed.keys.Perm catalog.keys := by
    have mapped := perm.map Entry.key
    rw [List.map_map] at mapped
    have same : Entry.key ∘ change = Entry.key := funext kept
    rwa [same] at mapped
  have named : ∀ entry ∈ changed.entries, entry.key ≠ "" := by
    intro entry he
    obtain ⟨other, ho, rfl⟩ := List.mem_map.mp (perm.mem_iff.mp he)
    rw [kept]
    exact sound.named other ho
  have soundChanged : changed.IsSound := ⟨named, keys.nodup_iff.mpr sound.distinct⟩
  ext entry
  rw [get?_eq_some_iff soundChanged, Option.map_eq_some_iff, perm.mem_iff, List.mem_map]
  constructor
  · rintro ⟨⟨other, ho, rfl⟩, rfl⟩
    rw [kept]
    exact ⟨other, get?_of_mem sound ho, rfl⟩
  · rintro ⟨other, found, rfl⟩
    obtain ⟨member, key⟩ := key_of_get? found
    exact ⟨⟨other, member, rfl⟩, (kept other).trans key⟩

theorem isSound_empty (locale : String) : (empty locale).IsSound :=
  ⟨by simp [empty], by simp [empty, keys]⟩

private theorem mem_put {entry other : Entry} {entries : List Entry}
    (h : other ∈ put entry entries) : other = entry ∨ other ∈ entries := by
  fun_induction put entry entries with
  | case1 => simpa using h
  | case2 first rest same =>
    rcases List.mem_cons.mp h with h | h
    · exact Or.inl h
    · exact Or.inr (List.mem_cons_of_mem _ h)
  | case3 first rest different ih =>
    rcases List.mem_cons.mp h with rfl | h
    · exact Or.inr (by simp)
    · exact (ih h).imp_right (List.mem_cons_of_mem _)

private theorem keys_put (entry : Entry) (entries : List Entry) :
    (put entry entries).map Entry.key =
      if entry.key ∈ entries.map Entry.key then entries.map Entry.key
      else entries.map Entry.key ++ [entry.key] := by
  fun_induction put entry entries with
  | case1 => simp
  | case2 first rest same => simp [same]
  | case3 first rest different ih =>
    have other : entry.key ≠ first.key := Ne.symm different
    rw [List.map_cons, ih]
    simp only [List.map_cons, List.mem_cons, other, false_or]
    split <;> simp

private theorem find?_put (entry : Entry) (entries : List Entry) (key : String) :
    (put entry entries).find? (·.key == key) =
      if entry.key = key then some entry else entries.find? (·.key == key) := by
  fun_induction put entry entries with
  | case1 => simp [List.find?_cons]; split <;> simp_all
  | case2 first rest same =>
    by_cases here : entry.key = key
    · simp [here]
    · have there : first.key ≠ key := same ▸ here
      simp [here, there]
  | case3 first rest different ih =>
    by_cases here : first.key = key
    · have there : entry.key ≠ key := fun h => different (here.trans h.symm)
      simp [here, there]
    · rw [List.find?_cons_of_neg (by simpa using here), ih,
        List.find?_cons_of_neg (by simpa using here)]

private theorem put_of_not_mem {entry : Entry} {entries : List Entry}
    (absent : entry.key ∉ entries.map Entry.key) : put entry entries = entries ++ [entry] := by
  fun_induction put entry entries with
  | case1 => rfl
  | case2 first rest same => simp [same] at absent
  | case3 first rest different ih =>
    have below : entry.key ∉ rest.map Entry.key := fun h =>
      absent (by rw [List.map_cons]; exact List.mem_cons_of_mem _ h)
    rw [ih below, List.cons_append]

theorem insert_of_ne_empty {catalog : Catalog} {entry : Entry} (named : entry.key ≠ "") :
    catalog.insert entry = { catalog with entries := put entry catalog.entries } := by
  simp [insert, named]

theorem mem_insert {catalog : Catalog} {entry other : Entry}
    (h : other ∈ (catalog.insert entry).entries) : other = entry ∨ other ∈ catalog.entries := by
  unfold insert at h
  split at h
  · exact Or.inr h
  · exact mem_put h

theorem IsSound.insert {catalog : Catalog} (sound : catalog.IsSound) (entry : Entry) :
    (catalog.insert entry).IsSound := by
  by_cases named : entry.key = ""
  · simpa [Catalog.insert, named] using sound
  · rw [insert_of_ne_empty named]
    refine ⟨?_, ?_⟩
    · intro other ho
      rcases mem_put ho with rfl | ho
      · exact named
      · exact sound.named other ho
    · have old := sound.distinct
      simp only [keys] at old ⊢
      rw [keys_put]
      split
      · exact old
      · rename_i absent
        refine List.nodup_append.mpr ⟨old, by simp, ?_⟩
        intro a ha b hb equal
        obtain rfl : b = entry.key := by simpa using hb
        exact absent (equal ▸ ha)

/-- An inserted entry answers its key, and every other key is answered as before. -/
theorem get?_insert {catalog : Catalog} {entry : Entry} (named : entry.key ≠ "") (key : String) :
    (catalog.insert entry).get? key =
      if entry.key = key then some entry else catalog.get? key := by
  rw [insert_of_ne_empty named]
  exact find?_put entry catalog.entries key

theorem foldl_insert {catalog : Catalog} {added : List Entry}
    (named : ∀ entry ∈ added, entry.key ≠ "")
    (distinct : (catalog.keys ++ added.map Entry.key).Nodup) :
    added.foldl insert catalog = { catalog with entries := catalog.entries ++ added } := by
  induction added generalizing catalog with
  | nil => simp
  | cons entry added ih =>
    have absent : entry.key ∉ catalog.entries.map Entry.key := by
      intro member
      exact (List.nodup_append.mp distinct).2.2 _ member _ (by simp) rfl
    have step : catalog.insert entry = { catalog with entries := catalog.entries ++ [entry] } := by
      rw [insert_of_ne_empty (named entry (by simp)), put_of_not_mem absent]
    have rest : (({ catalog with entries := catalog.entries ++ [entry] } : Catalog).keys ++
        added.map Entry.key).Nodup := by
      simpa [keys] using distinct
    rw [List.foldl_cons, step, ih (fun other ho => named other (by simp [ho])) rest]
    simp

@[simp] theorem locale_insert (catalog : Catalog) (entry : Entry) :
    (catalog.insert entry).locale = catalog.locale := by
  unfold insert
  split <;> rfl

@[simp] theorem locale_foldl_insert (catalog : Catalog) (added : List Entry) :
    (added.foldl insert catalog).locale = catalog.locale := by
  induction added generalizing catalog with
  | nil => rfl
  | cons entry added ih => rw [List.foldl_cons, ih, locale_insert]

theorem keys_insert_congr {catalog other : Catalog} {entry changed : Entry}
    (keys : catalog.keys = other.keys) (key : entry.key = changed.key) :
    (catalog.insert entry).keys = (other.insert changed).keys := by
  by_cases named : entry.key = ""
  · simpa [insert, named, ← key] using keys
  · unfold Catalog.keys at keys
    rw [insert_of_ne_empty named, insert_of_ne_empty (key ▸ named), Catalog.keys, Catalog.keys,
      keys_put, keys_put, keys, key]

theorem keys_foldl_insert_congr {catalog other : Catalog} (keys : catalog.keys = other.keys)
    (added : List Entry) : (added.foldl insert catalog).keys = (added.foldl insert other).keys := by
  induction added generalizing catalog other with
  | nil => exact keys
  | cons entry added ih => exact ih (keys_insert_congr keys rfl)

theorem entries_eq_filterMap {catalog : Catalog} (sound : catalog.IsSound) :
    catalog.entries = catalog.keys.filterMap catalog.get? := by
  have each : ∀ entry ∈ catalog.entries, catalog.get? entry.key = some entry := fun entry =>
    get?_of_mem sound
  have mapped : ∀ entries : List Entry, (∀ entry ∈ entries, catalog.get? entry.key = some entry) →
      (entries.map Entry.key).filterMap catalog.get? = entries := by
    intro entries known
    induction entries with
    | nil => rfl
    | cons entry entries ih =>
      rw [List.map_cons, List.filterMap_cons, known entry (by simp),
        ih fun other ho => known other (by simp [ho])]
  exact (mapped catalog.entries each).symm

theorem eq_of_keys_of_get? {catalog other : Catalog} (sound : catalog.IsSound)
    (soundOther : other.IsSound) (locale : catalog.locale = other.locale)
    (keys : catalog.keys = other.keys) (each : ∀ key, catalog.get? key = other.get? key) :
    catalog = other := by
  have entries : catalog.entries = other.entries := by
    rw [entries_eq_filterMap sound, entries_eq_filterMap soundOther, keys, funext each]
  cases catalog
  cases other
  simp_all

theorem get?_foldl_insert (catalog : Catalog) (added : List Entry) {key : String} (named : key ≠ "") :
    (added.foldl insert catalog).get? key =
      (added.reverse.find? (·.key == key)).or (catalog.get? key) := by
  induction added generalizing catalog with
  | nil => rfl
  | cons entry added ih =>
    have first : (catalog.insert entry).get? key =
        if entry.key = key then some entry else catalog.get? key := by
      by_cases filled : entry.key = ""
      · have other : ¬ entry.key = key := by
          rw [filled]
          exact Ne.symm named
        simp [insert, filled, Ne.symm named]
      · exact get?_insert filled key
    rw [List.foldl_cons, ih, first, List.reverse_cons, List.find?_append, Option.or_assoc]
    congr 1
    by_cases here : entry.key = key
    · simp [here]
    · simp [here]

@[simp] theorem keys_merge (existing fresh : Catalog) : (existing.merge fresh).keys = fresh.keys := by
  simp [merge, keys, Function.comp_def]

theorem IsSound.merge {fresh : Catalog} (sound : fresh.IsSound) (existing : Catalog) :
    (existing.merge fresh).IsSound := by
  refine ⟨?_, by simpa using sound.distinct⟩
  intro entry he
  obtain ⟨other, ho, rfl⟩ := List.mem_map.mp he
  exact sound.named other ho

/-- A merged entry is the fresh one with the text of the existing one. -/
theorem get?_merge (existing fresh : Catalog) (key : String) :
    (existing.merge fresh).get? key = (fresh.get? key).map fun entry =>
      { entry with localized := ((existing.get? key).map Entry.localized).getD "" } := by
  have found : ∀ entries : List Entry,
      (entries.map fun entry => { entry with
        localized := ((existing.get? entry.key).map Entry.localized).getD "" }).find? (·.key == key) =
      (entries.find? (·.key == key)).map fun entry => { entry with
        localized := ((existing.get? key).map Entry.localized).getD "" } := by
    intro entries
    induction entries with
    | nil => rfl
    | cons entry entries ih =>
      by_cases here : entry.key = key
      · simp [here]
      · rw [List.map_cons, List.find?_cons_of_neg (by simpa using here), ih,
          List.find?_cons_of_neg (by simpa using here)]
  exact found fresh.entries

theorem isEmpty_merge (existing fresh : Catalog) :
    (existing.merge fresh).isEmpty = fresh.isEmpty := by
  simp [merge, isEmpty]

private theorem lookup_eq_none {entries : List Entry} {key : String}
    (absent : key ∉ entries.map Entry.key) :
    ((entries.filter Entry.isLocalized).map fun entry => (entry.key, entry.localized)).lookup key =
      none := by
  refine List.lookup_eq_none_iff.mpr fun pair hp => ?_
  obtain ⟨other, ho, rfl⟩ := List.mem_map.mp hp
  have member : other.key ∈ entries.map Entry.key := List.mem_map_of_mem (List.mem_filter.mp ho).1
  rw [bne_iff_ne]
  rintro rfl
  exact absent member

private theorem lookup_localized {entries : List Entry} (distinct : (entries.map Entry.key).Nodup)
    (key : String) :
    ((entries.filter Entry.isLocalized).map fun entry => (entry.key, entry.localized)).lookup key =
      ((entries.find? (·.key == key)).filter Entry.isLocalized).map Entry.localized := by
  induction entries with
  | nil => rfl
  | cons entry entries ih =>
    obtain ⟨absent, rest⟩ := List.nodup_cons.mp distinct
    by_cases here : entry.key = key
    · subst here
      rw [List.find?_cons_of_pos (by simp), List.filter_cons]
      by_cases full : entry.isLocalized = true
      · simp [full, Option.filter]
      · simp [full, Option.filter, lookup_eq_none absent]
    · have other : (key == entry.key) = false := beq_eq_false_iff_ne.mpr (Ne.symm here)
      rw [List.find?_cons_of_neg (by simpa using here), ← ih rest, List.filter_cons]
      split
      · simp [List.lookup_cons, other]
      · rfl

theorem lookup_texts {catalog : Catalog} (sound : catalog.IsSound) (key : String) :
    catalog.texts.lookup key =
      ((catalog.get? key).filter Entry.isLocalized).map Entry.localized :=
  lookup_localized sound.distinct key

end Phrasebook.Catalog
