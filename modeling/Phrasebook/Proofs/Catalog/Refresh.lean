import Phrasebook.Proofs.Catalog.NormalForm
import Phrasebook.Proofs.Catalog.Uses

/-!
The text of a catalog over several extractions. Each one that finds messages replaces the keys and
keeps the texts of those that stay.
-/

set_option autoImplicit false

namespace Phrasebook.Catalog

/-- The text of the catalog of a locale after an extraction, which writes nothing if it finds
nothing. -/
def refresh (locale content : String) (fresh : Catalog) : String :=
  if fresh.isEmpty then content else ((parse content locale).merge fresh).render

def filled (catalogs : List Catalog) : List Catalog := catalogs.filter (!·.isEmpty)

/-- A catalog of uses that can be written: no path reaches over an end of line. -/
structure IsFresh (fresh : Catalog) : Prop where
  sound : fresh.IsSound
  paths : ∀ entry ∈ fresh.entries, entry.PathsOnLines

theorem isFresh_collect {uses : List Use}
    (paths : ∀ use ∈ uses, '\n' ∉ use.occurrence.path.toList) : (collect uses).IsFresh := by
  refine ⟨isSound_collect uses, ?_⟩
  intro entry he occurrence ho
  rw [eq_gathered_of_mem he, mem_occurrences_gathered] at ho
  obtain ⟨use, hu, -, rfl⟩ := ho
  exact paths use hu

theorem isEmpty_collect (uses : List Use) :
    (collect uses).isEmpty = uses.all (·.key.isEmpty) := by
  rw [Bool.eq_iff_iff, isEmpty_iff, List.all_eq_true]
  constructor
  · intro absent use hu
    by_contra named
    exact absent use.key (mem_keys_collect.mpr ⟨by simpa using named, List.mem_map_of_mem hu⟩)
  · intro unnamed key member
    obtain ⟨named, used⟩ := mem_keys_collect.mp member
    obtain ⟨use, hu, rfl⟩ := List.mem_map.mp used
    exact named (by simpa using unnamed use hu)

section One

variable {fresh : Catalog}

private theorem paths_merge (clean : fresh.IsFresh) (existing : Catalog) :
    ∀ entry ∈ (existing.merge fresh).entries, entry.PathsOnLines := by
  intro entry he
  obtain ⟨other, ho, rfl⟩ := List.mem_map.mp he
  exact clean.paths other ho

theorem keys_render_merge (clean : fresh.IsFresh) (existing : Catalog) (locale : String) :
    (parse (existing.merge fresh).render locale).keys.Perm fresh.keys := by
  have perm := (perm_parse_render (clean.sound.merge existing) (paths_merge clean existing) locale).map
    Entry.key
  rw [List.map_map] at perm
  rw [← keys_merge existing fresh]
  exact perm

theorem lookup_render_merge (clean : fresh.IsFresh) {existing : Catalog} (old : existing.IsSound)
    (locale key : String) :
    (parse (existing.merge fresh).render locale).texts.lookup key =
      if key ∈ fresh.keys then existing.texts.lookup key else none := by
  have found :=
    get?_parse_render (clean.sound.merge existing) (paths_merge clean existing) locale key
  rw [lookup_texts (parse_isSound _ _), lookup_texts old, found, get?_merge]
  split
  · rename_i member
    obtain ⟨entry, he⟩ := Option.isSome_iff_exists.mp (get?_isSome_iff.mpr member)
    rw [he]
    cases existing.get? key with
    | none => rfl
    | some old =>
      by_cases empty : old.localized = ""
      · simp [Option.filter, Entry.isLocalized, empty]
      · simp [Option.filter, Entry.isLocalized, empty]
  · rename_i absent
    rw [get?_eq_none_iff.mpr absent]
    rfl

private theorem localized_eq_lookup {catalog : Catalog} (sound : catalog.IsSound) (key : String) :
    ((catalog.get? key).map Entry.localized).getD "" = (catalog.texts.lookup key).getD "" := by
  rw [lookup_texts sound]
  cases catalog.get? key with
  | none => rfl
  | some entry =>
    by_cases empty : entry.localized = ""
    · simp [Option.filter, Entry.isLocalized, empty]
    · simp [Option.filter, Entry.isLocalized, empty]

/-- What is written depends on the texts of the keys that stay only. -/
theorem render_merge_congr {existing other : Catalog} (sound : existing.IsSound)
    (otherSound : other.IsSound)
    (same : ∀ key ∈ fresh.keys, existing.texts.lookup key = other.texts.lookup key) :
    (existing.merge fresh).render = (other.merge fresh).render := by
  have entries : (existing.merge fresh).entries = (other.merge fresh).entries := by
    refine List.map_congr_left fun entry he => ?_
    rw [localized_eq_lookup sound, localized_eq_lookup otherSound,
      same entry.key (List.mem_map_of_mem he)]
  rw [render, render, renderChars, renderChars, sorted, sorted, entries]

end One

private theorem refresh_of_not_isEmpty {locale content : String} {fresh : Catalog}
    (full : fresh.isEmpty = false) :
    refresh locale content fresh = ((parse content locale).merge fresh).render := by
  rw [refresh, full, if_neg Bool.false_ne_true]

private theorem refresh_of_isEmpty {locale content : String} {fresh : Catalog}
    (empty : fresh.isEmpty = true) : refresh locale content fresh = content := by
  rw [refresh, if_pos empty]

private theorem lookup_foldl_refresh (locale : String) {runs : List Catalog}
    (clean : ∀ fresh ∈ runs, fresh.IsFresh) (content key : String) :
    (parse (runs.foldl (refresh locale) content) locale).texts.lookup key =
      if ∀ fresh ∈ filled runs, key ∈ fresh.keys then (parse content locale).texts.lookup key
      else none := by
  induction runs generalizing content with
  | nil => simp [filled]
  | cons fresh runs ih =>
    rw [List.foldl_cons, ih fun other ho => clean other (by simp [ho])]
    cases empty : fresh.isEmpty with
    | true => simp [filled, empty, refresh_of_isEmpty empty]
    | false =>
      have first : filled (fresh :: runs) = fresh :: filled runs := by simp [filled, empty]
      rw [first, refresh_of_not_isEmpty empty,
        lookup_render_merge (clean fresh (by simp)) (parse_isSound content locale)]
      by_cases here : key ∈ fresh.keys
      · simp [here]
      · simp [here]

private theorem foldl_refresh_of_filled_eq_nil {locale content : String} {runs : List Catalog}
    (bare : filled runs = []) : runs.foldl (refresh locale) content = content := by
  induction runs with
  | nil => rfl
  | cons fresh runs ih =>
    have parts : fresh.isEmpty = true ∧ filled runs = [] := by
      simpa [filled, List.filter_eq_nil_iff] using bare
    rw [List.foldl_cons, refresh_of_isEmpty parts.1, ih parts.2]

private theorem keys_foldl_refresh (locale : String) {runs : List Catalog}
    (clean : ∀ fresh ∈ runs, fresh.IsFresh) (content : String) {last : Catalog}
    (h : (filled runs).getLast? = some last) :
    (parse (runs.foldl (refresh locale) content) locale).keys.Perm last.keys := by
  induction runs generalizing content with
  | nil => simp [filled] at h
  | cons fresh runs ih =>
    have later : ∀ other ∈ runs, other.IsFresh := fun other ho => clean other (by simp [ho])
    rw [List.foldl_cons]
    cases empty : fresh.isEmpty with
    | true =>
      have same : filled (fresh :: runs) = filled runs := by simp [filled, empty]
      exact ih later _ (same ▸ h)
    | false =>
      have first : filled (fresh :: runs) = fresh :: filled runs := by simp [filled, empty]
      rw [first] at h
      by_cases bare : filled runs = []
      · obtain rfl : fresh = last := by simpa [bare] using h
        rw [foldl_refresh_of_filled_eq_nil bare, refresh_of_not_isEmpty empty]
        exact keys_render_merge (clean fresh (by simp)) _ locale
      · refine ih later _ ?_
        rwa [List.getLast?_cons_of_ne_nil bare] at h

/-- Extraction keeps the work of translators and nothing else, over any number of runs. In the end the
keys are those of the last run that found messages, and a key has the text that it had in the
beginning if every such run has found it. -/
theorem texts_of_runs (content locale : String) {runs : List (List Use)}
    (paths : ∀ uses ∈ runs, ∀ use ∈ uses, '\n' ∉ use.occurrence.path.toList) {last : Catalog}
    (written : (filled (runs.map collect)).getLast? = some last) :
    let final := parse ((runs.map collect).foldl (refresh locale) content) locale
    final.keys.Perm last.keys ∧
      ∀ key, final.texts.lookup key =
        if ∀ fresh ∈ filled (runs.map collect), key ∈ fresh.keys then
          (parse content locale).texts.lookup key
        else none := by
  have clean : ∀ fresh ∈ runs.map collect, fresh.IsFresh := by
    intro fresh hf
    obtain ⟨uses, hu, rfl⟩ := List.mem_map.mp hf
    exact isFresh_collect (paths uses hu)
  exact ⟨keys_foldl_refresh locale clean content written,
    lookup_foldl_refresh locale clean content⟩

private def greeting (key : String) : Use := ⟨key, [], ⟨"a.ts", 1⟩, false, false⟩

theorem texts_of_runs_of_three :
    let runs := [[greeting "Hi", greeting "Bye"], [], [greeting "Hi"]]
    let content := "msgid \"Hi\"\nmsgstr \"Salut\"\nmsgid \"Bye\"\nmsgstr \"Adieu\"\n"
    let final := parse ((runs.map collect).foldl (refresh "fr") content) "fr"
    final.keys.Perm (collect [greeting "Hi"]).keys ∧
      ∀ key, final.texts.lookup key =
        if ∀ fresh ∈ filled (runs.map collect), key ∈ fresh.keys then
          (parse content "fr").texts.lookup key
        else none := by
  have paths : ∀ uses ∈ [[greeting "Hi", greeting "Bye"], [], [greeting "Hi"]],
      ∀ use ∈ uses, '\n' ∉ use.occurrence.path.toList := by
    decide
  have written : (filled ([[greeting "Hi", greeting "Bye"], [], [greeting "Hi"]].map
      collect)).getLast? = some (collect [greeting "Hi"]) := by
    simp [filled, isEmpty_collect, greeting]
  exact texts_of_runs _ "fr" paths written

end Phrasebook.Catalog
