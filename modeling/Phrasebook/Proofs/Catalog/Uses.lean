import Phrasebook.Proofs.Catalog.Store

/-!
Catalogs of uses. What a key comes to is the union of its uses, so neither their order nor their number
matters for what is written.
-/

set_option autoImplicit false

namespace Phrasebook.Catalog

def collect (uses : List Use) : Catalog := uses.foldl record {}

/-- What a key comes to by its uses. -/
def gathered (key : String) (uses : List Use) : Entry :=
  (uses.filter (·.key == key)).foldl (fun entry use => use.addTo entry) (Entry.ofKey key)

@[simp] theorem Use.key_addTo (use : Use) (entry : Entry) : (use.addTo entry).key = entry.key := by
  simp only [Use.addTo, Entry.addComments]
  rw [Entry.addOccurrence_eq]

@[simp] theorem Use.localized_addTo (use : Use) (entry : Entry) :
    (use.addTo entry).localized = entry.localized := by
  simp only [Use.addTo, Entry.addComments]
  rw [Entry.addOccurrence_eq]

@[simp] theorem Use.occurrences_addTo (use : Use) (entry : Entry) :
    (use.addTo entry).occurrences = (entry.addOccurrence use.occurrence).occurrences := rfl

@[simp] theorem Use.comments_addTo (use : Use) (entry : Entry) :
    (use.addTo entry).comments = Entry.sortedDistinct (entry.comments ++ use.comments) := by
  simp only [Use.addTo, Entry.addComments]
  rw [Entry.addOccurrence_eq]

@[simp] theorem Use.isFormat_addTo (use : Use) (entry : Entry) :
    (use.addTo entry).isFormat = (entry.isFormat || use.isFormat) := by
  simp only [Use.addTo, Entry.addComments]
  rw [Entry.addOccurrence_eq]

@[simp] theorem Use.isDocumentation_addTo (use : Use) (entry : Entry) :
    (use.addTo entry).isDocumentation = (entry.isDocumentation || use.isDocumentation) := by
  simp only [Use.addTo, Entry.addComments]
  rw [Entry.addOccurrence_eq]

section Several

variable (uses : List Use) (entry : Entry)

private abbrev grow : Entry := uses.foldl (fun entry use => use.addTo entry) entry

private theorem key_grow : (grow uses entry).key = entry.key := by
  induction uses generalizing entry with
  | nil => rfl
  | cons use uses ih => simp [grow, ih]

private theorem localized_grow : (grow uses entry).localized = entry.localized := by
  induction uses generalizing entry with
  | nil => rfl
  | cons use uses ih => simp [grow, ih]

private theorem mem_occurrences_grow (occurrence : Occurrence) :
    occurrence ∈ (grow uses entry).occurrences ↔
      occurrence ∈ entry.occurrences ∨ ∃ use ∈ uses, use.occurrence = occurrence := by
  induction uses generalizing entry with
  | nil => simp
  | cons use uses ih =>
    rw [grow, List.foldl_cons, ih, Use.occurrences_addTo, Entry.mem_addOccurrence]
    simp [or_assoc, eq_comm]

private theorem nodup_occurrences_grow (distinct : entry.occurrences.Nodup) :
    (grow uses entry).occurrences.Nodup := by
  induction uses generalizing entry with
  | nil => exact distinct
  | cons use uses ih => exact ih _ (Entry.nodup_addOccurrence distinct use.occurrence)

private theorem comments_grow (sorted : entry.comments.Pairwise (· < ·)) :
    (grow uses entry).comments =
      Entry.sortedDistinct (entry.comments ++ uses.flatMap Use.comments) := by
  induction uses generalizing entry with
  | nil => simp [Entry.sortedDistinct_of_pairwise sorted]
  | cons use uses ih =>
    rw [grow, List.foldl_cons, ih _ (by simpa using Entry.pairwise_sortedDistinct _)]
    exact Entry.sortedDistinct_congr fun text => by simp [or_assoc]

private theorem isFormat_grow :
    (grow uses entry).isFormat = (entry.isFormat || uses.any Use.isFormat) := by
  induction uses generalizing entry with
  | nil => simp
  | cons use uses ih => simp [grow, ih, Bool.or_assoc]

private theorem isDocumentation_grow :
    (grow uses entry).isDocumentation =
      (entry.isDocumentation || uses.any Use.isDocumentation) := by
  induction uses generalizing entry with
  | nil => simp
  | cons use uses ih => simp [grow, ih, Bool.or_assoc]

end Several

@[simp] theorem key_gathered (key : String) (uses : List Use) : (gathered key uses).key = key :=
  key_grow _ _

@[simp] theorem localized_gathered (key : String) (uses : List Use) :
    (gathered key uses).localized = "" := localized_grow _ _

theorem mem_occurrences_gathered {key : String} {uses : List Use} {occurrence : Occurrence} :
    occurrence ∈ (gathered key uses).occurrences ↔
      ∃ use ∈ uses, use.key = key ∧ use.occurrence = occurrence := by
  rw [gathered, mem_occurrences_grow]
  simp [Entry.ofKey, and_assoc]

/-- With its occurrences in order, an entry depends on which uses there are, and on nothing else. -/
theorem ordered_gathered_congr {a b : List Use} (same : ∀ use, use ∈ a ↔ use ∈ b) (key : String) :
    (gathered key a).ordered = (gathered key b).ordered := by
  have here : ∀ use, use ∈ a.filter (·.key == key) ↔ use ∈ b.filter (·.key == key) := by
    intro use
    simp [same]
  have distinct : ∀ uses : List Use, (gathered key uses).occurrences.Nodup := fun uses =>
    nodup_occurrences_grow _ _ List.nodup_nil
  have perm : (gathered key a).occurrences.Perm (gathered key b).occurrences := by
    refine (List.perm_ext_iff_of_nodup (distinct a) (distinct b)).mpr fun occurrence => ?_
    simp only [mem_occurrences_gathered, same]
  have occurrences := Entry.sortedOccurrences_congr perm
  have comments : (gathered key a).comments = (gathered key b).comments := by
    rw [gathered, gathered, comments_grow _ _ List.Pairwise.nil, comments_grow _ _ List.Pairwise.nil]
    refine Entry.sortedDistinct_congr fun text => ?_
    simp only [List.mem_append, List.mem_flatMap, here]
  have any : ∀ flag : Use → Bool,
      (a.filter (·.key == key)).any flag = (b.filter (·.key == key)).any flag := by
    intro flag
    rw [Bool.eq_iff_iff, List.any_eq_true, List.any_eq_true]
    simp only [here]
  have format : (gathered key a).isFormat = (gathered key b).isFormat := by
    rw [gathered, gathered, isFormat_grow, isFormat_grow, any]
  have documentation : (gathered key a).isDocumentation = (gathered key b).isDocumentation := by
    rw [gathered, gathered, isDocumentation_grow, isDocumentation_grow, any]
  simp only [Entry.ordered, Entry.mk.injEq]
  exact ⟨by simp, by simp, occurrences, comments, format, documentation⟩

theorem record_of_ne_empty {use : Use} (named : use.key ≠ "") (catalog : Catalog) (key : String) :
    (catalog.record use).get? key =
      if use.key = key then some (use.addTo ((catalog.get? key).getD (Entry.ofKey key)))
      else catalog.get? key := by
  have entryKey : ((catalog.get? use.key).getD (Entry.ofKey use.key)).key = use.key := by
    cases h : catalog.get? use.key with
    | none => rfl
    | some entry => exact (key_of_get? h).2
  rw [record, get?_insert (by rw [Use.key_addTo, entryKey]; exact named), Use.key_addTo, entryKey]
  split
  · rename_i here
    rw [here]
  · rfl

theorem record_of_eq_empty {use : Use} (unnamed : use.key = "") {catalog : Catalog}
    (sound : catalog.IsSound) : catalog.record use = catalog := by
  have absent : catalog.get? "" = none := by
    rw [get?_eq_none_iff]
    intro member
    obtain ⟨entry, he, empty⟩ := List.mem_map.mp member
    exact sound.named entry he empty
  simp [record, insert, unnamed, absent, Entry.ofKey]

theorem isSound_record {catalog : Catalog} (sound : catalog.IsSound) (use : Use) :
    (catalog.record use).IsSound := sound.insert _

private theorem isSound_foldl_record {catalog : Catalog} (sound : catalog.IsSound)
    (uses : List Use) : (uses.foldl record catalog).IsSound := by
  induction uses generalizing catalog with
  | nil => exact sound
  | cons use uses ih => exact ih (isSound_record sound use)

theorem isSound_collect (uses : List Use) : (collect uses).IsSound :=
  isSound_foldl_record (isSound_empty "") uses

private theorem get?_foldl_record {catalog : Catalog} (sound : catalog.IsSound) {key : String}
    (named : key ≠ "") (uses : List Use) :
    (uses.foldl record catalog).get? key =
      if (uses.filter (·.key == key)).isEmpty then catalog.get? key
      else some ((uses.filter (·.key == key)).foldl (fun entry use => use.addTo entry)
        ((catalog.get? key).getD (Entry.ofKey key))) := by
  induction uses generalizing catalog with
  | nil => simp
  | cons use uses ih =>
    rw [List.foldl_cons, ih (isSound_record sound use)]
    by_cases here : use.key = key
    · have filled : (catalog.record use).get? key =
          some (use.addTo ((catalog.get? key).getD (Entry.ofKey key))) := by
        rw [record_of_ne_empty (here ▸ named), if_pos here]
      rw [List.filter_cons_of_pos (by simpa using here), filled]
      cases uses.filter (·.key == key) <;> simp
    · have kept : (catalog.record use).get? key = catalog.get? key := by
        by_cases unnamed : use.key = ""
        · rw [record_of_eq_empty unnamed sound]
        · rw [record_of_ne_empty unnamed, if_neg here]
      rw [List.filter_cons_of_neg (by simpa using here), kept]

theorem get?_collect (uses : List Use) (key : String) :
    (collect uses).get? key =
      if key ≠ "" ∧ key ∈ uses.map Use.key then some (gathered key uses) else none := by
  by_cases named : key = ""
  · subst named
    rw [if_neg (by simp), get?_eq_none_iff]
    intro member
    obtain ⟨entry, he, empty⟩ := List.mem_map.mp member
    exact (isSound_collect uses).named entry he empty
  · have start : ({} : Catalog) = empty "" := rfl
    rw [collect, start, get?_foldl_record (isSound_empty "") named]
    by_cases used : key ∈ uses.map Use.key
    · have full : (uses.filter (·.key == key)).isEmpty = false := by
        obtain ⟨use, hu, rfl⟩ := List.mem_map.mp used
        rw [List.isEmpty_eq_false_iff]
        exact List.ne_nil_of_mem (List.mem_filter.mpr ⟨hu, by simp⟩)
      rw [full, if_neg Bool.false_ne_true]
      exact (if_pos ⟨named, used⟩).symm
    · have bare : (uses.filter (·.key == key)).isEmpty = true := by
        rw [List.isEmpty_iff, List.filter_eq_nil_iff]
        intro use hu same
        exact used (List.mem_map.mpr ⟨use, hu, by simpa using same⟩)
      rw [if_pos bare]
      exact (if_neg fun h => used h.2).symm

theorem mem_keys_collect {uses : List Use} {key : String} :
    key ∈ (collect uses).keys ↔ key ≠ "" ∧ key ∈ uses.map Use.key := by
  rw [← get?_isSome_iff, get?_collect]
  split <;> simp_all

theorem eq_gathered_of_mem {uses : List Use} {entry : Entry} (h : entry ∈ (collect uses).entries) :
    entry = gathered entry.key uses := by
  have found := get?_of_mem (isSound_collect uses) h
  rw [get?_collect] at found
  split at found
  · exact (Option.some.inj found).symm
  · cases found

private theorem mem_map_ordered_collect {uses : List Use} {entry : Entry} :
    entry ∈ (collect uses).entries.map Entry.ordered ↔
      ∃ key ∈ (collect uses).keys, (gathered key uses).ordered = entry := by
  constructor
  · intro h
    obtain ⟨found, hf, rfl⟩ := List.mem_map.mp h
    refine ⟨found.key, List.mem_map_of_mem hf, ?_⟩
    rw [← eq_gathered_of_mem hf]
  · rintro ⟨key, hk, rfl⟩
    have found : (collect uses).get? key = some (gathered key uses) := by
      rw [get?_collect, if_pos (mem_keys_collect.mp hk)]
    exact List.mem_map_of_mem (key_of_get? found).1

section Same

variable {a b : List Use} (same : ∀ use, use ∈ a ↔ use ∈ b)

include same

theorem mem_keys_collect_congr (key : String) :
    key ∈ (collect a).keys ↔ key ∈ (collect b).keys := by
  rw [mem_keys_collect, mem_keys_collect]
  simp only [List.mem_map, same]

private theorem perm_collect :
    ((collect a).entries.map Entry.ordered).Perm ((collect b).entries.map Entry.ordered) := by
  have distinct : ∀ uses : List Use, ((collect uses).entries.map Entry.ordered).Nodup := by
    intro uses
    have keys := (isSound_collect uses).distinct
    refine List.Nodup.of_map Entry.key ?_
    rw [List.map_map]
    exact keys
  rw [List.perm_ext_iff_of_nodup (distinct a) (distinct b)]
  intro entry
  simp only [mem_map_ordered_collect, mem_keys_collect_congr same, ordered_gathered_congr same]

theorem render_collect_congr : (collect a).render = (collect b).render :=
  render_congr (isSound_collect a).distinct (perm_collect same)

theorem render_merge_collect_congr (existing : Catalog) :
    (existing.merge (collect a)).render = (existing.merge (collect b)).render := by
  have distinct : (existing.merge (collect a)).keys.Nodup := by
    rw [keys_merge]
    exact (isSound_collect a).distinct
  have merged : ∀ fresh : Catalog, (existing.merge fresh).entries.map Entry.ordered =
      (fresh.entries.map Entry.ordered).map fun entry => { entry with
        localized := ((existing.get? entry.key).map Entry.localized).getD "" } := by
    intro fresh
    rw [merge, List.map_map, List.map_map]
    rfl
  refine render_congr distinct ?_
  rw [merged, merged]
  exact (perm_collect same).map _

theorem isEmpty_collect_congr : (collect a).isEmpty = (collect b).isEmpty := by
  rw [Bool.eq_iff_iff, isEmpty_iff, isEmpty_iff]
  simp only [mem_keys_collect_congr same]

end Same

end Phrasebook.Catalog
