import Phrasebook.Proofs.Extraction.Routing
import Phrasebook.Proofs.Extraction.Run
import Phrasebook.Proofs.Extraction.Writing

/-!
What a run reports: nothing failed if and only if everything went well, and then each directory with
messages has the catalogs of all locales.
-/

set_option autoImplicit false

namespace Phrasebook.Extraction

variable {options : Options} {found : List Outcome}

theorem map_locale_turnsFrom (tree : FileTree) (places : List (String × String)) :
    (turnsFrom options found tree places).map Turn.locale = places.map Prod.snd := by
  induction places generalizing tree with
  | nil => rfl
  | cons place places ih => rw [turnsFrom, List.map_cons, List.map_cons, ih]

theorem wrote_of_save {tree later : FileTree} {catalog : Catalog} {path : String} {wrote : Bool}
    (full : catalog.isEmpty = false)
    (done : tree.perform (catalog.save path) = (.ok wrote, later)) : wrote = true := by
  rw [FileTree.perform_save tree full] at done
  split at done
  · cases done
  · split at done
    · cases done
    · split at done
      · exact (Except.ok.inj (congrArg Prod.fst done)).symm
      · cases done

theorem isWritten_of_ok {turn : Turn} (full : (freshCatalog turn.directory found).isEmpty = false)
    {count : Option Nat} (done : turn.result options found = .ok count) :
    isWritten (turn.result options found) = true := by
  rw [Turn.result, performWrite, perform_writeLocale] at done ⊢
  cases old : existingCatalog turn.tree options.overwrite
      (Catalog.filePath turn.directory turn.locale) turn.locale with
  | error error =>
    rw [old] at done
    cases done
  | ok existing =>
    have filled : (existing.merge (freshCatalog turn.directory found)).isEmpty = false := by
      rw [Catalog.isEmpty_merge, full]
    simp only [old] at done ⊢
    rcases saved : turn.tree.perform ((existing.merge (freshCatalog turn.directory found)).save
        (Catalog.filePath turn.directory turn.locale)) with ⟨error | wrote, later⟩
    · rw [saved] at done
      cases done
    · obtain rfl := wrote_of_save filled saved
      rfl

theorem failures_eq_nil_iff {turn : Turn} :
    turn.failures options found = [] ↔ ∃ count, turn.result options found = .ok count := by
  unfold Turn.failures
  cases turn.result options found <;> simp

theorem directories_directoryReports (options : Options) (found : List Outcome) (tree : FileTree)
    (directories : List String) :
    (directoryReports options found tree directories).map DirectoryReport.directory =
      directories := by
  induction directories generalizing tree with
  | nil => rfl
  | cons directory directories ih => rw [directoryReports, List.map_cons, ih]

private theorem directory_of_mem_turnsFrom {tree : FileTree} {directories : List String} {turn : Turn}
    (member : turn ∈ turnsFrom options found tree (directories.flatMap fun directory =>
      options.locales.map fun locale => (directory, locale))) : turn.directory ∈ directories := by
  obtain ⟨place, hp, same, -⟩ := exists_place_of_mem_turnsFrom member
  obtain ⟨directory, hd, inside⟩ := List.mem_flatMap.mp hp
  obtain ⟨locale, -, rfl⟩ := List.mem_map.mp inside
  rwa [same]

private theorem directory_of_mem_turnsFrom_map {tree : FileTree} {directory : String} {turn : Turn}
    (member : turn ∈ turnsFrom options found tree
      (options.locales.map fun locale => (directory, locale))) : turn.directory = directory := by
  obtain ⟨place, hp, same, -⟩ := exists_place_of_mem_turnsFrom member
  obtain ⟨locale, -, rfl⟩ := List.mem_map.mp hp
  exact same

theorem of_mem_directoryReports {tree : FileTree} {directories : List String}
    (distinct : directories.Nodup) {report : DirectoryReport}
    (member : report ∈ directoryReports options found tree directories) :
    let own := (turnsFrom options found tree (directories.flatMap fun directory =>
      options.locales.map fun locale => (directory, locale))).filter
        (·.directory == report.directory)
    own.map Turn.locale = options.locales ∧
      report.entries = (freshCatalog report.directory found).size ∧
        report.written = writtenLocales options found own := by
  induction directories generalizing tree with
  | nil => cases member
  | cons directory directories ih =>
    obtain ⟨new, distinct⟩ := List.nodup_cons.mp distinct
    rw [List.flatMap_cons, turnsFrom_append, List.filter_append]
    -- No directory comes twice, so its turns are all in the first part or all in the second.
    rcases List.mem_cons.mp member with rfl | member
    · rw [List.filter_eq_self.mpr fun turn ht => by simp [directory_of_mem_turnsFrom_map ht],
        List.filter_eq_nil_iff.mpr fun turn ht => ?_, List.append_nil]
      · refine ⟨?_, rfl, rfl⟩
        rw [map_locale_turnsFrom, List.map_map]
        exact List.map_id _
      · simp only [beq_iff_eq]
        rintro rfl
        exact new (directory_of_mem_turnsFrom ht)
    · have there : report.directory ∈ directories := by
        rw [← directories_directoryReports options found _ directories]
        exact List.mem_map_of_mem member
      rw [List.filter_eq_nil_iff.mpr fun turn ht => ?_, List.nil_append]
      · exact ih distinct member
      · simp only [directory_of_mem_turnsFrom_map ht, beq_iff_eq]
        rintro rfl
        exact new there

theorem nodup_directoriesOf (found : List Outcome) : (directoriesOf found).Nodup :=
  ((pairwise_directoriesOf found).imp fun less => ne_of_lt less).of_map Path.rank
    fun _ _ differ same => differ (congrArg Path.rank same)

variable (options) (files : List String) (tree : FileTree)

theorem failures_searchReport_eq_nil_iff :
    (searchReport options files (outcomes tree options files)).failures = [] ↔
      ∀ file ∈ files, ∃ directory scan, outputDirectory file options.directory = .ok directory ∧
        scanFile tree options.markers file = .ok scan := by
  rw [searchReport, List.append_eq_nil_iff, List.filterMap_eq_nil_iff, outcomes,
    List.filterMap_filterMap, List.filterMap_eq_nil_iff, ← forall₂_and]
  refine forall₂_congr fun file _ => ?_
  unfold unroutedFailure?
  cases outputDirectory file options.directory with
  | error cause => simp
  | ok directory =>
    simp only [Outcome.failure?, Option.bind_some]
    cases scanFile tree options.markers file <;> simp

theorem failures_extract_eq_nil_iff :
    ((extract options files).run tree).1.failures = [] ↔
      (∀ file ∈ files, ∃ directory scan, outputDirectory file options.directory = .ok directory ∧
        scanFile tree options.markers file = .ok scan) ∧
      ∀ turn ∈ turns options files tree,
        ∃ count, turn.result options (outcomes tree options files) = .ok count := by
  rw [failures_extract, List.append_eq_nil_iff, failures_searchReport_eq_nil_iff,
    List.flatMap_eq_nil_iff]
  simp only [failures_eq_nil_iff]

variable {options files tree} {report : DirectoryReport}
  (member : report ∈ ((extract options files).run tree).1.directories)

include member

theorem of_mem_directories :
    let own := (turns options files tree).filter (·.directory == report.directory)
    own.map Turn.locale = options.locales ∧
      report.entries = (freshCatalog report.directory (outcomes tree options files)).size ∧
        report.written = writtenLocales options (outcomes tree options files) own := by
  rw [(report_extract options files tree).2.2] at member
  exact of_mem_directoryReports (nodup_directoriesOf _) member

theorem written_eq_of_turns (sound : ∀ turn ∈ turns options files tree,
      ∃ count, turn.result options (outcomes tree options files) = .ok count)
    (full : 0 < report.entries) : report.written = options.locales := by
  obtain ⟨locales, entries, written⟩ := of_mem_directories member
  rw [entries, Catalog.size, List.length_pos_iff, ← List.isEmpty_eq_false_iff] at full
  rw [written, writtenLocales, List.filter_eq_self.mpr fun turn ht => ?_, locales]
  obtain ⟨inside, here⟩ := List.mem_filter.mp ht
  obtain ⟨count, done⟩ := sound turn inside
  refine isWritten_of_ok ?_ done
  rw [beq_iff_eq.mp here]
  exact full

end Phrasebook.Extraction
