import Phrasebook.Extraction
import Phrasebook.Proofs.Catalog.Refresh
import Phrasebook.Proofs.Files.Order
import Phrasebook.Proofs.Files.Path
import Phrasebook.Proofs.Script.Messages

/-!
The way of messages to catalog directories.
-/

set_option autoImplicit false

namespace Phrasebook.Extraction

theorem directoriesOf_eq (found : List Outcome) :
    directoriesOf found =
      (found.map Outcome.directory).foldl (fun known path => Path.insert path known) [] := by
  rw [directoriesOf, List.foldl_map]

theorem exists_of_mem_directoriesOf {found : List Outcome} {directory : String}
    (h : directory ∈ directoriesOf found) : ∃ outcome ∈ found, outcome.directory = directory := by
  rw [directoriesOf_eq] at h
  rcases Path.mem_foldl_insert h with h | h
  · cases h
  · exact List.mem_map.mp h

theorem find?_of_mem_directoriesOf {found : List Outcome} {directory : String}
    (h : directory ∈ directoriesOf found) : ∃ outcome,
      found.find? (fun outcome => Path.same outcome.directory directory) = some outcome ∧
        outcome.directory = directory := by
  rw [directoriesOf_eq] at h
  have first := Path.find?_of_mem_foldl_insert h
  rw [List.find?_map] at first
  exact Option.map_eq_some_iff.mp first

theorem exists_mem_directoriesOf {found : List Outcome} {outcome : Outcome} (h : outcome ∈ found) :
    ∃ directory ∈ directoriesOf found, Path.parts outcome.directory = Path.parts directory := by
  rw [directoriesOf_eq]
  exact Path.exists_mem_foldl_insert (Or.inr (List.mem_map_of_mem h))

theorem pairwise_directoriesOf (found : List Outcome) :
    ((directoriesOf found).map Path.rank).Pairwise (· < ·) := by
  rw [directoriesOf_eq]
  exact Path.pairwise_foldl_insert .nil

theorem outputDirectory_ne_empty {file directory output : String}
    (h : outputDirectory file directory = .ok output) : output ≠ "" := by
  unfold outputDirectory at h
  split at h
  · cases h
  · rename_i full
    have named : directory ≠ "" := by
      rintro rfl
      exact full rfl
    split at h
    · cases h
    · rw [← Except.ok.inj h]
      exact Path.join_ne_empty named

theorem mem_map_rank_directoriesOf {found : List Outcome} {rank : List (ℕ ×ₗ String)} :
    rank ∈ (directoriesOf found).map Path.rank ↔
      ∃ outcome ∈ found, Path.rank outcome.directory = rank := by
  rw [List.mem_map]
  constructor
  · rintro ⟨directory, hd, rfl⟩
    obtain ⟨outcome, ho, rfl⟩ := exists_of_mem_directoriesOf hd
    exact ⟨outcome, ho, rfl⟩
  · rintro ⟨outcome, ho, rfl⟩
    obtain ⟨directory, hd, equal⟩ := exists_mem_directoriesOf ho
    exact ⟨directory, hd, Path.rank_eq_iff.mpr equal.symm⟩

/-- The directories depend on the script files, and not on their order or number; but for the spelling
of directories with the same parts. -/
theorem rank_directoriesOf_congr {found others : List Outcome}
    (same : ∀ outcome, outcome ∈ found ↔ outcome ∈ others) :
    (directoriesOf found).map Path.rank = (directoriesOf others).map Path.rank := by
  refine eq_of_pairwise_lt (pairwise_directoriesOf found) (pairwise_directoriesOf others) ?_
  intro rank
  rw [mem_map_rank_directoriesOf, mem_map_rank_directoriesOf]
  simp only [same]

theorem freshCatalog_eq (directory : String) (found : List Outcome) :
    freshCatalog directory found = Catalog.collect (usesIn directory found) := rfl

theorem mem_usesIn {directory : String} {found : List Outcome} {use : Catalog.Use} :
    use ∈ usesIn directory found ↔ ∃ outcome ∈ found, ∃ scan, outcome.result = .ok scan ∧
      Path.parts outcome.directory = Path.parts directory ∧
        ∃ message ∈ scan.messages, useOf outcome.file message = use := by
  simp only [usesIn, List.mem_flatMap]
  constructor
  · rintro ⟨outcome, ho, h⟩
    split at h
    · rename_i scan searched
      split at h
      · rename_i here
        exact ⟨outcome, ho, scan, searched, Path.same_iff.mp here, List.mem_map.mp h⟩
      · cases h
    · cases h
  · rintro ⟨outcome, ho, scan, searched, here, message, hm, rfl⟩
    refine ⟨outcome, ho, ?_⟩
    simp only [searched, Path.same_iff.mpr here, if_true]
    exact List.mem_map_of_mem hm

theorem freshCatalog_congr {a b : String} (same : Path.parts a = Path.parts b)
    (found : List Outcome) : freshCatalog a found = freshCatalog b found := by
  have here : ∀ outcome : Outcome,
      Path.same outcome.directory a = Path.same outcome.directory b := by
    intro outcome
    simp [Path.same, same]
  simp only [freshCatalog, usesIn, here]

theorem isFresh_freshCatalog {found : List Outcome}
    (lines : ∀ outcome ∈ found,
      '\n' ∉ ((Path.fileName? outcome.file).getD outcome.file).toList) (directory : String) :
    (freshCatalog directory found).IsFresh := by
  refine Catalog.isFresh_collect fun use hu => ?_
  obtain ⟨outcome, ho, scan, -, -, message, -, rfl⟩ := mem_usesIn.mp hu
  exact lines outcome ho

theorem mem_keys_freshCatalog {found : List Outcome} {outcome : Outcome} (ho : outcome ∈ found)
    {scan : Script.Scan} (searched : outcome.result = .ok scan) {message : Script.Message}
    (hm : message ∈ scan.messages) (named : message.literal ≠ "") :
    message.literal ∈ (freshCatalog outcome.directory found).keys := by
  refine Catalog.mem_keys_collect.mpr ⟨named, List.mem_map.mpr ⟨useOf outcome.file message, ?_, rfl⟩⟩
  exact mem_usesIn.mpr ⟨outcome, ho, scan, searched, rfl, message, hm, rfl⟩

theorem isEmpty_of_mem_keys {catalog : Catalog} {key : String} (h : key ∈ catalog.keys) :
    catalog.isEmpty = false := by
  rw [← Bool.not_eq_true, Catalog.isEmpty_iff]
  exact fun absent => absent key h

theorem mem_outcomes {tree : FileTree} {options : Options} {files : List String} {outcome : Outcome} :
    outcome ∈ outcomes tree options files ↔ outcome.file ∈ files ∧
      outputDirectory outcome.file options.directory = .ok outcome.directory ∧
        scanFile tree options.markers outcome.file = outcome.result := by
  simp only [outcomes, List.mem_filterMap]
  constructor
  · rintro ⟨file, hf, h⟩
    split at h
    · rename_i directory routed
      obtain rfl := Option.some.inj h
      exact ⟨hf, routed, rfl⟩
    · cases h
  · rintro ⟨hf, routed, searched⟩
    refine ⟨outcome.file, hf, ?_⟩
    simp only [routed, searched]

theorem scanFile_eq_ok {tree : FileTree} {markers : Script.Markers} {file name text : String}
    (last : (FileTree.piecesOf file).getLast? = some name) (proper : FileTree.IsName name)
    (unlinked : tree.Unlinked name) {home : Names} (way : tree.wayIn file = .ok home)
    (there : tree.item? (home ++ [name]) = some (.file (.text text))) {scan : Script.Scan}
    (searched : Script.scan? file text markers = some scan) :
    scanFile tree markers file = .ok scan := by
  have read := (FileTree.readText_eq_ok_iff last proper unlinked).mpr ⟨home, way, there⟩
  simp only [scanFile, read, searched]

theorem exists_file_of_mem_directoriesOf {tree : FileTree} {options : Options} {files : List String}
    {directory : String} (h : directory ∈ directoriesOf (outcomes tree options files)) :
    ∃ file ∈ files, outputDirectory file options.directory = .ok directory := by
  obtain ⟨outcome, ho, rfl⟩ := exists_of_mem_directoriesOf h
  obtain ⟨member, routed, -⟩ := mem_outcomes.mp ho
  exact ⟨outcome.file, member, routed⟩

theorem isFound_of_scanFile {tree : FileTree} {markers : Script.Markers} {file : String}
    {scan : Script.Scan} (h : scanFile tree markers file = .ok scan) {message : Script.Message}
    (hm : message ∈ scan.messages) : Script.IsFound message := by
  unfold scanFile at h
  split at h
  · cases h
  · split at h
    · rename_i text _ found searched
      obtain rfl := Except.ok.inj h
      exact Script.isFound_of_scan? searched hm
    · cases h

theorem literal_ne_empty_of_scanFile {tree : FileTree} {markers : Script.Markers} {file : String}
    {scan : Script.Scan} (h : scanFile tree markers file = .ok scan) {message : Script.Message}
    (hm : message ∈ scan.messages) : message.literal ≠ "" :=
  (isFound_of_scanFile h hm).isNormal.filled

end Phrasebook.Extraction
