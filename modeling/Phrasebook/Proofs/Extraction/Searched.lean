import Phrasebook.Proofs.Extraction.Report
import Phrasebook.Proofs.Extraction.Rerun
import Phrasebook.Proofs.Extraction.Schedule

/-!
Script files that cannot be searched. Each fails once, and a run without them leaves the same tree.
-/

set_option autoImplicit false

namespace Phrasebook.Extraction

section Files

variable (tree : FileTree) (options : Options)

def isSearched (file : String) : Bool :=
  (outputDirectory file options.directory).isOk && (scanFile tree options.markers file).isOk

section Cons

variable {tree options} {file : String} (files : List String)

theorem outcomes_cons_of_error {cause : Cause}
    (routed : outputDirectory file options.directory = .error cause) :
    outcomes tree options (file :: files) = outcomes tree options files := by
  rw [outcomes, List.filterMap_cons, routed]
  rfl

theorem outcomes_cons_of_ok {directory : String}
    (routed : outputDirectory file options.directory = .ok directory) :
    outcomes tree options (file :: files) =
      ⟨file, directory, scanFile tree options.markers file⟩ :: outcomes tree options files := by
  rw [outcomes, List.filterMap_cons, routed]
  rfl

theorem isSearched_of_error {cause : Cause}
    (routed : outputDirectory file options.directory = .error cause) :
    isSearched tree options file = false := by
  rw [isSearched, routed]
  rfl

theorem isSearched_of_ok {directory : String}
    (routed : outputDirectory file options.directory = .ok directory) :
    isSearched tree options file = (scanFile tree options.markers file).isOk := by
  rw [isSearched, routed]
  rfl

end Cons

theorem outcomes_filter (files : List String) :
    outcomes tree options (files.filter (isSearched tree options)) =
      (outcomes tree options files).filter fun outcome => outcome.result.isOk := by
  induction files with
  | nil => rfl
  | cons file files ih =>
    cases routed : outputDirectory file options.directory with
    | error cause =>
      rw [outcomes_cons_of_error files routed, List.filter_cons_of_neg (by
        simp [isSearched_of_error routed]), ih]
    | ok directory =>
      rw [outcomes_cons_of_ok files routed, List.filter_cons, List.filter_cons,
        isSearched_of_ok routed]
      split
      · rw [outcomes_cons_of_ok _ routed, ih]
      · exact ih

theorem scanned_searchReport (files : List String) :
    (searchReport options files (outcomes tree options files)).scanned =
      (files.filter (isSearched tree options)).length := by
  rw [searchReport]
  induction files with
  | nil => rfl
  | cons file files ih =>
    cases routed : outputDirectory file options.directory with
    | error cause =>
      rw [outcomes_cons_of_error files routed, List.filter_cons_of_neg (by
        simp [isSearched_of_error routed])]
      exact ih
    | ok directory =>
      rw [outcomes_cons_of_ok files routed, List.filter_cons, isSearched_of_ok routed,
        List.filterMap_cons, Outcome.scan?]
      cases scanFile tree options.markers file with
      | error cause => exact ih
      | ok scan => exact congrArg (· + 1) ih

theorem failures_searchReport (files : List String) :
    ((searchReport options files (outcomes tree options files)).failures.map Failure.path).Perm
      (files.filter (!isSearched tree options ·)) := by
  rw [searchReport, List.map_append]
  induction files with
  | nil => exact .nil
  | cons file files ih =>
    cases routed : outputDirectory file options.directory with
    | error cause =>
      rw [outcomes_cons_of_error files routed, List.filter_cons_of_pos (by
          simp [isSearched_of_error routed]), List.filterMap_cons, unroutedFailure?, routed]
      exact ih.cons file
    | ok directory =>
      rw [outcomes_cons_of_ok files routed, List.filter_cons, isSearched_of_ok routed,
        List.filterMap_cons, unroutedFailure?, routed, List.filterMap_cons, Outcome.failure?]
      -- Files without a directory are reported first, so this failure stands behind all of theirs.
      cases scanFile tree options.markers file with
      | error cause => exact List.perm_middle.trans (ih.cons file)
      | ok scan => exact ih

theorem freshCatalog_outcomes_filter (files : List String) (directory : String) :
    freshCatalog directory (outcomes tree options (files.filter (isSearched tree options))) =
      freshCatalog directory (outcomes tree options files) := by
  rw [outcomes_filter, freshCatalog, freshCatalog, usesIn, usesIn]
  congr 1
  induction outcomes tree options files with
  | nil => rfl
  | cons outcome found ih =>
    rw [List.flatMap_cons]
    cases result : outcome.result with
    | error cause =>
      rw [List.filter_cons_of_neg (by rw [result]; exact Bool.false_ne_true)]
      exact ih
    | ok scan =>
      rw [List.filter_cons_of_pos (by rw [result]; rfl), List.flatMap_cons, result, ih]

end Files

section Without

variable {tree : FileTree} {options : Options} {found others : List Outcome}

theorem treeAfterDirectory_of_fresh
    (fresh : ∀ directory, freshCatalog directory found = freshCatalog directory others)
    (tree : FileTree) (directory : String) :
    treeAfterDirectory options found tree directory =
      treeAfterDirectory options others tree directory := by
  have same : performWrite options found = performWrite options others := by
    funext tree place
    rw [performWrite, performWrite, fresh]
  rw [treeAfterDirectory, treeAfterDirectory, treeAfter, treeAfter, same]

theorem treeAfterDirectory_of_isEmpty {directory : String}
    (empty : (freshCatalog directory found).isEmpty = true) (tree : FileTree) :
    treeAfterDirectory options found tree directory = tree := by
  unfold treeAfterDirectory
  induction options.locales generalizing tree with
  | nil => rfl
  | cons locale locales ih =>
    rw [List.map_cons, treeAfter_cons, (performWrite_of_isEmpty empty options tree locale).2]
    exact ih tree

theorem isEmpty_freshCatalog_of_not_mem {directory : String}
    (absent : ∀ outcome ∈ found, Path.parts outcome.directory ≠ Path.parts directory) :
    (freshCatalog directory found).isEmpty = true := by
  have none_ : usesIn directory found = [] := by
    refine List.eq_nil_iff_forall_not_mem.mpr fun use hu => ?_
    obtain ⟨outcome, ho, scan, -, here, -⟩ := mem_usesIn.mp hu
    exact absent outcome ho here
  rw [freshCatalog, none_]
  rfl

private theorem map_rank_filter_directoriesOf (inside : others ⊆ found) :
    ((directoriesOf found).filter fun directory =>
        others.any fun outcome => Path.same outcome.directory directory).map Path.rank =
      (directoriesOf others).map Path.rank := by
  refine eq_of_pairwise_lt ((pairwise_directoriesOf found).sublist (List.filter_sublist.map _))
    (pairwise_directoriesOf others) fun rank => ?_
  rw [mem_map_rank_directoriesOf, List.mem_map]
  constructor
  · rintro ⟨directory, hd, rfl⟩
    obtain ⟨outcome, ho, same⟩ := List.any_eq_true.mp (List.mem_filter.mp hd).2
    exact ⟨outcome, ho, Path.rank_eq_iff.mpr (Path.same_iff.mp same)⟩
  · rintro ⟨outcome, ho, rfl⟩
    obtain ⟨directory, hd, same⟩ := exists_mem_directoriesOf (inside ho)
    refine ⟨directory, List.mem_filter.mpr ⟨hd, ?_⟩, Path.rank_eq_iff.mpr same.symm⟩
    exact List.any_eq_true.mpr ⟨outcome, ho, Path.same_iff.mpr same⟩

/-- A script file that fails spells its catalog directory like the files that are searched there, or the
spellings are regular. -/
def AreFailingSpelled (tree : FileTree) (options : Options) (files : List String) : Prop :=
  ∀ file ∈ files, isSearched tree options file = false →
    ∀ other ∈ files, isSearched tree options other = true →
      ∀ a b, outputDirectory file options.directory = .ok a →
        outputDirectory other options.directory = .ok b → Path.parts a = Path.parts b →
          a = b ∨ IsRegular options a ∧ IsRegular options b

theorem AreFailingSpelled.subset {files fewer : List String}
    (spelled : AreFailingSpelled tree options files) (inside : fewer ⊆ files) :
    AreFailingSpelled tree options fewer :=
  fun file hf failed other ho => spelled file (inside hf) failed other (inside ho)

private theorem find?_filter_of_find? {α : Type} (keeps : α → Bool) {holds : α → Bool} {all : List α}
    {one : α} (first : all.find? holds = some one) (kept : keeps one = true) :
    (all.filter keeps).find? holds = some one := by
  obtain ⟨here, before, after, rfl, others⟩ := List.find?_eq_some_iff_append.mp first
  rw [List.filter_append, List.filter_cons_of_pos kept]
  exact List.find?_eq_some_iff_append.mpr
    ⟨here, _, _, rfl, fun other ho => others other (List.mem_of_mem_filter ho)⟩

theorem AreFailingSpelled.spells {files : List String} (spelled : AreFailingSpelled tree options files)
    {a b : String} (parts : Path.parts a = Path.parts b)
    (ha : a ∈ directoriesOf (outcomes tree options (files.filter (isSearched tree options))))
    (hb : b ∈ directoriesOf (outcomes tree options files)) : Spells options a b := by
  obtain ⟨inner, firstA, rfl⟩ := find?_of_mem_directoriesOf ha
  obtain ⟨outer, firstB, rfl⟩ := find?_of_mem_directoriesOf hb
  have sameA : ∀ outcome : Outcome, Path.same outcome.directory inner.directory =
      Path.same outcome.directory outer.directory := fun outcome => by rw [Path.same, Path.same, parts]
  rw [outcomes_filter] at firstA
  simp only [sameA] at firstA
  obtain ⟨there, routedB, resultB⟩ := mem_outcomes.mp (List.mem_of_find?_eq_some firstB)
  obtain ⟨member, searched⟩ := List.mem_filter.mp (List.mem_of_find?_eq_some firstA)
  obtain ⟨inside, routedA, resultA⟩ := mem_outcomes.mp member
  cases found : outer.result.isOk with
  | true =>
    -- The first of all files there is searched, so it is the first of the searched ones.
    have first := find?_filter_of_find? (·.result.isOk) firstB found
    rw [Option.some.inj (firstA.symm.trans first)]
    exact Or.inl rfl
  | false =>
    have failed : isSearched tree options outer.file = false := by
      rw [isSearched_of_ok routedB, resultB, found]
    have success : isSearched tree options inner.file = true := by
      rw [isSearched_of_ok routedA, resultA, searched]
    rcases spelled _ there failed _ inside success _ _ routedB routedA parts.symm with same | regular
    · exact Or.inl same.symm
    · exact Or.inr ⟨outputDirectory_ne_empty routedA, parts, regular.2, regular.1⟩

/-- The tree after a run is what the files that are searched make of it. -/
theorem tree_extract_filter {files : List String} (spelled : AreFailingSpelled tree options files) :
    ((extract options (files.filter (isSearched tree options))).run tree).2 =
      ((extract options files).run tree).2 := by
  rw [← extractBy_given, ← extractBy_given, tree_extractBy, tree_extractBy]
  simp only [Schedule.given]
  have fresh := freshCatalog_outcomes_filter tree options files
  have inside : outcomes tree options (files.filter (isSearched tree options)) ⊆
      outcomes tree options files := by
    rw [outcomes_filter]
    exact List.filter_subset_self _
  have aligned := forall₂_of_map_rank_eq (map_rank_filter_directoriesOf inside).symm
  have dropped : ∀ directory later,
      (outcomes tree options (files.filter (isSearched tree options))).any
          (fun outcome => Path.same outcome.directory directory) ≠ true →
        treeAfterDirectory options (outcomes tree options files) later directory = later := by
    intro directory later absent
    refine treeAfterDirectory_of_isEmpty ?_ later
    rw [← fresh]
    refine isEmpty_freshCatalog_of_not_mem fun outcome ho here => absent ?_
    exact List.any_eq_true.mpr ⟨outcome, ho, Path.same_iff.mpr here⟩
  -- The directories with a file that is searched are taken in the same order, each in some spelling; to
  -- the others no messages come, so nothing is written there.
  trans ((directoriesOf (outcomes tree options files)).filter fun directory =>
    (outcomes tree options (files.filter (isSearched tree options))).any fun outcome =>
      Path.same outcome.directory directory).foldl
        (treeAfterDirectory options (outcomes tree options files)) tree
  · refine foldl_congr_of_forall₂ aligned (fun a ha b hb equal later => ?_) tree
    rw [treeAfterDirectory_of_fresh fresh]
    exact treeAfterDirectory_congr (spelled.spells (Path.rank_eq_iff.mp equal) ha
      (List.mem_filter.mp hb).1) (fun _ => Iff.rfl) later
  · rw [List.foldl_filter]
    congr 1
    funext later directory
    split
    · rfl
    · rename_i absent
      exact (dropped directory later absent).symm

theorem tree_extract_of_failing {files : List String}
    (spelled : AreFailingSpelled tree options files) {kept : String → Bool}
    (searched : ∀ file ∈ files, isSearched tree options file = true → kept file = true) :
    ((extract options (files.filter kept)).run tree).2 = ((extract options files).run tree).2 := by
  have same : (files.filter kept).filter (isSearched tree options) =
      files.filter (isSearched tree options) := by
    rw [List.filter_filter]
    refine List.filter_congr fun file hf => ?_
    cases found : isSearched tree options file with
    | true => rw [searched file hf found, Bool.and_self]
    | false => rw [Bool.false_and]
  rw [← tree_extract_filter (spelled.subset (List.filter_subset_self _)), same,
    tree_extract_filter spelled]

end Without

end Phrasebook.Extraction
