import Phrasebook.Extraction
import Phrasebook.Proofs.Catalog.File

/-!
An extraction as a run: one catalog is written after the other, each into the tree that the one before
it has left.
-/

set_option autoImplicit false

namespace Phrasebook.Extraction

variable (options : Options) (found : List Outcome)

def writes : List (String × String) :=
  (directoriesOf found).flatMap fun directory => options.locales.map fun locale => (directory, locale)

def performWrite (tree : FileTree) (place : String × String) :
    Except Catalog.FileError (Option Nat) × FileTree :=
  tree.perform (writeLocale options.overwrite (freshCatalog place.1 found)
    (Catalog.filePath place.1 place.2) place.2)

/-- The writing of one catalog in a run: where the catalog belongs, and the tree at that time. -/
structure Turn where
  tree : FileTree
  directory : String
  locale : String

def turnsFrom (tree : FileTree) : List (String × String) → List Turn
  | [] => []
  | place :: rest =>
    ⟨tree, place.1, place.2⟩ :: turnsFrom (performWrite options found tree place).2 rest

def Turn.result (turn : Turn) : Except Catalog.FileError (Option Nat) :=
  (performWrite options found turn.tree (turn.directory, turn.locale)).1

def Turn.failures (turn : Turn) : List Failure :=
  match turn.result options found with
  | .ok _ => []
  | .error error => [⟨Catalog.filePath turn.directory turn.locale, .catalog error⟩]

def treeAfter (tree : FileTree) (places : List (String × String)) : FileTree :=
  places.foldl (fun tree place => (performWrite options found tree place).2) tree

theorem treeAfter_cons (tree : FileTree) (place : String × String)
    (places : List (String × String)) :
    treeAfter options found tree (place :: places) =
      treeAfter options found (performWrite options found tree place).2 places := rfl

theorem treeAfter_append (tree : FileTree) (places more : List (String × String)) :
    treeAfter options found tree (places ++ more) =
      treeAfter options found (treeAfter options found tree places) more :=
  List.foldl_append

theorem turnsFrom_append (tree : FileTree) (places more : List (String × String)) :
    turnsFrom options found tree (places ++ more) =
      turnsFrom options found tree places ++
        turnsFrom options found (treeAfter options found tree places) more := by
  induction places generalizing tree with
  | nil => rfl
  | cons place places ih =>
    rw [List.cons_append, turnsFrom, ih, turnsFrom, List.cons_append]
    rfl

theorem exists_place_of_mem_turnsFrom {options : Options} {found : List Outcome} {tree : FileTree}
    {places : List (String × String)} {turn : Turn}
    (member : turn ∈ turnsFrom options found tree places) :
    ∃ place ∈ places, turn.directory = place.1 ∧ turn.locale = place.2 := by
  induction places generalizing tree with
  | nil => cases member
  | cons place places ih =>
    rcases List.mem_cons.mp member with rfl | member
    · exact ⟨place, by simp, rfl, rfl⟩
    · obtain ⟨other, ho, same⟩ := ih member
      exact ⟨other, by simp [ho], same⟩

theorem exists_turn_of_mem {places : List (String × String)} {place : String × String}
    (member : place ∈ places) (tree : FileTree) :
    ∃ turn ∈ turnsFrom options found tree places,
      turn.directory = place.1 ∧ turn.locale = place.2 := by
  induction places generalizing tree with
  | nil => cases member
  | cons first places ih =>
    rcases List.mem_cons.mp member with rfl | member
    · exact ⟨⟨tree, place.1, place.2⟩, by simp [turnsFrom], rfl, rfl⟩
    · obtain ⟨turn, ht, same⟩ := ih member (performWrite options found tree first).2
      exact ⟨turn, by simp [turnsFrom, ht], same⟩

def isWritten : Except Catalog.FileError (Option Nat) → Bool
  | .ok (some _) => true
  | _ => false

def Report.withWrite (report : Report) (path : String) (notes : List Log.Event) :
    Except Catalog.FileError (Option Nat) → Report
  | .ok (some count) =>
    let event := Log.debug .extraction "wrote catalog" [("path", path), ("entries", toString count)]
    { report with events := report.events ++ notes ++ [event] }
  | .ok none => { report with events := report.events ++ notes }
  | .error error =>
    { report with
      events := report.events ++ notes
      failures := report.failures ++ [⟨path, .catalog error⟩] }

def writeInto (state : FileTree × Report) (place : String × String) : FileTree × Report :=
  let path := Catalog.filePath place.1 place.2
  let performed := performWrite options found state.1 place
  (performed.2,
    state.2.withWrite path (existingEvents state.1 options.overwrite path) performed.1)

private theorem run_reportLocale (directory locale : String) (state : FileTree × Report) :
    (reportLocale options directory (freshCatalog directory found) locale).run state =
      (isWritten (performWrite options found state.1 (directory, locale)).1,
        writeInto options found state (directory, locale)) := by
  simp only [reportLocale, note, writeInto, performWrite, FileTree.perform, StateT.run_bind,
    StateT.run_get, StateT.run_modify, pure_bind]
  rcases (writeLocale options.overwrite (freshCatalog directory found)
    (Catalog.filePath directory locale) locale).run.run state.1 with ⟨_ | _ | _, later⟩ <;> rfl

private theorem run_filterAuxM (directory : String) (locales kept : List String)
    (state : FileTree × Report) :
    ((List.filterAuxM (reportLocale options directory (freshCatalog directory found)) locales
      kept).run state).2 =
      (locales.map fun locale => (directory, locale)).foldl (writeInto options found) state := by
  induction locales generalizing kept state with
  | nil => rfl
  | cons locale locales ih =>
    rw [List.filterAuxM, StateT.run_bind, run_reportLocale, List.map_cons, List.foldl_cons]
    exact ih _ _

private theorem failures_writeInto (state : FileTree × Report) (place : String × String) :
    (writeInto options found state place).2.failures =
      state.2.failures ++ Turn.failures options found ⟨state.1, place.1, place.2⟩ := by
  simp only [writeInto, Turn.failures, Turn.result]
  rcases performWrite options found state.1 place with ⟨_ | _ | _, later⟩ <;>
    simp [Report.withWrite]

private theorem foldl_writeInto (places : List (String × String)) (state : FileTree × Report) :
    (places.foldl (writeInto options found) state).1 = treeAfter options found state.1 places ∧
      (places.foldl (writeInto options found) state).2.failures = state.2.failures ++
        (turnsFrom options found state.1 places).flatMap (Turn.failures options found) := by
  induction places generalizing state with
  | nil => simp [treeAfter, turnsFrom]
  | cons place places ih =>
    obtain ⟨tree, failures⟩ := ih (writeInto options found state place)
    rw [List.foldl_cons]
    refine ⟨tree, ?_⟩
    rw [failures, failures_writeInto, turnsFrom, List.flatMap_cons, List.append_assoc]
    rfl

theorem run_reportDirectory (directory : String) (state : FileTree × Report) :
    let places := options.locales.map fun locale => (directory, locale)
    let after := ((reportDirectory options found directory).run state).2
    after.1 = treeAfter options found state.1 places ∧
      after.2.failures = state.2.failures ++
        (turnsFrom options found state.1 places).flatMap (Turn.failures options found) := by
  intro places after
  have run := run_filterAuxM options found directory options.locales [] state
  obtain ⟨tree, failures⟩ := foldl_writeInto options found places state
  rw [← run] at tree failures
  exact ⟨tree, failures⟩

def writtenLocales (turns : List Turn) : List String :=
  (turns.filter fun turn => isWritten (turn.result options found)).map Turn.locale

def directoryReports (tree : FileTree) : List String → List DirectoryReport
  | [] => []
  | directory :: rest =>
    let places := options.locales.map fun locale => (directory, locale)
    ⟨directory, (freshCatalog directory found).size,
        writtenLocales options found (turnsFrom options found tree places)⟩ ::
      directoryReports (treeAfter options found tree places) rest

private theorem withWrite_eq (report : Report) (path : String) (notes : List Log.Event)
    (result : Except Catalog.FileError (Option Nat)) :
    (report.withWrite path notes result).scanned = report.scanned ∧
      (report.withWrite path notes result).issues = report.issues ∧
        (report.withWrite path notes result).directories = report.directories := by
  rcases result with _ | _ | _ <;> exact ⟨rfl, rfl, rfl⟩

private theorem report_foldl_writeInto (places : List (String × String))
    (state : FileTree × Report) :
    let after := places.foldl (writeInto options found) state
    after.2.scanned = state.2.scanned ∧ after.2.issues = state.2.issues ∧
      after.2.directories = state.2.directories := by
  induction places generalizing state with
  | nil => exact ⟨rfl, rfl, rfl⟩
  | cons place places ih =>
    obtain ⟨scanned, issues, directories⟩ := ih (writeInto options found state place)
    obtain ⟨first, second, third⟩ := withWrite_eq state.2 (Catalog.filePath place.1 place.2)
      (existingEvents state.1 options.overwrite (Catalog.filePath place.1 place.2))
      (performWrite options found state.1 place).1
    exact ⟨scanned.trans first, issues.trans second, directories.trans third⟩

private theorem filterAuxM_eq (directory : String) (locales kept : List String)
    (state : FileTree × Report) :
    ((List.filterAuxM (reportLocale options directory (freshCatalog directory found)) locales
      kept).run state).1 =
      (writtenLocales options found (turnsFrom options found state.1
        (locales.map fun locale => (directory, locale)))).reverse ++ kept := by
  induction locales generalizing kept state with
  | nil => rfl
  | cons locale locales ih =>
    rw [List.filterAuxM, StateT.run_bind, run_reportLocale, List.map_cons, turnsFrom,
      writtenLocales, List.filter_cons]
    have rest := ih (bif isWritten (performWrite options found state.1 (directory, locale)).1 then
      locale :: kept else kept) (writeInto options found state (directory, locale))
    rw [Turn.result]
    cases written : isWritten (performWrite options found state.1 (directory, locale)).1 with
    | true =>
      rw [written] at rest
      rw [if_pos rfl, List.map_cons, List.reverse_cons, List.append_assoc]
      exact rest
    | false =>
      rw [written] at rest
      rw [if_neg Bool.false_ne_true]
      exact rest

private theorem report_reportDirectory (directory : String) (state : FileTree × Report) :
    let places := options.locales.map fun locale => (directory, locale)
    let after := ((reportDirectory options found directory).run state).2
    after.2.scanned = state.2.scanned ∧ after.2.issues = state.2.issues ∧
      after.2.directories = state.2.directories ++ [⟨directory, (freshCatalog directory found).size,
        writtenLocales options found (turnsFrom options found state.1 places)⟩] := by
  intro places after
  have run := run_filterAuxM options found directory options.locales [] state
  have written := filterAuxM_eq options found directory options.locales [] state
  obtain ⟨scanned, issues, directories⟩ := report_foldl_writeInto options found places state
  rw [← run] at scanned issues directories
  refine ⟨scanned, issues, ?_⟩
  rw [← directories, ← List.reverse_reverse (writtenLocales options found _), ←
    List.append_nil (writtenLocales options found _).reverse, ← written]
  rfl

private theorem run_forM (directories : List String) (state : FileTree × Report) :
    let places := directories.flatMap fun directory =>
      options.locales.map fun locale => (directory, locale)
    let after := ((directories.forM (reportDirectory options found)).run state).2
    after.1 = treeAfter options found state.1 places ∧
      after.2.failures = state.2.failures ++
        (turnsFrom options found state.1 places).flatMap (Turn.failures options found) := by
  induction directories generalizing state with
  | nil => exact ⟨rfl, (List.append_nil _).symm⟩
  | cons directory directories ih =>
    intro places after
    obtain ⟨tree, failures⟩ := run_reportDirectory options found directory state
    obtain ⟨lastTree, lastFailures⟩ := ih ((reportDirectory options found directory).run state).2
    have split : places = (options.locales.map fun locale => (directory, locale)) ++
        directories.flatMap fun directory =>
          options.locales.map fun locale => (directory, locale) := List.flatMap_cons
    rw [split, treeAfter_append, turnsFrom_append, List.flatMap_append, ← List.append_assoc,
      ← failures, ← tree]
    exact ⟨lastTree, lastFailures⟩

private theorem report_forM (directories : List String) (state : FileTree × Report) :
    let after := ((directories.forM (reportDirectory options found)).run state).2
    after.2.scanned = state.2.scanned ∧ after.2.issues = state.2.issues ∧
      after.2.directories =
        state.2.directories ++ directoryReports options found state.1 directories := by
  induction directories generalizing state with
  | nil => exact ⟨rfl, rfl, (List.append_nil _).symm⟩
  | cons directory directories ih =>
    obtain ⟨tree, -⟩ := run_reportDirectory options found directory state
    obtain ⟨scanned, issues, reports⟩ := report_reportDirectory options found directory state
    obtain ⟨restScanned, restIssues, restReports⟩ :=
      ih ((reportDirectory options found directory).run state).2
    refine ⟨restScanned.trans scanned, restIssues.trans issues, ?_⟩
    rw [directoryReports, List.append_cons, ← reports, ← tree]
    exact restReports

variable (files : List String) (tree : FileTree)

def turns : List Turn :=
  let found := outcomes tree options files
  turnsFrom options found tree (writes options found)

/-- The tree after an extraction is what is left when the catalogs have been written. -/
theorem tree_extract :
    ((extract options files).run tree).2 =
      treeAfter options (outcomes tree options files) tree
        (writes options (outcomes tree options files)) :=
  (run_forM options (outcomes tree options files) _
    (tree, searchReport options files (outcomes tree options files))).1

theorem failures_extract :
    ((extract options files).run tree).1.failures =
      (searchReport options files (outcomes tree options files)).failures ++
        (turns options files tree).flatMap (Turn.failures options (outcomes tree options files)) :=
  (run_forM options (outcomes tree options files) _
    (tree, searchReport options files (outcomes tree options files))).2

theorem report_extract :
    let found := outcomes tree options files
    let report := ((extract options files).run tree).1
    report.scanned = (searchReport options files found).scanned ∧
      report.issues = (searchReport options files found).issues ∧
        report.directories = directoryReports options found tree (directoriesOf found) :=
  report_forM options (outcomes tree options files) _
    (tree, searchReport options files (outcomes tree options files))

end Phrasebook.Extraction
