import Phrasebook.Proofs.Extraction.Ready
import Phrasebook.Proofs.Extraction.Routing

/-!
Extractions by many workers. The files of a directory reach its catalog in any order, and files may be
given in any order and more than once; the tree afterwards is the same.
-/

set_option autoImplicit false

namespace Phrasebook.Extraction

open Catalog (filePath stagingPath)

/-- The orders in which the files of each directory reach its catalog. -/
structure Schedule where
  order : String → List Outcome → List Outcome
  perm : ∀ directory found, (order directory found).Perm found

def Schedule.given : Schedule := ⟨fun _ found => found, fun _ found => List.Perm.refl found⟩

def Schedule.reversed : Schedule := ⟨fun _ found => found.reverse, fun _ => List.reverse_perm⟩

/-- Extracts the messages of script files, which reach the catalogs in the order of a schedule. -/
def extractBy (schedule : Schedule) (options : Options) (files : List String) :
    StateM FileTree Report := do
  let tree ← get
  let found := outcomes tree options files
  let writing := (directoriesOf found).forM fun directory =>
    reportDirectory options (schedule.order directory found) directory
  let (_, tree, report) := writing.run (tree, searchReport options files found)
  set tree
  return report

theorem extractBy_given (options : Options) (files : List String) :
    extractBy .given options files = extract options files := rfl

def treeAfterDirectory (options : Options) (found : List Outcome) (tree : FileTree)
    (directory : String) : FileTree :=
  treeAfter options found tree (options.locales.map fun locale => (directory, locale))

private theorem run_forM_schedule (schedule : Schedule) (options : Options) (found : List Outcome)
    (directories : List String) (state : FileTree × Report) :
    ((directories.forM fun directory =>
      reportDirectory options (schedule.order directory found) directory).run state).2.1 =
      directories.foldl (fun tree directory =>
        treeAfterDirectory options (schedule.order directory found) tree directory) state.1 := by
  induction directories generalizing state with
  | nil => rfl
  | cons directory directories ih =>
    have first := (run_reportDirectory options (schedule.order directory found) directory state).1
    rw [List.foldl_cons, treeAfterDirectory, ← first]
    exact ih _

theorem tree_extractBy (schedule : Schedule) (options : Options) (files : List String)
    (tree : FileTree) :
    ((extractBy schedule options files).run tree).2 =
      (directoriesOf (outcomes tree options files)).foldl (fun later directory =>
        treeAfterDirectory options (schedule.order directory (outcomes tree options files)) later
          directory) tree :=
  run_forM_schedule schedule options _ _
    (tree, searchReport options files (outcomes tree options files))

/-- The paths of the catalogs of a directory are short, and so are those of the files beside them. -/
def IsRegular (options : Options) (directory : String) : Prop :=
  ∀ locale ∈ options.locales, (filePath directory locale).utf8ByteSize < FileTree.pathLimit ∧
    (stagingPath (filePath directory locale)).utf8ByteSize < FileTree.pathLimit

def Spells (options : Options) (a b : String) : Prop :=
  a = b ∨ a ≠ "" ∧ Path.parts a = Path.parts b ∧ IsRegular options a ∧ IsRegular options b

theorem Spells.parts_eq {options : Options} {a b : String} (h : Spells options a b) :
    Path.parts a = Path.parts b := by
  rcases h with rfl | ⟨-, same, -⟩
  · rfl
  · exact same

section Congr

variable {options : Options} {a b : String} (spells : Spells options a b)
  {found others : List Outcome} (same : ∀ outcome, outcome ∈ found ↔ outcome ∈ others)

include spells same

theorem tree_performWrite_congr {locale : String} (member : locale ∈ options.locales)
    (tree : FileTree) :
    (performWrite options found tree (a, locale)).2 =
      (performWrite options others tree (b, locale)).2 := by
  have uses : ∀ use, use ∈ usesIn a found ↔ use ∈ usesIn b others := by
    intro use
    rw [mem_usesIn, mem_usesIn]
    simp only [same, spells.parts_eq]
  have messages := tree_writeLocale_congr (Catalog.render_merge_collect_congr uses)
    (Catalog.isEmpty_collect_congr uses) tree options.overwrite (filePath a locale) locale
  refine messages.trans ?_
  rcases spells with rfl | ⟨full, parts, regularA, regularB⟩
  · rfl
  · obtain ⟨shortA, shortBesideA⟩ := regularA locale member
    obtain ⟨shortB, shortBesideB⟩ := regularB locale member
    have alike := Catalog.alike_filePath parts full shortA shortB
    exact tree_writeLocale_of_alike alike (Catalog.alike_stagingPath alike shortBesideA shortBesideB)
      tree _

theorem treeAfterDirectory_congr (tree : FileTree) :
    treeAfterDirectory options found tree a = treeAfterDirectory options others tree b := by
  have each : ∀ locales : List String, (∀ locale ∈ locales, locale ∈ options.locales) →
      ∀ tree, treeAfter options found tree (locales.map fun locale => (a, locale)) =
        treeAfter options others tree (locales.map fun locale => (b, locale)) := by
    intro locales inside
    induction locales with
    | nil => exact fun _ => rfl
    | cons locale locales ih =>
      intro tree
      rw [List.map_cons, List.map_cons, treeAfter_cons, treeAfter_cons,
        tree_performWrite_congr spells same (inside locale (by simp))]
      exact ih (fun other ho => inside other (by simp [ho])) _
  exact each options.locales (fun _ h => h) tree

end Congr

/-- Directories of script files that have the same parts are spelled in one way, or are regular. -/
def AreSpelled (options : Options) (files : List String) : Prop :=
  ∀ file ∈ files, ∀ other ∈ files, ∀ a b, outputDirectory file options.directory = .ok a →
    outputDirectory other options.directory = .ok b → Path.parts a = Path.parts b →
      a = b ∨ IsRegular options a ∧ IsRegular options b

theorem foldl_congr_of_forall₂ {α β : Type} {related : α → α → Prop} {as bs : List α}
    {f g : β → α → β} (h : List.Forall₂ related as bs)
    (step : ∀ a ∈ as, ∀ b ∈ bs, related a b → ∀ state, f state a = g state b) (state : β) :
    as.foldl f state = bs.foldl g state := by
  induction h generalizing state with
  | nil => rfl
  | cons first _ ih =>
    rw [List.foldl_cons, List.foldl_cons, step _ (by simp) _ (by simp) first]
    exact ih (fun a ha b hb => step a (by simp [ha]) b (by simp [hb])) _

theorem forall₂_of_map_rank_eq {as bs : List String}
    (ranks : as.map Path.rank = bs.map Path.rank) :
    List.Forall₂ (fun a b => Path.rank a = Path.rank b) as bs := by
  rw [← List.forall₂_eq_eq_eq, List.forall₂_map_left_iff, List.forall₂_map_right_iff] at ranks
  exact ranks

theorem AreSpelled.spells {options : Options} {files : List String}
    (spelled : AreSpelled options files) {file other a b : String} (hf : file ∈ files)
    (ho : other ∈ files) (routedA : outputDirectory file options.directory = .ok a)
    (routedB : outputDirectory other options.directory = .ok b)
    (parts : Path.parts a = Path.parts b) : Spells options a b := by
  rcases spelled file hf other ho a b routedA routedB parts with rfl | regular
  · exact Or.inl rfl
  · exact Or.inr ⟨outputDirectory_ne_empty routedA, parts, regular⟩

/-- The tree after an extraction depends neither on the schedule nor on the order and the number of the
script files. -/
theorem tree_extractBy_congr (schedule another : Schedule) {options : Options}
    {files others : List String} (same : ∀ file, file ∈ files ↔ file ∈ others)
    (spelled : AreSpelled options files) (tree : FileTree) :
    ((extractBy schedule options files).run tree).2 =
      ((extractBy another options others).run tree).2 := by
  have found : ∀ outcome, outcome ∈ outcomes tree options files ↔
      outcome ∈ outcomes tree options others := by
    intro outcome
    rw [mem_outcomes, mem_outcomes, same]
  have aligned := forall₂_of_map_rank_eq (rank_directoriesOf_congr found)
  rw [tree_extractBy, tree_extractBy]
  refine foldl_congr_of_forall₂ aligned (fun a ha b hb equal later => ?_) tree
  have parts := Path.rank_eq_iff.mp equal
  obtain ⟨file, hf, routedA⟩ := exists_file_of_mem_directoriesOf ha
  obtain ⟨other, ho, routedB⟩ := exists_file_of_mem_directoriesOf hb
  have spells := spelled.spells hf ((same other).mpr ho) routedA routedB parts
  refine treeAfterDirectory_congr spells (fun outcome => ?_) later
  rw [(schedule.perm a _).mem_iff, (another.perm b _).mem_iff, found]

/-- What is extracted does not depend on scheduling. Uses in any order and number give one text, also
when they are merged into a catalog; so do script files. -/
theorem extraction_of_schedule :
    (∀ uses others : List Catalog.Use, (∀ use, use ∈ uses ↔ use ∈ others) →
      (Catalog.collect uses).render = (Catalog.collect others).render ∧
        ∀ existing : Catalog, (existing.merge (Catalog.collect uses)).render =
          (existing.merge (Catalog.collect others)).render) ∧
      ∀ (schedule another : Schedule) (options : Options) (files others : List String),
        (∀ file, file ∈ files ↔ file ∈ others) → AreSpelled options files → ∀ tree : FileTree,
          ((extractBy schedule options files).run tree).2 =
            ((extractBy another options others).run tree).2 := by
  refine ⟨fun uses others same => ⟨?_, fun existing => ?_⟩, ?_⟩
  · exact Catalog.render_collect_congr same
  · exact Catalog.render_merge_collect_congr same existing
  · intro schedule another options files others same spelled tree
    exact tree_extractBy_congr schedule another same spelled tree

/-! ### Two spellings of one directory -/

def slashed : Nat → String
  | 0 => "a"
  | count + 1 => slashed count ++ "/"

def nested (count : Nat) : String := slashed count ++ "/" ++ "b"

def nestedTree : FileTree where
  items := [(["a"], .directory), (["a", "b"], .directory),
    (["a", "b", "x.ts"], .file (.text "_(\"A\");")), (["a", "b", "locales"], .directory)]

def nestedOptions : Options := { locales := ["fr"] }

theorem extraction_of_schedule_of_nested :
    let uses : List Catalog.Use :=
      [⟨"A", ["spoken"], ⟨"x.ts", 1⟩, false, false⟩, ⟨"A", [], ⟨"y.ts", 2⟩, true, false⟩]
    let existing := Catalog.parse "msgid \"A\"\nmsgstr \"Un\"\n" "fr"
    let files := ["a/b/x.ts", "a//b/x.ts"]
    (Catalog.collect uses).render = (Catalog.collect (uses.reverse ++ uses)).render ∧
      (existing.merge (Catalog.collect uses)).render =
        (existing.merge (Catalog.collect (uses.reverse ++ uses))).render ∧
      ((extractBy .reversed nestedOptions files).run nestedTree).2 =
        ((extractBy .given nestedOptions (files.reverse ++ files)).run nestedTree).2 := by
  intro uses existing files
  have again : ∀ use, use ∈ uses ↔ use ∈ uses.reverse ++ uses := by simp
  have spelled : AreSpelled nestedOptions files := by
    intro file hf other ho a b routedA routedB _
    have regular : ∀ file ∈ files, ∀ directory,
        outputDirectory file nestedOptions.directory = .ok directory →
          IsRegular nestedOptions directory := by
      intro file hf directory routed
      simp only [files, List.mem_cons, List.not_mem_nil, or_false] at hf
      rcases hf with rfl | rfl
      · obtain rfl : "a/b/locales" = directory := Except.ok.inj routed
        unfold IsRegular
        decide
      · obtain rfl : "a//b/locales" = directory := Except.ok.inj routed
        unfold IsRegular
        decide
    exact Or.inr ⟨regular file hf a routedA, regular other ho b routedB⟩
  refine ⟨(extraction_of_schedule.1 uses _ again).1, (extraction_of_schedule.1 uses _ again).2 existing,
    extraction_of_schedule.2 .reversed .given nestedOptions files _ ?_ spelled nestedTree⟩
  simp

namespace Nested

private theorem slashed_ne_empty (count : Nat) : slashed count ≠ "" := by
  cases count with
  | zero => decide
  | succ count => simp [slashed]

private theorem parts_slashed (count : Nat) : Path.parts (slashed count) = [.name "a"] := by
  induction count with
  | zero => decide
  | succ count ih => rw [slashed, Path.parts_append_slash (slashed_ne_empty count), ih]

private theorem utf8ByteSize_slashed (count : Nat) : (slashed count).utf8ByteSize = count + 1 := by
  induction count with
  | zero => rfl
  | succ count ih =>
    rw [slashed, String.utf8ByteSize_append, ih]
    rfl

private theorem nested_ne_empty (count : Nat) : nested count ≠ "" := by simp [nested]

private theorem isName_b : FileTree.IsName "b" := ⟨by decide, by decide, by decide, by decide⟩

private theorem parts_inside (count : Nat) {name : String} (proper : FileTree.IsName name)
    (inside : '/' ∉ name.toList) :
    Path.parts (nested count ++ "/" ++ name) = [.name "a", .name "b", .name name] := by
  rw [Path.parts_append proper inside (nested_ne_empty count), nested,
    Path.parts_append isName_b (by decide) (slashed_ne_empty count), parts_slashed]
  rfl

private theorem parent?_inside (count : Nat) {name : String} (proper : FileTree.IsName name)
    (inside : '/' ∉ name.toList) :
    Path.parent? (nested count ++ "/" ++ name) = some (nested count) :=
  Path.parent?_append (FileTree.getLast?_piecesOf_append (by decide) _) (by decide) proper inside

private theorem isName_x : FileTree.IsName "x.ts" := ⟨by decide, by decide, by decide, by decide⟩

private theorem isName_locales : FileTree.IsName "locales" :=
  ⟨by decide, by decide, by decide, by decide⟩

private theorem outputDirectory_eq (count : Nat) :
    outputDirectory (nested count ++ "/" ++ "x.ts") "locales" =
      .ok (nested count ++ "/" ++ "locales") := by
  have full : (nested count).isEmpty = false := by simpa using nested_ne_empty count
  have joined : Path.join (nested count) "locales" = nested count ++ "/" ++ "locales" :=
    Path.join_append isName_b (by decide) (by decide) _
  unfold outputDirectory
  rw [if_neg (by decide), parent?_inside count isName_x (by decide)]
  simp only [full, Bool.false_eq_true, if_false, joined]

private theorem pathFault?_eq {count : Nat} (many : 4085 ≤ count) :
    FileTree.pathFault? (nested count ++ "/" ++ "locales") = some .nameTooLong := by
  have long : (nested count ++ "/" ++ "locales").utf8ByteSize ≥ FileTree.pathLimit := by
    have rest : ("/" : String).utf8ByteSize = 1 ∧ ("b" : String).utf8ByteSize = 1 ∧
        ("locales" : String).utf8ByteSize = 7 := by decide
    rw [nested]
    simp only [String.utf8ByteSize_append, utf8ByteSize_slashed, rest, FileTree.pathLimit]
    omega
  unfold FileTree.pathFault?
  rw [Path.contains_eq (by decide) (by decide), parts_inside count isName_locales (by decide),
    if_neg (by decide), if_neg (by simp), if_pos long]

private theorem filePath_eq (count : Nat) :
    filePath (nested count ++ "/" ++ "locales") "fr" =
      nested count ++ "/" ++ "locales" ++ "/" ++ "fr.po" :=
  Path.join_append isName_locales (by decide) (by decide) _

private theorem writes_eq (first second : Nat) :
    writes nestedOptions (outcomes nestedTree nestedOptions
      [nested first ++ "/" ++ "x.ts", nested second ++ "/" ++ "x.ts"]) =
        [(nested first ++ "/" ++ "locales", "fr")] := by
  have same : Path.same (nested second ++ "/" ++ "locales") (nested first ++ "/" ++ "locales") =
      true := by
    rw [Path.same_iff, parts_inside second isName_locales (by decide),
      parts_inside first isName_locales (by decide)]
  have routed : ∀ count, outputDirectory (nested count ++ "/" ++ "x.ts") nestedOptions.directory =
      .ok (nested count ++ "/" ++ "locales") := outputDirectory_eq
  have directories : directoriesOf (outcomes nestedTree nestedOptions
      [nested first ++ "/" ++ "x.ts", nested second ++ "/" ++ "x.ts"]) =
        [nested first ++ "/" ++ "locales"] := by
    simp only [outcomes, List.filterMap_cons, List.filterMap_nil, routed, directoriesOf,
      List.foldl_cons, List.foldl_nil, Path.insert, same, if_true]
  rw [writes, directories]
  rfl

private theorem tree_of_long {first : Nat} (many : 4085 ≤ first) (second : Nat) :
    ((extract nestedOptions
      [nested first ++ "/" ++ "x.ts", nested second ++ "/" ++ "x.ts"]).run nestedTree).2 =
        nestedTree := by
  have parent : Path.parent? (filePath (nested first ++ "/" ++ "locales") "fr") =
      some (nested first ++ "/" ++ "locales") := by
    rw [filePath_eq]
    exact Path.parent?_append (FileTree.getLast?_piecesOf_append (by decide) _) (by decide)
      ⟨by decide, by decide, by decide, by decide⟩ (by decide)
  have unmade : nestedTree.perform
      (Catalog.makeParent (filePath (nested first ++ "/" ++ "locales") "fr")) =
        (.error (.noDirectory (nested first ++ "/" ++ "locales") .nameTooLong), nestedTree) := by
    rw [FileTree.perform_makeParent, parent]
    simp only [FileTree.perform_step, FileTree.perform_makeDirectories_of_fault (pathFault?_eq many)
      (by decide) (by simp)]
    rfl
  rw [tree_extract, writes_eq, treeAfter_cons, performWrite,
    tree_writeLocale_of_error unmade]
  rfl

private theorem unlinked (name : String) : nestedTree.Unlinked name :=
  FileTree.unlinked_of_items (by simp [nestedTree]) name

private theorem ready : Ready nestedTree (nested 0 ++ "/" ++ "locales") "fr" ["a", "b", "locales"]
    ["a", "b", "locales"] :=
  ready_of_descend (by decide) (by decide) (by decide) (by decide)
    (by decide)

private theorem scanFile_eq : scanFile nestedTree {} (nested 0 ++ "/" ++ "x.ts") =
    .ok ⟨[⟨"A", 1, [], false, false⟩], []⟩ := by
  have last : (FileTree.piecesOf (nested 0 ++ "/" ++ "x.ts")).getLast? = some "x.ts" :=
    FileTree.getLast?_piecesOf_append (by decide) _
  have way : nestedTree.wayIn (nested 0 ++ "/" ++ "x.ts") = .ok ["a", "b"] :=
    FileTree.wayIn_of_descend (by decide) (by decide)
  have there : nestedTree.item? ["a", "b", "x.ts"] = some (.file (.text "_(\"A\");")) := by decide
  exact scanFile_eq_ok last isName_x (unlinked _) way there (by decide +kernel)

private theorem item?_of_short (second : Nat) :
    ((extract nestedOptions [nested 0 ++ "/" ++ "x.ts", nested second ++ "/" ++ "x.ts"]).run
      nestedTree).2.item? ["a", "b", "locales", "fr.po"] ≠ none := by
  have here : (⟨nested 0 ++ "/" ++ "x.ts", nested 0 ++ "/" ++ "locales",
      .ok ⟨[⟨"A", 1, [], false, false⟩], []⟩⟩ : Outcome) ∈ outcomes nestedTree nestedOptions
        [nested 0 ++ "/" ++ "x.ts", nested second ++ "/" ++ "x.ts"] :=
    mem_outcomes.mpr ⟨by simp, outputDirectory_eq 0, scanFile_eq⟩
  have found := isEmpty_of_mem_keys (mem_keys_freshCatalog here rfl (List.mem_singleton.mpr rfl)
    (by decide))
  have done := performWrite_of_ready (by decide) ⟨unlinked _, unlinked _⟩ ready
    (show nestedOptions.overwrite = false from rfl)
    (outcomes nestedTree nestedOptions
      [nested 0 ++ "/" ++ "x.ts", nested second ++ "/" ++ "x.ts"])
  rw [tree_extract, writes_eq, treeAfter_cons]
  rcases done.2 with ⟨empty, -⟩ | ⟨text, wrote⟩
  · rw [found] at empty
    cases empty
  · rw [wrote]
    change (saved nestedTree ["a", "b", "locales"] ["a", "b", "locales"] "fr" text).item? _ ≠ none
    rw [item?_saved, if_pos (by decide)]
    simp

end Nested

/-- One order of two spellings of a script file loses the catalog that the other one writes. -/
theorem tree_extract_of_spellings :
    (∀ locale ∈ nestedOptions.locales, Locale.isRecognized locale = true) ∧
      (∀ file, file ∈ [nested 4087 ++ "/" ++ "x.ts", nested 0 ++ "/" ++ "x.ts"] ↔
        file ∈ [nested 0 ++ "/" ++ "x.ts", nested 4087 ++ "/" ++ "x.ts"]) ∧
      ((extract nestedOptions [nested 4087 ++ "/" ++ "x.ts", nested 0 ++ "/" ++ "x.ts"]).run
        nestedTree).2.item? ["a", "b", "locales", "fr.po"] = none ∧
      ((extract nestedOptions [nested 0 ++ "/" ++ "x.ts", nested 4087 ++ "/" ++ "x.ts"]).run
        nestedTree).2.item? ["a", "b", "locales", "fr.po"] ≠ none := by
  refine ⟨by decide, ?_, ?_, Nested.item?_of_short 4087⟩
  · intro file
    rw [List.mem_pair, List.mem_pair, or_comm]
  · rw [Nested.tree_of_long (by decide)]
    decide

end Phrasebook.Extraction
