import Phrasebook.Proofs.Extraction.Kept
import Phrasebook.Proofs.Extraction.Lasting

/-!
Extractions that are repeated. Where the first one has not changed what its own paths lead to, the second
one finds the same, writes the same catalogs and leaves every file as it is.
-/

set_option autoImplicit false

namespace Phrasebook.Extraction

open Catalog (filePath stagingPath fileName stagingName)

variable {options : Options} {found : List Outcome}

private theorem length_turnsFrom (options : Options) (found : List Outcome) (tree : FileTree)
    (places : List (String × String)) :
    (turnsFrom options found tree places).length = places.length := by
  induction places generalizing tree with
  | nil => rfl
  | cons place places ih => rw [turnsFrom, List.length_cons, ih, List.length_cons]

private theorem writtenLocales_eq (turns : List Turn) :
    writtenLocales options found turns =
      ((turns.map (Turn.summary options found)).filter (·.2.2)).map (·.2.1) := by
  rw [List.filter_map, List.map_map]
  rfl

private theorem directoryReports_congr {tree other : FileTree} {directories : List String}
    (same : let places := directories.flatMap fun directory =>
        options.locales.map fun locale => (directory, locale)
      (turnsFrom options found tree places).map (Turn.summary options found) =
        (turnsFrom options found other places).map (Turn.summary options found)) :
    directoryReports options found tree directories =
      directoryReports options found other directories := by
  induction directories generalizing tree other with
  | nil => rfl
  | cons directory directories ih =>
    simp only [List.flatMap_cons, turnsFrom_append, List.map_append] at same
    obtain ⟨first, rest⟩ := List.append_inj same (by simp [length_turnsFrom])
    rw [directoryReports, directoryReports, ih rest, writtenLocales_eq, first, ← writtenLocales_eq]

/-- What is asked of an extraction that is to be repeated: that the files are of known locales and have
names of one line, that it leaves the script files as they are, that no link stands beside a catalog, and
that its turns stay settled in the end. -/
structure IsSettling (options : Options) (files : List String) (tree : FileTree) : Prop where
  known : ∀ locale ∈ options.locales, Locale.isRecognized locale = true
  lines : ∀ file ∈ files, '\n' ∉ ((Path.fileName? file).getD file).toList
  sources : ∀ file ∈ files, (treeAfterAll options files tree).readText file = tree.readText file
  unlinked : ∀ locale ∈ options.locales, tree.Unlinked (stagingName locale)
  settled : ∀ turn ∈ turns options files tree,
    (turn.fresh (outcomes tree options files)).isEmpty = false →
      turn.IsSettled options (outcomes tree options files) (treeAfterAll options files tree)

section Whole

variable {files : List String} {tree : FileTree}

private theorem outcomes_congr {other : FileTree}
    (same : ∀ file ∈ files, other.readText file = tree.readText file) :
    outcomes other options files = outcomes tree options files := by
  refine List.filterMap_congr fun file hf => ?_
  rw [scanFile, scanFile, same file hf]

private theorem IsSettling.steady (settling : IsSettling options files tree) :
    Steady options (outcomes tree options files) tree (writes options (outcomes tree options files))
      (treeAfterAll options files tree) := by
  refine ⟨fun place hp => ?_, fun place hp => ?_, ?_, fun place hp => ?_, settling.settled⟩
  · exact settling.known _ (mem_writes.mp hp).2
  · obtain ⟨file, -, routed⟩ := exists_file_of_mem_directoriesOf (mem_writes.mp hp).1
    exact outputDirectory_ne_empty routed
  · exact isFresh_freshCatalog fun outcome ho => settling.lines _ (mem_outcomes.mp ho).1
  · exact settling.unlinked _ (mem_writes.mp hp).2

private theorem retraces_refl (options : Options) (found : List Outcome) (tree : FileTree)
    (places : List (String × String)) (last : FileTree) :
    Retraces options found tree places last last :=
  ⟨.refl last, fun _ _ _ _ _ => rfl, fun _ => Or.inl rfl⟩

/-- An extraction that is repeated leaves every file as it is, and reports the same number of script
files, the same issues, and the same messages and catalogs for each directory. -/
theorem extract_extract (settling : IsSettling options files tree) :
    let first := (extract options files).run tree
    let second := (extract options files).run first.2
    second.2.place = first.2.place ∧ (∀ names, second.2.item? names = first.2.item? names) ∧
      second.1.scanned = first.1.scanned ∧ second.1.issues = first.1.issues ∧
        second.1.directories = first.1.directories := by
  intro first second
  have same : outcomes first.2 options files = outcomes tree options files :=
    outcomes_congr settling.sources
  have ends : treeAfter options (outcomes tree options files) tree
      (writes options (outcomes tree options files)) = first.2 :=
    (tree_extract options files tree).symm
  obtain ⟨place, items, summaries⟩ := (retraces_refl options (outcomes tree options files) tree
    (writes options (outcomes tree options files)) first.2).item?_treeAfter settling.steady ends
  have after : second.2 = treeAfter options (outcomes tree options files) first.2
      (writes options (outcomes tree options files)) := by
    rw [← same]
    exact tree_extract options files first.2
  obtain ⟨scanned, issues, directories⟩ := report_extract options files tree
  obtain ⟨scannedAgain, issuesAgain, directoriesAgain⟩ := report_extract options files first.2
  rw [same] at scannedAgain issuesAgain directoriesAgain
  refine ⟨after ▸ place, after ▸ items, scannedAgain.trans scanned.symm,
    issuesAgain.trans issues.symm, ?_⟩
  exact directoriesAgain.trans ((directoryReports_congr summaries).trans directories.symm)

theorem isSettling_of_result (known : ∀ locale ∈ options.locales, Locale.isRecognized locale = true)
    (lines : ∀ file ∈ files, '\n' ∉ ((Path.fileName? file).getD file).toList)
    (sources : ∀ file ∈ files, ∃ names content,
      tree.locate true file = .ok (.item names (.file content)) ∧
        ∀ locale ∈ options.locales, names.getLast? ≠ some (fileName locale) ∧
          names.getLast? ≠ some (stagingName locale))
    (plain : ∀ locale ∈ options.locales, tree.Plain locale)
    (vacant : ∀ locale ∈ options.locales, ∀ home,
      (treeAfterAll options files tree).item? (home ++ [stagingName locale]) ≠ some .directory)
    (succeeds : ∀ turn ∈ turns options files tree,
      (turn.fresh (outcomes tree options files)).isEmpty = false →
        (∃ count, turn.result options (outcomes tree options files) = .ok count) ∨
          turn.IsSettled options (outcomes tree options files) (treeAfterAll options files tree)) :
    IsSettling options files tree := by
  have after : treeAfterAll options files tree = treeAfter options (outcomes tree options files) tree
      (writes options (outcomes tree options files)) := tree_extract options files tree
  have run : Unhindered options tree (writes options (outcomes tree options files)) := by
    refine ⟨known, fun place hp => (mem_writes.mp hp).2, fun place hp => ?_, plain⟩
    obtain ⟨file, -, routed⟩ := exists_file_of_mem_directoriesOf (mem_writes.mp hp).1
    exact outputDirectory_ne_empty routed
  refine ⟨known, lines, fun file hf => ?_, fun locale hl => (plain locale hl).staging,
    fun turn ht filled => ?_⟩
  · obtain ⟨names, content, there, elsewhere⟩ := sources file hf
    rw [after]
    exact (run.lasts_treeAfter _).readText_eq there elsewhere
  · rcases succeeds turn ht filled with ⟨count, done⟩ | settled
    · obtain ⟨place, hp, -, same⟩ := exists_place_of_mem_turnsFrom ht
      have mine : turn.locale ∈ options.locales := same ▸ (mem_writes.mp hp).2
      rw [after] at vacant ⊢
      exact run.isSettled_of_result ht filled done (vacant turn.locale mine)
    · exact settled

end Whole

def mixedTree : FileTree where
  items := [(["a"], .directory), (["a", "x.ts"], .file (.text "_(\"A\");")),
    (["a", "locales"], .directory), (["a", "locales", "fr.po"], .file (.raw [255])),
    (["a", "locales", "de.po"], .file (.text "msgid \"A\"\nmsgstr \"B\"\n"))]

def mixedFiles : List String := ["a/x.ts"]

def mixedOptions : Options := { locales := ["fr", "de"] }

namespace Mixed

private theorem unlinked (name : String) : mixedTree.Unlinked name :=
  FileTree.unlinked_of_items (by simp [mixedTree]) name

private theorem writes_eq :
    writes mixedOptions (outcomes mixedTree mixedOptions mixedFiles) =
      [("a/locales", "fr"), ("a/locales", "de")] := by
  have routed : outputDirectory "a/x.ts" mixedOptions.directory = .ok "a/locales" := by rfl
  simp only [outcomes, mixedFiles, List.filterMap_cons, List.filterMap_nil, routed]
  rfl

private theorem performWrite_fr (found : List Outcome) :
    (performWrite mixedOptions found mixedTree ("a/locales", "fr")).2 = mixedTree ∧
      isWritten (performWrite mixedOptions found mixedTree ("a/locales", "fr")).1 = false := by
  have way : mixedTree.wayIn (filePath "a/locales" "fr") = .ok ["a", "locales"] :=
    FileTree.wayIn_of_descend (by decide) (by decide)
  have item : mixedTree.item? ["a", "locales", fileName "fr"] = some (.file (.raw [255])) := by
    decide
  have located : mixedTree.locate true (filePath "a/locales" "fr") =
      .ok (.item ["a", "locales", fileName "fr"] (.file (.raw [255]))) := by
    rw [FileTree.locate_eq_wayIn (Catalog.piecesOf_filePath (by decide) _)
      (Catalog.isName_fileName (by decide)) (unlinked _), way]
    simp [Except.map, FileTree.spotAt, item]
  have file : mixedTree.isFile (filePath "a/locales" "fr") = true :=
    FileTree.isFile_iff_locate.mpr ⟨_, _, located⟩
  rw [performWrite, perform_writeLocale, existingCatalog, file]
  simp only [mixedOptions, Bool.not_false, Bool.and_self, if_true, Catalog.load,
    FileTree.readText_of_locate_raw located]
  exact ⟨trivial, rfl⟩

private theorem ready : Ready mixedTree "a/locales" "de" ["a", "locales"] ["a", "locales"] := by
  refine ⟨⟨"a/locales", by decide, ?_⟩, ?_, ?_, fun item there => ?_, Or.inl (by decide)⟩
  · exact FileTree.isDirectory_of_descend (by decide)
      (by decide : _ = some ["a", "locales"])
  · exact FileTree.wayIn_of_descend (by decide) (by decide)
  · exact FileTree.wayIn_of_descend (by decide) (by decide)
  · have text : mixedTree.item? (["a", "locales"] ++ [fileName "de"]) =
        some (.file (.text "msgid \"A\"\nmsgstr \"B\"\n")) := by decide
    rw [text] at there
    exact ⟨_, (Option.some.inj there).symm⟩

private theorem after_cases :
    let after := treeAfterAll mixedOptions mixedFiles mixedTree
    after = mixedTree ∨ ∃ text,
      after = saved mixedTree ["a", "locales"] ["a", "locales"] "de" text := by
  intro after
  have all : after = _ := tree_extract mixedOptions mixedFiles mixedTree
  rw [writes_eq, treeAfter_cons, (performWrite_fr _).1, treeAfter_cons] at all
  rcases (performWrite_of_ready (by decide) ⟨unlinked _, unlinked _⟩ ready
    (rfl : mixedOptions.overwrite = false) (outcomes mixedTree mixedOptions mixedFiles)).2 with
    ⟨-, same⟩ | ⟨text, wrote⟩
  · rw [same] at all
    exact Or.inl all
  · rw [wrote] at all
    exact Or.inr ⟨text, all⟩

private theorem outline :
    FileTree.SameOutline (treeAfterAll mixedOptions mixedFiles mixedTree) mixedTree := by
  rcases after_cases with same | ⟨text, wrote⟩
  · rw [same]
    exact .refl mixedTree
  · rw [wrote]
    refine ⟨rfl, fun names => ?_⟩
    rw [item?_saved]
    split
    · rename_i here
      have old : mixedTree.item? (["a", "locales"] ++ [fileName "de"]) =
          some (.file (.text "msgid \"A\"\nmsgstr \"B\"\n")) := by decide
      rw [here, old]
      rfl
    · split
      · rename_i beside
        have free : mixedTree.item? (["a", "locales"] ++ [stagingName "de"]) = none := by decide
        rw [beside, free]
      · rfl

private theorem located : mixedTree.locate true "a/x.ts" =
    .ok (.item ["a", "x.ts"] (.file (.text "_(\"A\");"))) := by
  have last : (FileTree.piecesOf "a/x.ts").getLast? = some "x.ts" := by decide
  have proper : FileTree.IsName "x.ts" := ⟨by decide, by decide, by decide, by decide⟩
  have way : mixedTree.wayIn "a/x.ts" = .ok ["a"] :=
    FileTree.wayIn_of_descend (by decide) (by decide)
  have item : mixedTree.item? (["a"] ++ ["x.ts"]) = some (.file (.text "_(\"A\");")) := by decide
  rw [FileTree.locate_of_wayIn last proper way (by rw [item]; simp)]
  simp only [FileTree.spotAt, item]
  rfl

private theorem vacant {name : String} (other : name ≠ "a" ∧ name ≠ "locales") (home : Names) :
    (treeAfterAll mixedOptions mixedFiles mixedTree).item? (home ++ [name]) ≠ some .directory := by
  intro there
  have before : mixedTree.item? (home ++ [name]) = some .directory := by
    rcases after_cases with same | ⟨text, wrote⟩
    · rwa [same] at there
    · rw [wrote] at there
      exact item?_of_saved there (by simp)
  have named : (home ++ [name]).getLast? = some name := by simp
  simp only [FileTree.item?, mixedTree] at before
  split at before
  · rename_i root
    simp at root
  · obtain ⟨entry, found, directory⟩ := Option.map_eq_some_iff.mp before
    have member := List.mem_of_find?_eq_some found
    have same := List.find?_some found
    simp only [List.mem_cons, List.not_mem_nil, or_false, beq_iff_eq] at member same
    rw [← same] at named
    rcases member with rfl | rfl | rfl | rfl | rfl
    · exact other.1 (by simpa using named.symm)
    · cases directory
    · exact other.2 (by simpa using named.symm)
    · cases directory
    · cases directory

private theorem settling : IsSettling mixedOptions mixedFiles mixedTree := by
  have first := performWrite_fr (outcomes mixedTree mixedOptions mixedFiles)
  refine isSettling_of_result (by decide) (by decide) (fun file hf => ?_)
    (fun _ _ => ⟨unlinked _, unlinked _⟩) (fun locale hl home => ?_) fun turn ht _ => ?_
  · obtain rfl := List.mem_singleton.mp hf
    exact ⟨_, _, located, by decide⟩
  · refine vacant ?_ home
    rcases List.mem_pair.mp hl with rfl | rfl <;> exact ⟨by decide, by decide⟩
  rw [turns, writes_eq] at ht
  rcases List.mem_cons.mp ht with rfl | ht
  · refine Or.inr ⟨fun path _ followsLast => ?_, fun written => ?_⟩
    · rw [outline.leadsTo, Turn.after, first.1]
    · rw [Turn.result, first.2] at written
      cases written
  · obtain rfl := List.mem_singleton.mp ht
    refine Or.inl ?_
    rw [Turn.result, first.1]
    exact (performWrite_of_ready (by decide) ⟨unlinked _, unlinked _⟩ ready rfl _).1

end Mixed

theorem extract_extract_mixed :
    IsSettling mixedOptions mixedFiles mixedTree ∧
      let first := (extract mixedOptions mixedFiles).run mixedTree
      let second := (extract mixedOptions mixedFiles).run first.2
      second.2.place = first.2.place ∧ (∀ names, second.2.item? names = first.2.item? names) ∧
        second.1.scanned = first.1.scanned ∧ second.1.issues = first.1.issues ∧
          second.1.directories = first.1.directories :=
  ⟨Mixed.settling, extract_extract Mixed.settling⟩

/-! ### A script file that is reached over a catalog directory -/

def hollowTree : FileTree where
  items := [(["a"], .directory), (["a", "x.ts"], .file (.text "_(\"B\");")),
    (["a", "y.ts"], .file (.text "_(\"A\");"))]

def hollowFiles : List String := ["a/y.ts", "a/locales/../x.ts"]

def hollowOptions : Options := { locales := ["fr"] }

namespace Hollow

private theorem unlinked (name : String) : hollowTree.Unlinked name :=
  FileTree.unlinked_of_items (by simp [hollowTree]) name

private def scanOf (literal : String) : Script.Scan := ⟨[⟨literal, 1, [], false, false⟩], []⟩

private theorem proper {name : String} (h : name = "x.ts" ∨ name = "y.ts" ∨ name = "locales") :
    FileTree.IsName name := by
  rcases h with rfl | rfl | rfl <;> exact ⟨by decide, by decide, by decide, by decide⟩

private theorem scanFile_y : scanFile hollowTree {} "a/y.ts" = .ok (scanOf "A") := by
  have last : (FileTree.piecesOf "a/y.ts").getLast? = some "y.ts" := by decide
  have way : hollowTree.wayIn "a/y.ts" = .ok ["a"] :=
    FileTree.wayIn_of_descend (by decide) (by decide)
  have there : hollowTree.item? ["a", "y.ts"] = some (.file (.text "_(\"A\");")) := by decide
  exact scanFile_eq_ok last (proper (by simp)) (unlinked _) way there (by decide +kernel)

private theorem scanFile_x : scanFile hollowTree {} "a/locales/../x.ts" =
    .error (.unreadable "a/locales/../x.ts" .notFound) := by
  have pieces : FileTree.piecesOf "a/locales/../x.ts" = ["a", "locales", "..", "x.ts"] := by
    decide
  have nowhere : hollowTree.locate true "a/locales/../x.ts" = .error .notFound := by
    have sound : FileTree.pathFault? "a/locales/../x.ts" = none := by decide
    have named : FileTree.IsName "a" := ⟨by decide, by decide, by decide, by decide⟩
    rw [FileTree.locate_eq, sound, pieces]
    simp only
    rw [FileTree.walk_directory named _ (by decide),
      FileTree.walk_missing (proper (by simp)) (by simp) (by decide)]
  have read : hollowTree.readText "a/locales/../x.ts" = .error .notFound := by
    rw [FileTree.readText, FileTree.resolve, nowhere]
    rfl
  rw [scanFile, read]

private theorem outcomes_eq : outcomes hollowTree hollowOptions hollowFiles =
    [⟨"a/y.ts", "a/locales", .ok (scanOf "A")⟩,
      ⟨"a/locales/../x.ts", "a/locales/../locales",
        .error (.unreadable "a/locales/../x.ts" .notFound)⟩] := by
  have routedY : outputDirectory "a/y.ts" hollowOptions.directory = .ok "a/locales" := by rfl
  have routedX : outputDirectory "a/locales/../x.ts" hollowOptions.directory =
      .ok "a/locales/../locales" := by rfl
  simp only [outcomes, hollowFiles, List.filterMap_cons, List.filterMap_nil, routedX, routedY]
  rw [← scanFile_x, ← scanFile_y]
  rfl

private def made : FileTree := hollowTree.put ["a", "locales"] .directory

private theorem wayIn_eq : hollowTree.wayIn (filePath "a/locales" "fr") = .error .notFound := by
  have sound : FileTree.pathFault? (filePath "a/locales" "fr") = none := by decide
  have pieces : (FileTree.piecesOf (filePath "a/locales" "fr")).dropLast = ["a", "locales"] := by
    decide
  have named : FileTree.IsName "a" := ⟨by decide, by decide, by decide, by decide⟩
  rw [FileTree.wayIn, sound, pieces]
  simp only
  rw [FileTree.walk_directory named _ (by decide),
    FileTree.walk_free (proper (by simp)) (by decide)]
  rfl

private theorem perform_makeParent_eq :
    hollowTree.perform (Catalog.makeParent (filePath "a/locales" "fr")) = (.ok (), made) := by
  have last : (FileTree.piecesOf "a/locales").getLast? = some "locales" := by decide
  have way : hollowTree.wayIn "a/locales" = .ok ["a"] :=
    FileTree.wayIn_of_descend (by decide) (by decide)
  have free : hollowTree.item? ["a", "locales"] = none := by decide
  have located : hollowTree.locate false "a/locales" = .ok (.free ["a", "locales"]) := by
    rw [FileTree.locate_false_eq_wayIn _ last (proper (by simp)), way]
    simp [Except.map, FileTree.spotAt, free]
  have parent : Path.parent? (filePath "a/locales" "fr") = some "a/locales" := by decide
  have ancestors : Change.withAncestors "a/locales" = ["a/locales", "a", ""] := by decide
  rw [FileTree.perform_makeParent, parent]
  simp only [FileTree.perform_step, Change.makeDirectories, ancestors,
    FileTree.perform_makeFirst_cons, FileTree.perform_ensureDirectory,
    FileTree.perform_makeDirectory, located]
  rfl

private theorem ready : Ready made "a/locales" "fr" ["a", "locales"] ["a", "locales"] :=
  ready_of_descend (by decide) (by decide) (by decide) (by decide)
    (by decide)

private theorem unlinkedMade (name : String) : made.Unlinked name :=
  FileTree.unlinked_of_items (by simp [made, hollowTree, FileTree.put, FileTree.put.replaced]) name

private theorem performWrite_eq : ∃ text,
    (performWrite hollowOptions (outcomes hollowTree hollowOptions hollowFiles) hollowTree
      ("a/locales", "fr")).2 = saved made ["a", "locales"] ["a", "locales"] "fr" text := by
  have here : (⟨"a/y.ts", "a/locales", .ok (scanOf "A")⟩ : Outcome) ∈
      outcomes hollowTree hollowOptions hollowFiles := by simp [outcomes_eq]
  have full := isEmpty_of_mem_keys (mem_keys_freshCatalog here rfl (List.mem_singleton.mpr rfl)
    (by decide))
  have absent : hollowTree.isFile (filePath "a/locales" "fr") = false := by
    rw [← Bool.not_eq_true, FileTree.isFile_iff (Catalog.piecesOf_filePath (by decide) _)
      (Catalog.isName_fileName (by decide)) (unlinked _), wayIn_eq]
    simp
  obtain ⟨parent, inside, there⟩ := ready.parent
  have again := FileTree.perform_makeParent_of_isDirectory inside there
  have filled : ((Catalog.empty "fr").merge (freshCatalog "a/locales"
      (outcomes hollowTree hollowOptions hollowFiles))).isEmpty = false := by
    rw [Catalog.isEmpty_merge, full]
  rw [performWrite, tree_writeLocale, existingCatalog, absent]
  simp only [Bool.and_false, Bool.false_eq_true, if_false]
  rw [FileTree.perform_save_of_makeParent perform_makeParent_eq again filled,
    perform_save_of_ready (by decide) (unlinkedMade _) ready filled]
  exact ⟨_, rfl⟩

private theorem after_eq : ∃ text, ((extract hollowOptions hollowFiles).run hollowTree).2 =
    saved made ["a", "locales"] ["a", "locales"] "fr" text := by
  have places : writes hollowOptions (outcomes hollowTree hollowOptions hollowFiles) =
      [("a/locales", "fr"), ("a/locales/../locales", "fr")] := by
    rw [outcomes_eq]
    decide
  have empty : (freshCatalog "a/locales/../locales"
      (outcomes hollowTree hollowOptions hollowFiles)).isEmpty = true := by
    rw [outcomes_eq]
    decide
  obtain ⟨text, wrote⟩ := performWrite_eq
  refine ⟨text, ?_⟩
  rw [tree_extract, places, treeAfter_cons, treeAfter_cons, wrote]
  exact (performWrite_of_isEmpty empty _ _ _).2

private theorem scanFile_saved {file name literal content : String} (text : String)
    (last : (FileTree.piecesOf file).getLast? = some name) (named : name = "x.ts" ∨ name = "y.ts")
    (way : made.wayIn file = .ok ["a"]) (there : made.item? ["a", name] = some (.file (.text content)))
    (searched : Script.scan? file content {} = some (scanOf literal)) :
    scanFile (saved made ["a", "locales"] ["a", "locales"] "fr" text) {} file =
      .ok (scanOf literal) := by
  have links : (saved made ["a", "locales"] ["a", "locales"] "fr" text).Unlinked name :=
    fun names target linked => unlinkedMade name names target (item?_of_saved linked (by simp))
  have wayAfter := FileTree.wayIn_of_keeps (ready.keeps_saved text) way
  refine scanFile_eq_ok last (proper (or_assoc.mp (Or.inl named))) links wayAfter ?_ searched
  rcases named with rfl | rfl <;>
    rw [item?_saved, if_neg (by decide), if_neg (by decide)] <;> exact there

private theorem outcomes_saved (text : String) :
    outcomes (saved made ["a", "locales"] ["a", "locales"] "fr" text) hollowOptions hollowFiles =
      [⟨"a/y.ts", "a/locales", .ok (scanOf "A")⟩,
        ⟨"a/locales/../x.ts", "a/locales/../locales", .ok (scanOf "B")⟩] := by
  have itemY : made.item? ["a", "y.ts"] = some (.file (.text "_(\"A\");")) := by decide
  have itemX : made.item? ["a", "x.ts"] = some (.file (.text "_(\"B\");")) := by decide
  have wayY : made.wayIn "a/y.ts" = .ok ["a"] :=
    FileTree.wayIn_of_descend (by decide) (by decide)
  have wayX : made.wayIn "a/locales/../x.ts" = .ok ["a"] :=
    FileTree.wayIn_of_descend (by decide) (by decide)
  have y := scanFile_saved text (by decide) (Or.inr rfl) wayY itemY
    (by decide +kernel : _ = some (scanOf "A"))
  have x := scanFile_saved text (by decide) (Or.inl rfl) wayX itemX
    (by decide +kernel : _ = some (scanOf "B"))
  have routedY : outputDirectory "a/y.ts" hollowOptions.directory = .ok "a/locales" := by rfl
  have routedX : outputDirectory "a/locales/../x.ts" hollowOptions.directory =
      .ok "a/locales/../locales" := by rfl
  simp only [outcomes, hollowFiles, List.filterMap_cons, List.filterMap_nil, routedX, routedY]
  rw [← x, ← y]
  rfl

end Hollow

/-- A script file that is no catalog is found by the second of two extractions, and not by the first one,
which makes the directory that its path leads over. -/
theorem scanned_extract_hollow :
    (∀ locale ∈ hollowOptions.locales, Locale.isRecognized locale = true) ∧
      (∀ file ∈ hollowFiles, '\n' ∉ ((Path.fileName? file).getD file).toList) ∧
      (∀ entry ∈ hollowTree.items, ∀ target, entry.2 ≠ .link target) ∧
      (∀ file ∈ hollowFiles, ∀ locale ∈ hollowOptions.locales,
        Path.fileName? file ≠ some (fileName locale) ∧
          Path.fileName? file ≠ some (stagingName locale)) ∧
      let first := (extract hollowOptions hollowFiles).run hollowTree
      let second := (extract hollowOptions hollowFiles).run first.2
      first.1.scanned = 1 ∧ second.1.scanned = 2 := by
  refine ⟨by decide, by decide, by simp [hollowTree], by decide, ?_⟩
  dsimp only
  obtain ⟨text, after⟩ := Hollow.after_eq
  constructor
  · rw [(report_extract hollowOptions hollowFiles hollowTree).1, Hollow.outcomes_eq]
    rfl
  · rw [after, (report_extract hollowOptions hollowFiles _).1, Hollow.outcomes_saved]
    rfl

end Phrasebook.Extraction
