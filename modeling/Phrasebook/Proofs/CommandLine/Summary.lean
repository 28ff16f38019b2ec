import Phrasebook.CommandLine.Summary
import Phrasebook.Proofs.Extraction.Accounts
import Phrasebook.Proofs.Extraction.Ready

/-!
What the summary of a run shows. A directory is shown as one without messages if none of its catalogs was
written, so also where there are messages and every catalog has failed.
-/

set_option autoImplicit false

namespace Phrasebook

namespace CommandLine

open Extraction (DirectoryReport Failure Options Report Turn extract outcomes turns writtenLocales)

private theorem not_mem_toDigits {c : Char} (other : c.isDigit = false) (n : Nat) :
    c ∉ Nat.toDigits 10 n := by
  intro member
  rw [Nat.isDigit_of_mem_toDigits (by decide) (by decide) member] at other
  cases other

private theorem not_mem_counted {c : Char} (other : c.isDigit = false) {one many : String}
    (words : c ∉ (" " ++ one ++ many).toList) (n : Nat) : c ∉ (counted n one many).toList := by
  have digits := not_mem_toDigits other
  rw [counted]
  split <;> simp_all [String.toList_append]

theorem writtenText_eq_iff {report : DirectoryReport} :
    writtenText report = "no messages, nothing written" ↔ report.written = [] := by
  constructor
  · intro nothing
    by_contra written
    -- A text about messages begins with their number.
    obtain ⟨digit, rest, split⟩ := List.exists_cons_of_ne_nil
      (Nat.toDigits_ne_nil (n := report.entries) (b := 10))
    have first := congrArg (fun text : String => text.toList.head?) nothing
    simp [writtenText, written, counted, String.toList_append, split] at first
    refine not_mem_toDigits (by decide : 'n'.isDigit = false) report.entries ?_
    rw [split, first]
    exact List.mem_cons_self
  · intro written
    rw [writtenText, written]
    rfl

private theorem exists_totalLine_eq_mark (colored : Bool) (report : Report) :
    ∃ line, totalLine colored report = line ++ "\n" ∧
      ∀ c, c.isDigit = false → c ∉ ", Scanned source files calls skipped failed".toList →
        (c ∈ line.toList ↔ c ∈ (totalMark colored report).toList) := by
  refine ⟨_, rfl, fun c other letters => ?_⟩
  have files : c ∉ (counted report.scanned "source file" "source files").toList :=
    not_mem_counted other (by simp_all) _
  have calls : c ∉ (counted report.issues.length "call" "calls").toList :=
    not_mem_counted other (by simp_all) _
  have failures : c ∉ (counted report.failures.length "file" "files").toList :=
    not_mem_counted other (by simp_all) _
  simp only [String.toList_append, List.mem_append, files, or_false]
  split <;> split <;> simp_all

/-- The last line of a summary has the mark of success exactly if nothing has failed. -/
theorem exists_totalLine_eq (colored : Bool) (report : Report) :
    ∃ line, totalLine colored report = line ++ "\n" ∧ '\n' ∉ line.toList ∧
      ('✓' ∈ line.toList ↔ report.failures = []) := by
  obtain ⟨line, whole, same⟩ := exists_totalLine_eq_mark colored report
  refine ⟨line, whole, ?_, ?_⟩
  · rw [same '\n' (by decide) (by decide), totalMark]
    cases colored <;> split <;> decide
  · rw [same '✓' (by decide) (by decide), totalMark, Report.hasFailures]
    cases failed : report.failures with
    | nil => cases colored <;> simp <;> decide
    | cons first rest => cases colored <;> simp <;> decide

section Directories

variable {options : Options} {files : List String} {tree : FileTree}

def turnsIn (options : Options) (files : List String) (tree : FileTree) (directory : String) :
    List Turn :=
  (turns options files tree).filter (·.directory == directory)

def IsFoundFor (options : Options) (files : List String) (tree : FileTree) (directory key : String) :
    Prop :=
  ∃ outcome ∈ outcomes tree options files, ∃ scan, outcome.result = .ok scan ∧
    Path.parts outcome.directory = Path.parts directory ∧
      ∃ message ∈ scan.messages, message.literal = key

def Fails (options : Options) (files : List String) (tree : FileTree) (turn : Turn) : Prop :=
  ∃ error, turn.result options (outcomes tree options files) = .error error ∧
    ⟨turn.path, .catalog error⟩ ∈ ((extract options files).run tree).1.failures

theorem fails_of_result {turn : Turn} (member : turn ∈ turns options files tree)
    {error : Catalog.FileError}
    (failed : turn.result options (outcomes tree options files) = .error error) :
    Fails options files tree turn := by
  refine ⟨error, failed, ?_⟩
  rw [Extraction.failures_extract, List.mem_append, List.mem_flatMap]
  refine Or.inr ⟨turn, member, ?_⟩
  rw [Turn.failures, failed]
  exact List.mem_singleton.mpr rfl

variable {report : DirectoryReport}

theorem exists_keys_of_mem (member : report ∈ ((extract options files).run tree).1.directories) :
    ∃ keys : List String, keys.Nodup ∧ keys.length = report.entries ∧
      ∀ key, key ∈ keys ↔ IsFoundFor options files tree report.directory key := by
  obtain ⟨-, entries, -⟩ := Extraction.of_mem_directories member
  refine ⟨(Extraction.freshCatalog report.directory (outcomes tree options files)).keys,
    (Catalog.isSound_collect _).distinct, ?_, fun key => ?_⟩
  · rw [entries, Catalog.keys, List.length_map, Catalog.size]
  · rw [Extraction.freshCatalog_eq, Catalog.mem_keys_collect, List.mem_map]
    constructor
    · rintro ⟨-, use, used, rfl⟩
      obtain ⟨outcome, inside, scan, searched, here, message, held, rfl⟩ :=
        Extraction.mem_usesIn.mp used
      exact ⟨outcome, inside, scan, searched, here, message, held, rfl⟩
    · rintro ⟨outcome, inside, scan, searched, here, message, held, rfl⟩
      have ran := (Extraction.mem_outcomes.mp inside).2.2
      rw [searched] at ran
      exact ⟨Extraction.literal_ne_empty_of_scanFile ran held, Extraction.useOf outcome.file message,
        Extraction.mem_usesIn.mpr ⟨outcome, inside, scan, searched, here, message, held, rfl⟩, rfl⟩

/-- No catalog of a directory was written exactly if there are no messages or every turn there fails. -/
theorem written_eq_nil_iff (member : report ∈ ((extract options files).run tree).1.directories) :
    report.written = [] ↔ report.entries = 0 ∨
      ∀ turn ∈ turnsIn options files tree report.directory, Fails options files tree turn := by
  obtain ⟨-, entries, written⟩ := Extraction.of_mem_directories member
  have here : ∀ turn ∈ turnsIn options files tree report.directory,
      turn ∈ turns options files tree ∧ turn.directory = report.directory := fun turn ht =>
    ⟨(List.mem_filter.mp ht).1, beq_iff_eq.mp (List.mem_filter.mp ht).2⟩
  have none : report.written = [] ↔ ∀ turn ∈ turnsIn options files tree report.directory,
      Extraction.isWritten (turn.result options (outcomes tree options files)) = false := by
    rw [written, writtenLocales, List.map_eq_nil_iff, List.filter_eq_nil_iff]
    simp only [Bool.not_eq_true]
    rfl
  rw [none, entries, Catalog.size, List.length_eq_zero_iff]
  by_cases empty : (Extraction.freshCatalog report.directory (outcomes tree options files)).entries = []
  · refine iff_of_true (fun turn ht => ?_) (Or.inl empty)
    refine (Extraction.performWrite_of_isEmpty ?_ options turn.tree turn.locale).1
    rw [(here turn ht).2, Catalog.isEmpty, empty, List.isEmpty_nil]
  · simp only [empty, false_or]
    refine forall₂_congr fun turn ht => ⟨fun unwritten => ?_, fun fails => ?_⟩
    · cases done : turn.result options (outcomes tree options files) with
      | error error => exact fails_of_result (here turn ht).1 done
      | ok count =>
        have full : (Extraction.freshCatalog turn.directory (outcomes tree options files)).isEmpty =
            false := by
          rw [(here turn ht).2, Catalog.isEmpty]
          simpa using empty
        rw [Extraction.isWritten_of_ok full done] at unwritten
        cases unwritten
    · obtain ⟨error, failed, -⟩ := fails
      rw [failed]
      rfl

/-- What is shown of a directory, and what it tells of the run. -/
structure Shows (options : Options) (files : List String) (tree : FileTree) (report : DirectoryReport) :
    Prop where
  keys : ∃ keys : List String, keys.Nodup ∧ keys.length = report.entries ∧
    ∀ key, key ∈ keys ↔ IsFoundFor options files tree report.directory key
  locales : (turnsIn options files tree report.directory).map Turn.locale = options.locales
  written : report.written = writtenLocales options (outcomes tree options files)
    (turnsIn options files tree report.directory)
  /-- The directory is shown as one without messages exactly if it has none or all its catalogs fail. -/
  nothing : writtenText report = "no messages, nothing written" ↔ report.entries = 0 ∨
    ∀ turn ∈ turnsIn options files tree report.directory, Fails options files tree turn
  something : writtenText report ≠ "no messages, nothing written" → writtenText report =
    counted report.entries "message" "messages" ++ " written to " ++
      counted report.written.length "catalog" "catalogs" ++
        " (" ++ String.intercalate ", " report.written ++ ")"
  sound : ((extract options files).run tree).1.failures = [] →
    (writtenText report = "no messages, nothing written" ↔ report.entries = 0)

theorem shows_of_mem (targets : options.locales ≠ [])
    (member : report ∈ ((extract options files).run tree).1.directories) :
    Shows options files tree report := by
  obtain ⟨locales, -, written⟩ := Extraction.of_mem_directories member
  have nothing := writtenText_eq_iff.trans (written_eq_nil_iff member)
  refine ⟨exists_keys_of_mem member, locales, written, nothing, fun other => ?_, fun sound => ?_⟩
  · have full := mt writtenText_eq_iff.mpr other
    rw [writtenText, if_neg (by simpa using full)]
  · rw [nothing]
    refine or_iff_left fun fails => ?_
    have full : turnsIn options files tree report.directory ≠ [] := by
      intro none
      have taken : (turnsIn options files tree report.directory).map Turn.locale = options.locales :=
        locales
      rw [none] at taken
      exact targets taken.symm
    obtain ⟨turn, first⟩ := List.exists_mem_of_ne_nil _ full
    obtain ⟨error, -, reported⟩ := fails turn first
    rw [sound] at reported
    cases reported

end Directories

theorem scanned_eq_zero_iff (options : Options) (files : List String) (tree : FileTree) :
    ((extract options files).run tree).1.scanned = 0 ∧
      ((extract options files).run tree).1.failures = [] ↔ files = [] := by
  rw [(Extraction.report_extract options files tree).1, Extraction.scanned_searchReport,
    Extraction.failures_extract, List.append_eq_nil_iff]
  have failed := Extraction.failures_searchReport tree options files
  constructor
  · rintro ⟨none, searched, -⟩
    rw [searched, List.map_nil] at failed
    have all := List.filter_eq_nil_iff.mp (List.nil_perm.mp failed)
    have some_ := List.filter_eq_nil_iff.mp (List.length_eq_zero_iff.mp none)
    refine List.eq_nil_iff_forall_not_mem.mpr fun file inside => ?_
    have unsearched := some_ file inside
    have searchedToo := all file inside
    simp [unsearched] at searchedToo
  · rintro rfl
    exact ⟨rfl, rfl, rfl⟩

/-- The summary of a run has a line for each directory and one for the total, which has the mark of success
exactly if nothing has failed; without script files it says just that. A directory with messages is shown as
such unless all its catalogs fail. -/
theorem summary_extract {options : Options} (targets : options.locales ≠ []) (files : List String)
    (tree : FileTree) (colored : Bool) :
    let report := ((extract options files).run tree).1
    (files = [] →
      summary colored report = Style.yellow.paint colored "No source files found" ++ "\n") ∧
    (files ≠ [] → ∃ line,
      summary colored report = String.join (report.directories.map fun shown =>
        Style.green.paint colored "✓" ++ " " ++ Style.bold.paint colored shown.directory ++ ": " ++
          writtenText shown ++ "\n") ++ line ++ "\n" ∧
      '\n' ∉ line.toList ∧ ('✓' ∈ line.toList ↔ report.failures = [])) ∧
    report.directories.map DirectoryReport.directory =
      Extraction.directoriesOf (outcomes tree options files) ∧
    ∀ shown ∈ report.directories, Shows options files tree shown := by
  intro report
  have bare : report.scanned = 0 ∧ (!report.hasFailures) = true ↔ files = [] := by
    rw [← scanned_eq_zero_iff options files tree, Report.hasFailures]
    simp [report]
  refine ⟨fun none => ?_, fun full => ?_, ?_, fun shown member => shows_of_mem targets member⟩
  · rw [summary, if_pos (bare.mpr none)]
  · obtain ⟨line, whole, single, mark⟩ := exists_totalLine_eq colored report
    refine ⟨line, ?_, single, mark⟩
    rw [summary, if_neg (mt bare.mp full), whole, String.append_assoc]
    rfl
  · rw [(Extraction.report_extract options files tree).2.2, Extraction.directories_directoryReports]

def stockedTree : FileTree where
  items := [(["a"], .directory), (["a", "x.ts"], .file (.text "_(\"A\");")),
    (["a", "locales"], .directory)]

def frenchOptions : Options := { locales := ["fr"] }

namespace Stocked

private def scanned : Script.Scan := ⟨[⟨"A", 1, [], false, false⟩], []⟩

private structure HoldsScript (tree : FileTree) : Prop where
  unlinked : tree.Unlinked "x.ts"
  way : tree.wayIn "a/x.ts" = .ok ["a"]
  there : tree.item? ["a", "x.ts"] = some (.file (.text "_(\"A\");"))

section Tree

variable {tree : FileTree} (holds : HoldsScript tree)

include holds

private theorem outcomes_eq : outcomes tree frenchOptions ["a/x.ts"] =
    [⟨"a/x.ts", "a/locales", .ok scanned⟩] := by
  have routed : Extraction.outputDirectory "a/x.ts" frenchOptions.directory = .ok "a/locales" := by rfl
  have last : (FileTree.piecesOf "a/x.ts").getLast? = some "x.ts" := by decide
  have searched : Extraction.scanFile tree frenchOptions.markers "a/x.ts" = .ok scanned :=
    Extraction.scanFile_eq_ok last ⟨by decide, by decide, by decide, by decide⟩ holds.unlinked
      holds.way holds.there (by decide +kernel)
  rw [Extraction.outcomes_cons_of_ok _ routed, searched]
  rfl

private theorem directoriesOf_eq :
    Extraction.directoriesOf (outcomes tree frenchOptions ["a/x.ts"]) = ["a/locales"] := by
  rw [outcomes_eq holds]
  rfl

private theorem writes_eq :
    Extraction.writes frenchOptions (outcomes tree frenchOptions ["a/x.ts"]) = [("a/locales", "fr")] := by
  rw [Extraction.writes, directoriesOf_eq holds]
  rfl

private theorem turns_eq : turns frenchOptions ["a/x.ts"] tree = [⟨tree, "a/locales", "fr"⟩] := by
  rw [turns, writes_eq holds]
  rfl

private theorem report_eq : ∃ written,
    let report := ((extract frenchOptions ["a/x.ts"]).run tree).1
    report.scanned = 1 ∧ report.issues = [] ∧ report.directories = [⟨"a/locales", 1, written⟩] := by
  obtain ⟨scanned, issues, directories⟩ :=
    Extraction.report_extract frenchOptions ["a/x.ts"] tree
  rw [outcomes_eq holds] at scanned issues
  rw [directoriesOf_eq holds, outcomes_eq holds] at directories
  exact ⟨_, scanned, issues.trans List.mergeSort_nil, directories⟩

end Tree

private theorem holdsScript_stocked : HoldsScript stockedTree where
  unlinked := FileTree.unlinked_of_items (by simp [stockedTree]) _
  way := FileTree.wayIn_of_descend (by decide) (by decide)
  there := by decide

private theorem succeeds_stocked : ∀ turn ∈ turns frenchOptions ["a/x.ts"] stockedTree, ∃ count,
    turn.result frenchOptions (outcomes stockedTree frenchOptions ["a/x.ts"]) = .ok count := by
  have places := writes_eq holdsScript_stocked
  have ready : Extraction.Ready stockedTree "a/locales" "fr" ["a", "locales"] ["a", "locales"] :=
    Extraction.ready_of_descend (by decide) (by decide) (by decide) (by decide) (by decide)
  refine Extraction.succeeds_of_ready rfl _ ?_ ?_ ?_
  · rw [places]
    decide
  · exact fun _ _ => ⟨FileTree.unlinked_of_items (by simp [stockedTree]) _,
      FileTree.unlinked_of_items (by simp [stockedTree]) _⟩
  · rw [places]
    intro place member
    rw [List.mem_singleton.mp member]
    exact ⟨_, _, ready⟩

end Stocked

theorem summary_extract_of_stocked :
    frenchOptions.locales ≠ [] ∧
      ∃ shown ∈ ((extract frenchOptions ["a/x.ts"]).run stockedTree).1.directories,
        Shows frenchOptions ["a/x.ts"] stockedTree shown ∧
          writtenText shown = "1 message written to 1 catalog (fr)" := by
  have targets : frenchOptions.locales ≠ [] := by decide
  obtain ⟨written, -, -, directories⟩ := Stocked.report_eq Stocked.holdsScript_stocked
  have member : (⟨"a/locales", 1, written⟩ : DirectoryReport) ∈
      ((extract frenchOptions ["a/x.ts"]).run stockedTree).1.directories := by
    rw [directories]
    exact List.mem_singleton.mpr rfl
  have all : written = ["fr"] :=
    Extraction.written_eq_of_turns member Stocked.succeeds_stocked Nat.one_pos
  obtain ⟨-, -, -, shows⟩ := summary_extract targets ["a/x.ts"] stockedTree false
  refine ⟨targets, _, member, shows _ member, ?_⟩
  rw [all]
  decide

private theorem holdsScript_spoiled : Stocked.HoldsScript Extraction.spoiledTree where
  unlinked := FileTree.unlinked_of_items (by simp [Extraction.spoiledTree]) _
  way := FileTree.wayIn_of_descend (by decide) (by decide)
  there := by decide

private theorem locate_spoiled : Extraction.spoiledTree.locate true "a/locales/fr.po" =
    .ok (.item ["a", "locales", "fr.po"] (.file (.raw [255]))) := by
  have way : Extraction.spoiledTree.wayIn "a/locales/fr.po" = .ok ["a", "locales"] :=
    FileTree.wayIn_of_descend (by decide) (by decide)
  have last : (FileTree.piecesOf "a/locales/fr.po").getLast? = some "fr.po" := by decide
  have there : Extraction.spoiledTree.item? ["a", "locales", "fr.po"] = some (.file (.raw [255])) := by
    decide
  have solid : ∀ target,
      Extraction.spoiledTree.item? (["a", "locales"] ++ ["fr.po"]) ≠ some (.link target) := by
    rw [List.cons_append, List.singleton_append, there]
    simp
  rw [FileTree.locate_of_wayIn last ⟨by decide, by decide, by decide, by decide⟩ way solid]
  decide

private theorem result_spoiled :
    Turn.result frenchOptions (outcomes Extraction.spoiledTree frenchOptions ["a/x.ts"])
        ⟨Extraction.spoiledTree, "a/locales", "fr"⟩ =
      .error (.unreadable "a/locales/fr.po" .notText) :=
  (@Extraction.result_of_raw frenchOptions _ ⟨Extraction.spoiledTree, "a/locales", "fr"⟩ rfl _ _
    locate_spoiled).1

private theorem failures_spoiled :
    ((extract frenchOptions ["a/x.ts"]).run Extraction.spoiledTree).1.failures =
      [⟨"a/locales/fr.po", .catalog (.unreadable "a/locales/fr.po" .notText)⟩] := by
  have searched : (Extraction.searchReport frenchOptions ["a/x.ts"]
      (outcomes Extraction.spoiledTree frenchOptions ["a/x.ts"])).failures = [] := by
    rw [Stocked.outcomes_eq holdsScript_spoiled]
    rfl
  rw [Extraction.failures_extract, searched, Stocked.turns_eq holdsScript_spoiled,
    List.flatMap_singleton, Turn.failures, result_spoiled]
  rfl

/-- A directory with a message is shown as one without messages, as its catalog is no text and fails. -/
theorem summary_extract_of_spoiled :
    let report := ((extract frenchOptions ["a/x.ts"]).run Extraction.spoiledTree).1
    report.directories = [⟨"a/locales", 1, []⟩] ∧
      IsFoundFor frenchOptions ["a/x.ts"] Extraction.spoiledTree "a/locales" "A" ∧
        summary false report = "✓ a/locales: no messages, nothing written\n" ++
          "✘ Scanned 1 source file, 1 file failed\n" := by
  obtain ⟨written, scanned, issues, directories⟩ := Stocked.report_eq holdsScript_spoiled
  have member : (⟨"a/locales", 1, written⟩ : DirectoryReport) ∈
      ((extract frenchOptions ["a/x.ts"]).run Extraction.spoiledTree).1.directories := by
    rw [directories]
    exact List.mem_singleton.mpr rfl
  have none : written = [] := by
    refine (written_eq_nil_iff member).mpr (Or.inr fun turn ht => ?_)
    obtain ⟨inside, -⟩ := List.mem_filter.mp ht
    have only := inside
    rw [Stocked.turns_eq holdsScript_spoiled, List.mem_singleton] at only
    rw [only] at inside ⊢
    exact fails_of_result inside result_spoiled
  rw [none] at directories
  refine ⟨directories, ?_, ?_⟩
  · refine ⟨⟨"a/x.ts", "a/locales", .ok Stocked.scanned⟩, ?_, Stocked.scanned, rfl, rfl, _,
      List.mem_singleton.mpr rfl, rfl⟩
    rw [Stocked.outcomes_eq holdsScript_spoiled]
    exact List.mem_singleton.mpr rfl
  · simp only [summary, totalLine, totalMark, Extraction.Report.hasFailures, scanned, issues,
      directories, failures_spoiled]
    decide

end CommandLine

end Phrasebook
