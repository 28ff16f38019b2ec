import Phrasebook.Proofs.Extraction.Searched
import Phrasebook.Proofs.Extraction.Storing

/-!
What a run accounts for. Every script file is searched or fails; every catalog is written, fails or has
no messages, and what fails changes no other file.
-/

set_option autoImplicit false

namespace Phrasebook.Extraction

open Catalog (entryName nameBeside)
open FileTree (Spared Stored StaysAt)

section Turns

variable {options : Options} {found : List Outcome}

/-- A turn has written its catalog: it holds what the catalog that was there, or an empty one, and the
messages are merged to. -/
structure Turn.Puts (options : Options) (found : List Outcome) (turn : Turn) (count : Nat)
    (names : Names) (text : String) : Prop where
  written : turn.result options found = .ok (some count)
  full : (turn.fresh found).isEmpty = false
  merged : ∃ existing,
    existingCatalog turn.tree options.overwrite turn.path turn.locale = .ok existing ∧
      count = (existing.merge (turn.fresh found)).size ∧
        text = (existing.merge (turn.fresh found)).render
  stored : ∃ home, names = home ++ [entryName turn.locale] ∧
    Stored turn.tree (turn.after options found) turn.path home (entryName turn.locale) text

/-- How a turn ends: it writes its catalog, or it fails and no file has changed, or it has no messages and
nothing has changed at all. -/
def Turn.IsAccounted (options : Options) (found : List Outcome) (turn : Turn) : Prop :=
  match turn.result options found with
  | .ok (some count) => ∃ names text, turn.Puts options found count names text
  | .error _ => Spared turn.tree (turn.after options found) turn.path (entryName turn.locale)
  | .ok none => (turn.fresh found).isEmpty = true ∧ turn.after options found = turn.tree

theorem isAccounted_turn (options : Options) (found : List Outcome) {turn : Turn}
    (unlinked : turn.tree.Unlinked (nameBeside (entryName turn.locale))) :
    turn.IsAccounted options found := by
  have done : (turn.result options found, turn.after options found) = _ :=
    perform_writeLocale turn.tree options.overwrite (turn.fresh found) turn.path turn.locale
  unfold Turn.IsAccounted
  cases old : existingCatalog turn.tree options.overwrite turn.path turn.locale with
  | error error =>
    rw [old] at done
    obtain ⟨result, after⟩ := Prod.mk.inj done
    rw [result, after]
    exact (FileTree.Grows.refl turn.tree).spared turn.path _
  | ok existing =>
    simp only [old] at done
    have sizes : (existing.merge (turn.fresh found)).isEmpty = (turn.fresh found).isEmpty :=
      Catalog.isEmpty_merge _ _
    cases empty : (turn.fresh found).isEmpty with
    | true =>
      rw [FileTree.perform_save_of_isEmpty turn.tree (sizes.trans empty)] at done
      obtain ⟨result, after⟩ := Prod.mk.inj done
      rw [result, after]
      exact ⟨rfl, rfl⟩
    | false =>
      rcases save : turn.tree.perform ((existing.merge (turn.fresh found)).save turn.path) with
        ⟨saved, later⟩
      rw [save] at done
      rcases FileTree.save_cases (Catalog.getLast?_filePath turn.directory turn.locale)
          (Catalog.isEntry_entryName turn.locale) unlinked (sizes.trans empty) save with
        ⟨⟨error, rfl⟩, spared⟩ | ⟨rfl, home, stored⟩
      · obtain ⟨result, after⟩ := Prod.mk.inj done
        rw [result, after]
        exact spared
      · obtain ⟨result, after⟩ := Prod.mk.inj done
        rw [result]
        refine ⟨_, _, result, empty, ⟨existing, old, rfl, rfl⟩, home, rfl, ?_⟩
        rw [after]
        exact stored

theorem result_of_raw {turn : Turn} (keeps : options.overwrite = false) {names : Names}
    {bytes : List UInt8}
    (there : turn.tree.locate true turn.path = .ok (.item names (.file (.raw bytes)))) :
    turn.result options found = .error (.unreadable turn.path .notText) ∧
      turn.after options found = turn.tree := by
  have file : turn.tree.isFile turn.path = true := FileTree.isFile_iff_locate.mpr ⟨_, _, there⟩
  have old : existingCatalog turn.tree options.overwrite turn.path turn.locale =
      .error (.unreadable turn.path .notText) := by
    rw [existingCatalog, keeps, file, Catalog.load, FileTree.readText_of_locate_raw there]
    rfl
  have done : (turn.result options found, turn.after options found) = _ :=
    perform_writeLocale turn.tree options.overwrite (turn.fresh found) turn.path turn.locale
  rw [old] at done
  exact Prod.mk.inj done

section Turn

variable (turn : Turn) (unlinked : turn.tree.Unlinked (nameBeside (entryName turn.locale)))

include unlinked

theorem puts_or_spared (options : Options) (found : List Outcome) :
    (∃ count names text, turn.Puts options found count names text) ∨
      Spared turn.tree (turn.after options found) turn.path (entryName turn.locale) := by
  have ends := isAccounted_turn options found unlinked
  unfold Turn.IsAccounted at ends
  split at ends
  · exact Or.inl ⟨_, ends⟩
  · exact Or.inr ends
  · rw [ends.2]
    exact Or.inr ((FileTree.Grows.refl turn.tree).spared _ _)

theorem item?_after {names : Names} {item : Item}
    (there : (turn.after options found).item? names = some item) (solid : item ≠ .directory) :
    turn.tree.item? names = some item ∨
      ∃ count text, turn.Puts options found count names text ∧ item = .file (.text text) := by
  rcases puts_or_spared turn unlinked options found with ⟨count, other, text, puts⟩ | spared
  · obtain ⟨home, rfl, stored⟩ := puts.stored
    rcases stored.item?_eq there solid with ⟨rfl, rfl⟩ | before
    · exact Or.inr ⟨count, text, puts, rfl⟩
    · exact Or.inl before
  · exact Or.inl (spared.item?_eq there solid)

theorem staysAt_after {names : Names}
    (elsewhere : ∀ count text, ¬turn.Puts options found count names text)
    (notBeside : names.getLast? ≠ some (nameBeside (entryName turn.locale))) :
    StaysAt turn.tree (turn.after options found) names := by
  rcases puts_or_spared turn unlinked options found with ⟨count, other, text, puts⟩ | spared
  · obtain ⟨home, rfl, stored⟩ := puts.stored
    have away : names ≠ home ++ [entryName turn.locale] := by
      rintro rfl
      exact elsewhere count text puts
    rcases stored.others names away with stays | ⟨rfl, -⟩
    · exact stays
    · exact absurd List.getLast?_concat notBeside
  · rcases spared.items names with stays | ⟨beside, -⟩
    · exact stays
    · exact absurd beside notBeside

theorem staysAt_of_error {error : Catalog.FileError}
    (failed : turn.result options found = .error error) (home : Names) (locale : String) :
    StaysAt turn.tree (turn.after options found) (home ++ [entryName locale]) := by
  refine staysAt_after turn unlinked (fun count text puts => ?_) ?_
  · rw [puts.written] at failed
    cases failed
  · simpa using Catalog.entryName_ne_nameBeside locale (entryName turn.locale)

end Turn

/-- No link bears the name of a file beside one of the catalogs. -/
def IsPlainBeside (tree : FileTree) (places : List (String × String)) : Prop :=
  ∀ place ∈ places, tree.Unlinked (nameBeside (entryName place.2))

section Run

variable {tree : FileTree} {place : String × String} {places : List (String × String)}

theorem IsPlainBeside.tail (plain : IsPlainBeside tree (place :: places)) :
    IsPlainBeside (performWrite options found tree place).2 places := by
  intro other ho
  -- A turn puts nothing but files and directories, so a link was there before.
  refine FileTree.unlinked_of_links (fun names target linked => ?_) (plain other (by simp [ho]))
  rcases item?_after ⟨tree, place.1, place.2⟩ (plain place (by simp)) linked (by simp) with
    before | ⟨count, text, -, file⟩
  · exact before
  · cases file

theorem unlinked_of_mem_turnsFrom (plain : IsPlainBeside tree places) {turn : Turn}
    (member : turn ∈ turnsFrom options found tree places) :
    turn.tree.Unlinked (nameBeside (entryName turn.locale)) := by
  induction places generalizing tree with
  | nil => cases member
  | cons place places ih =>
    rcases List.mem_cons.mp member with rfl | member
    · exact plain place (by simp)
    · exact ih plain.tail member

theorem item?_treeAfter (plain : IsPlainBeside tree places) {names : Names} {item : Item}
    (there : (treeAfter options found tree places).item? names = some item)
    (solid : item ≠ .directory) :
    tree.item? names = some item ∨ ∃ turn ∈ turnsFrom options found tree places,
      ∃ count text, turn.Puts options found count names text ∧ item = .file (.text text) := by
  induction places generalizing tree with
  | nil => exact Or.inl there
  | cons place places ih =>
    rw [turnsFrom]
    rcases ih plain.tail there with next | ⟨turn, ht, puts⟩
    · rcases item?_after ⟨tree, place.1, place.2⟩ (plain place (by simp)) next solid with
        before | puts
      · exact Or.inl before
      · exact Or.inr ⟨_, by simp, puts⟩
    · exact Or.inr ⟨turn, by simp [ht], puts⟩

/-- What no turn writes stays as it is, but for the files beside catalogs. -/
theorem staysAt_treeAfter (plain : IsPlainBeside tree places) {names : Names}
    (untouched : ∀ turn ∈ turnsFrom options found tree places,
      (∀ count text, ¬turn.Puts options found count names text) ∧
        names.getLast? ≠ some (nameBeside (entryName turn.locale))) :
    StaysAt tree (treeAfter options found tree places) names := by
  induction places generalizing tree with
  | nil => exact Or.inl rfl
  | cons place places ih =>
    rw [turnsFrom] at untouched
    obtain ⟨elsewhere, notBeside⟩ := untouched ⟨tree, place.1, place.2⟩ (by simp)
    have first := staysAt_after ⟨tree, place.1, place.2⟩ (plain place (by simp)) elsewhere
      notBeside
    exact first.trans (ih plain.tail fun turn ht => untouched turn (List.mem_cons_of_mem _ ht))

end Run

end Turns

/-- A run accounts for every script file, and for every catalog of every directory; and what fails changes
no file. -/
structure Accounts (options : Options) (files : List String) (tree : FileTree) : Prop where
  scanned : ((extract options files).run tree).1.scanned =
    (files.filter (isSearched tree options)).length
  failures : ∃ failed, (failed.map Failure.path).Perm (files.filter (!isSearched tree options ·)) ∧
    ((extract options files).run tree).1.failures = failed ++
      (turns options files tree).flatMap (Turn.failures options (outcomes tree options files))
  directories : ((extract options files).run tree).1.directories.map DirectoryReport.directory =
    directoriesOf (outcomes tree options files)
  written : ∀ report ∈ ((extract options files).run tree).1.directories,
    let own := (turns options files tree).filter (·.directory == report.directory)
    own.map Turn.locale = options.locales ∧
      report.written = writtenLocales options (outcomes tree options files) own
  ends : ∀ turn ∈ turns options files tree,
    turn.IsAccounted options (outcomes tree options files)
  /-- A catalog that is no text is not replaced unless catalogs are dropped. -/
  raw : options.overwrite = false → ∀ turn ∈ turns options files tree, ∀ names bytes,
    turn.tree.locate true turn.path = .ok (.item names (.file (.raw bytes))) →
      turn.result options (outcomes tree options files) = .error (.unreadable turn.path .notText) ∧
        turn.after options (outcomes tree options files) = turn.tree
  contained : ∀ turn ∈ turns options files tree, ∀ error,
    turn.result options (outcomes tree options files) = .error error → ∀ home locale,
      StaysAt turn.tree (turn.after options (outcomes tree options files))
        (home ++ [entryName locale])
  /-- A file is as it was before the run, or a catalog that a turn has written. -/
  holds : ∀ names content, ((extract options files).run tree).2.item? names = some (.file content) →
    tree.item? names = some (.file content) ∨ ∃ turn ∈ turns options files tree, ∃ count text,
      turn.Puts options (outcomes tree options files) count names text ∧ content = .text text
  /-- What no turn has written is as it was, but for the files beside catalogs. -/
  stays : ∀ names, (∀ turn ∈ turns options files tree,
      (∀ count text, ¬turn.Puts options (outcomes tree options files) count names text) ∧
        names.getLast? ≠ some (nameBeside (entryName turn.locale))) →
    StaysAt tree ((extract options files).run tree).2 names
  fresh : ∀ directory, freshCatalog directory (outcomes tree options files) =
    freshCatalog directory (outcomes tree options (files.filter (isSearched tree options)))
  failing : AreFailingSpelled tree options files → ∀ kept : String → Bool,
    (∀ file ∈ files, isSearched tree options file = true → kept file = true) →
      ((extract options (files.filter kept)).run tree).2 = ((extract options files).run tree).2

/-- A run accounts for all that it is given, if no link bears the name of a file beside a catalog. -/
theorem accounts_extract {options : Options} {files : List String} {tree : FileTree}
    (plain : ∀ locale ∈ options.locales, tree.Unlinked (nameBeside (entryName locale))) :
    Accounts options files tree := by
  have plainBeside : IsPlainBeside tree (writes options (outcomes tree options files)) := by
    intro place hp
    obtain ⟨directory, -, inside⟩ := List.mem_flatMap.mp hp
    obtain ⟨locale, known, rfl⟩ := List.mem_map.mp inside
    exact plain locale known
  obtain ⟨scanned, -, directories⟩ := report_extract options files tree
  refine
    { scanned := scanned.trans (scanned_searchReport tree options files)
      failures := ⟨_, failures_searchReport tree options files, failures_extract options files tree⟩
      directories := ?_
      written := fun report member => ?_
      ends := fun turn ht => isAccounted_turn options _ (unlinked_of_mem_turnsFrom plainBeside ht)
      raw := fun keeps turn _ names bytes there => result_of_raw keeps there
      contained := fun turn ht error failed home locale =>
        staysAt_of_error turn (unlinked_of_mem_turnsFrom plainBeside ht) failed home locale
      holds := fun names content there => ?_
      stays := fun names untouched => ?_
      fresh := fun directory => (freshCatalog_outcomes_filter tree options files directory).symm
      failing := fun spelled kept searched => tree_extract_of_failing spelled searched }
  · rw [directories, directories_directoryReports]
  · obtain ⟨locales, -, written⟩ := of_mem_directories member
    exact ⟨locales, written⟩
  · rw [tree_extract] at there
    rcases item?_treeAfter plainBeside there (by simp) with before | ⟨turn, ht, count, text, puts, same⟩
    · exact Or.inl before
    · exact Or.inr ⟨turn, ht, count, text, puts, Item.file.inj same⟩
  · rw [tree_extract]
    exact staysAt_treeAfter plainBeside untouched

def spoiledTree : FileTree where
  items := [(["a"], .directory), (["a", "x.ts"], .file (.text "_(\"A\");")),
    (["a", "locales"], .directory), (["a", "locales", "fr.po"], .file (.raw [255]))]

def spoiledOptions : Options := { locales := ["fr", "de"] }

theorem accounts_extract_of_spoiled :
    (∀ locale ∈ spoiledOptions.locales, spoiledTree.Unlinked (nameBeside (entryName locale))) ∧
      Accounts spoiledOptions ["a/x.ts", "b/y.ts"] spoiledTree := by
  have plain : ∀ locale ∈ spoiledOptions.locales,
      spoiledTree.Unlinked (nameBeside (entryName locale)) :=
    fun locale _ => FileTree.unlinked_of_items (by simp [spoiledTree]) _
  exact ⟨plain, accounts_extract plain⟩

/-! ### A link that bears the name of the file beside a catalog -/

def linkedText : String := "msgid \"A\"\nmsgstr \"B\"\n"

def linkedTree : FileTree where
  items := [(["a"], .directory), (["a", "x.ts"], .file (.text "_(\"A\");")),
    (["a", "locales"], .directory),
    (["a", "locales", "fr.po"], .file (.text linkedText)),
    (["a", "locales", ".fr.po.tmp"], .link "fr.po")]

def linkedOptions : Options := { locales := ["fr"] }

namespace Linked

private theorem proper {name : String} (h : name = "a" ∨ name = "locales" ∨ name = "x.ts" ∨
    name = "fr.po" ∨ name = ".fr.po.tmp") : FileTree.IsName name := by
  rcases h with rfl | rfl | rfl | rfl | rfl <;>
    exact ⟨by decide, by decide, by decide, by decide⟩

private theorem found_eq : outcomes linkedTree linkedOptions ["a/x.ts"] =
    [⟨"a/x.ts", "a/locales", .ok ⟨[⟨"A", 1, [], false, false⟩], []⟩⟩] := by
  have unlinked : linkedTree.Unlinked "x.ts" := by
    refine FileTree.unlinked_of_forall fun entry member target linked => ?_
    have others : ∀ entry ∈ linkedTree.items, entry.1.getLast? = some "x.ts" →
        entry.2 = .file (.text "_(\"A\");") := by
      decide
    intro last
    rw [others entry member last] at linked
    cases linked
  have way : linkedTree.wayIn "a/x.ts" = .ok ["a"] :=
    FileTree.wayIn_of_descend (by decide) (by decide)
  have scanned : scanFile linkedTree {} "a/x.ts" = .ok ⟨[⟨"A", 1, [], false, false⟩], []⟩ :=
    scanFile_eq_ok (by decide) (proper (by simp)) unlinked way
      (by decide : linkedTree.item? ["a", "x.ts"] = some (.file (.text "_(\"A\");")))
      (by decide +kernel)
  rw [outcomes_cons_of_ok [] (by rfl : outputDirectory "a/x.ts" linkedOptions.directory =
    .ok "a/locales")]
  rw [← scanned]
  rfl

private theorem way : linkedTree.wayIn "a/locales/fr.po" = .ok ["a", "locales"] :=
  FileTree.wayIn_of_descend (by decide) (by decide)

private theorem wayBeside : linkedTree.wayIn "a/locales/.fr.po.tmp" = .ok ["a", "locales"] :=
  FileTree.wayIn_of_descend (by decide) (by decide)

private theorem file : linkedTree.item? ["a", "locales", "fr.po"] =
    some (.file (.text linkedText)) := by decide

private theorem located : linkedTree.locate true "a/locales/.fr.po.tmp" =
    .ok (.item ["a", "locales", "fr.po"] (.file (.text linkedText))) := by
  have pieces : FileTree.piecesOf "a/locales/.fr.po.tmp" = ["a", "locales", ".fr.po.tmp"] := by
    decide
  have target : FileTree.piecesOf "fr.po" = ["fr.po"] := by decide
  have sound : FileTree.pathFault? "a/locales/.fr.po.tmp" = none := by decide
  have start : linkedTree.startOf "a/locales/.fr.po.tmp" = [] := by rfl
  have link : linkedTree.item? ["a", "locales", ".fr.po.tmp"] = some (.link "fr.po") := by decide
  have limit : FileTree.linkLimit = 39 + 1 := rfl
  rw [FileTree.locate_eq, sound, pieces, start, limit]
  simp only
  -- Two directories, and then the link, which leads to the catalog beside it.
  rw [FileTree.walk_directory (proper (by simp)) _ (by decide),
    FileTree.walk_directory (proper (by simp)) _ (by decide),
    FileTree.walk_link (proper (by simp)) (Or.inr rfl) link, target]
  exact FileTree.walk_file (proper (by simp)) file

private def written (text : String) : FileTree :=
  linkedTree.put ["a", "locales", "fr.po"] (.file (.text text))

private def moved (text : String) : FileTree :=
  ((written text).erase ["a", "locales", ".fr.po.tmp"]).put ["a", "locales", "fr.po"] (.link "fr.po")

private theorem keeps (text : String) : linkedTree.Keeps (written text) :=
  FileTree.keeps_put (Or.inr ⟨_, file⟩) _

private theorem item?_written (text : String) (names : Names) :
    (written text).item? names =
      if names = ["a", "locales", "fr.po"] then some (.file (.text text))
      else linkedTree.item? names :=
  FileTree.item?_put (by decide) _ _ _

private theorem rename_eq (text : String) :
    (written text).perform (Change.rename "a/locales/.fr.po.tmp" "a/locales/fr.po") =
      (.ok (), moved text) := by
  have last : (FileTree.piecesOf "a/locales/fr.po").getLast? = some "fr.po" := by decide
  have lastBeside : (FileTree.piecesOf "a/locales/.fr.po.tmp").getLast? = some ".fr.po.tmp" := by
    decide
  have link : (written text).item? ["a", "locales", ".fr.po.tmp"] = some (.link "fr.po") := by
    rw [item?_written, if_neg (by decide)]
    decide
  have catalog : (written text).item? ["a", "locales", "fr.po"] = some (.file (.text text)) := by
    rw [item?_written, if_pos rfl]
  have source := FileTree.locate_false_eq_wayIn (written text) lastBeside (proper (by simp))
  have target := FileTree.locate_false_eq_wayIn (written text) last (proper (by simp))
  rw [FileTree.wayIn_of_keeps (keeps text) wayBeside] at source
  rw [FileTree.wayIn_of_keeps (keeps text) way] at target
  simp only [Except.map, FileTree.spotAt, List.cons_append, List.nil_append, link, catalog]
    at source target
  rw [FileTree.perform_rename _ _ last (by decide) (by decide) (by decide), source, target]
  simp only
  rw [if_neg (by decide)]
  rfl

private theorem save_eq {catalog : Catalog} (filled : catalog.isEmpty = false) :
    linkedTree.perform (catalog.save "a/locales/fr.po") = (.ok true, moved catalog.render) := by
  have staging : Catalog.stagingPath "a/locales/fr.po" = "a/locales/.fr.po.tmp" := by decide
  have way : linkedTree.descend (linkedTree.startOf "a/locales") (FileTree.piecesOf "a/locales") =
      some ["a", "locales"] := by decide
  have parent := FileTree.perform_makeParent_of_isDirectory
    (by decide : Path.parent? "a/locales/fr.po" = some "a/locales")
    (FileTree.isDirectory_of_descend (by decide) way)
  have put : linkedTree.perform (Change.write "a/locales/.fr.po.tmp" (.text catalog.render)) =
      (.ok (), written catalog.render) := by
    rw [FileTree.perform_write, located]
    rfl
  rw [FileTree.perform_save _ filled, parent, staging]
  simp only [put, rename_eq]

private theorem existingCatalog_eq : existingCatalog linkedTree false "a/locales/fr.po" "fr" =
    .ok (Catalog.parse linkedText "fr") := by
  have last : (FileTree.piecesOf "a/locales/fr.po").getLast? = some "fr.po" := by decide
  have there : linkedTree.locate true "a/locales/fr.po" =
      .ok (.item ["a", "locales", "fr.po"] (.file (.text linkedText))) := by
    rw [FileTree.locate_of_wayIn last (proper (by simp)) way (by simp [file]) true,
      FileTree.spotAt]
    simp only [List.cons_append, List.nil_append, file]
  have reads : linkedTree.isFile "a/locales/fr.po" = true :=
    FileTree.isFile_iff_locate.mpr ⟨_, _, there⟩
  rw [existingCatalog, reads, Catalog.load, FileTree.readText_of_locate_text there]
  rfl

private theorem performWrite_eq : ∃ count text,
    performWrite linkedOptions (outcomes linkedTree linkedOptions ["a/x.ts"]) linkedTree
      ("a/locales", "fr") = (.ok (some count), moved text) := by
  have path : Catalog.filePath "a/locales" "fr" = "a/locales/fr.po" := by decide
  have here : (⟨"a/x.ts", "a/locales", .ok ⟨[⟨"A", 1, [], false, false⟩], []⟩⟩ : Outcome) ∈
      outcomes linkedTree linkedOptions ["a/x.ts"] := by simp [found_eq]
  have full := isEmpty_of_mem_keys (mem_keys_freshCatalog here rfl (List.mem_singleton.mpr rfl)
    (by decide))
  have filled : ((Catalog.parse linkedText "fr").merge (freshCatalog "a/locales"
      (outcomes linkedTree linkedOptions ["a/x.ts"]))).isEmpty = false := by
    rw [Catalog.isEmpty_merge, full]
  have drops : linkedOptions.overwrite = false := rfl
  rw [performWrite, perform_writeLocale, path, drops, existingCatalog_eq]
  simp only [save_eq filled]
  exact ⟨_, _, rfl⟩

private theorem directoriesOf_eq :
    directoriesOf (outcomes linkedTree linkedOptions ["a/x.ts"]) = ["a/locales"] := by
  rw [found_eq]
  decide

private theorem item?_moved (text : String) (names : Names) :
    (moved text).item? names =
      if names = ["a", "locales", "fr.po"] then some (.link "fr.po")
      else if names = ["a", "locales", ".fr.po.tmp"] then none else linkedTree.item? names := by
  rw [moved, FileTree.item?_put (by decide), FileTree.item?_erase (by decide), item?_written]
  split
  · rfl
  · split <;> rfl

private theorem walk_moved (text : String) (links : Nat) :
    (moved text).walk true links ["a", "locales"] ["fr.po"] = .error .tooManyLinks := by
  have link : (moved text).item? (["a", "locales"] ++ ["fr.po"]) = some (.link "fr.po") :=
    item?_moved text _
  have target : FileTree.piecesOf "fr.po" = ["fr.po"] := by decide
  induction links with
  | zero => exact FileTree.walk_many_links (proper (by simp)) (Or.inr rfl) link
  | succ links ih =>
    rw [FileTree.walk_link (proper (by simp)) (Or.inr rfl) link, target]
    exact ih

private theorem readText_moved (text : String) :
    (moved text).readText "a/locales/fr.po" = .error .tooManyLinks := by
  have pieces : FileTree.piecesOf "a/locales/fr.po" = ["a", "locales", "fr.po"] := by decide
  have sound : FileTree.pathFault? "a/locales/fr.po" = none := by decide
  have start : (moved text).startOf "a/locales/fr.po" = [] := rfl
  have outer : (moved text).item? ["a"] = some .directory := item?_moved text _
  have inner : (moved text).item? ["a", "locales"] = some .directory := item?_moved text _
  have located : (moved text).locate true "a/locales/fr.po" = .error .tooManyLinks := by
    rw [FileTree.locate_eq, sound, pieces, start]
    simp only
    rw [FileTree.walk_directory (proper (by simp)) _ outer,
      FileTree.walk_directory (proper (by simp)) _ inner]
    exact walk_moved text _
  rw [FileTree.readText, FileTree.resolve, located]
  rfl

end Linked

/-- The catalog is reported as written, and it cannot be read any more: it has become a link to itself. -/
theorem written_of_linked :
    let done := (extract linkedOptions ["a/x.ts"]).run linkedTree
    done.1.directories = [⟨"a/locales", 1, ["fr"]⟩] ∧ done.1.failures = [] ∧
      done.2.item? ["a", "locales", "fr.po"] = some (.link "fr.po") ∧
        done.2.readText "a/locales/fr.po" = .error .tooManyLinks := by
  obtain ⟨count, text, wrote⟩ := Linked.performWrite_eq
  have result : Turn.result linkedOptions (outcomes linkedTree linkedOptions ["a/x.ts"])
      ⟨linkedTree, "a/locales", "fr"⟩ = .ok (some count) := congrArg Prod.fst wrote
  have places : writes linkedOptions (outcomes linkedTree linkedOptions ["a/x.ts"]) =
      [("a/locales", "fr")] := by
    rw [writes, Linked.directoriesOf_eq]
    rfl
  have size : (freshCatalog "a/locales" (outcomes linkedTree linkedOptions ["a/x.ts"])).size = 1 := by
    rw [Linked.found_eq]
    decide
  have searched : (searchReport linkedOptions ["a/x.ts"]
      (outcomes linkedTree linkedOptions ["a/x.ts"])).failures = [] := by
    rw [Linked.found_eq]
    rfl
  have after : ((extract linkedOptions ["a/x.ts"]).run linkedTree).2 = Linked.moved text := by
    rw [tree_extract, places, treeAfter_cons, wrote]
    rfl
  refine ⟨?_, ?_, ?_, ?_⟩
  · rw [(report_extract linkedOptions ["a/x.ts"] linkedTree).2.2, Linked.directoriesOf_eq]
    have own : writtenLocales linkedOptions (outcomes linkedTree linkedOptions ["a/x.ts"])
        (turnsFrom linkedOptions (outcomes linkedTree linkedOptions ["a/x.ts"]) linkedTree
          (linkedOptions.locales.map fun locale => ("a/locales", locale))) = ["fr"] := by
      have written : isWritten (Turn.result linkedOptions
          (outcomes linkedTree linkedOptions ["a/x.ts"]) ⟨linkedTree, "a/locales", "fr"⟩) = true := by
        rw [result]
        rfl
      exact congrArg (List.map Turn.locale) (List.filter_cons_of_pos written)
    rw [directoryReports, own, size, directoryReports]
  · rw [failures_extract, searched, turns, places]
    simp only [turnsFrom, List.flatMap_cons, List.flatMap_nil, Turn.failures, result]
    rfl
  · rw [after, Linked.item?_moved, if_pos rfl]
  · rw [after, Linked.readText_moved]

end Phrasebook.Extraction
