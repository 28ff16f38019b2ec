import Phrasebook.Proofs.Extraction.Run
import Phrasebook.Proofs.Extraction.Writing
import Phrasebook.Proofs.Files.Directory

/-!
Extractions that cannot fail, as the catalog directories are there and nothing but catalogs stands where
catalogs are written.
-/

set_option autoImplicit false

namespace Phrasebook.Extraction

open Catalog (filePath fileName stagingPath stagingName)

structure Ready (tree : FileTree) (directory locale : String) (home annex : Names) : Prop where
  parent : ∃ parent, Path.parent? (filePath directory locale) = some parent ∧
    tree.isDirectory parent = true
  way : tree.wayIn (filePath directory locale) = .ok home
  wayBeside : tree.wayIn (stagingPath (filePath directory locale)) = .ok annex
  takes : ∀ item, tree.item? (home ++ [fileName locale]) = some item →
    ∃ text, item = .file (.text text)
  takesBeside : tree.TakesFile (annex ++ [stagingName locale])

/-- The tree after a text is written beside a catalog and moved there. -/
def saved (tree : FileTree) (home annex : Names) (locale text : String) : FileTree :=
  ((tree.put (annex ++ [stagingName locale]) (.file (.text text))).erase
    (annex ++ [stagingName locale])).put (home ++ [fileName locale]) (.file (.text text))

section Place

variable {tree : FileTree} {directory locale : String} {home annex : Names}

theorem item?_saved (text : String) (other : Names) :
    (saved tree home annex locale text).item? other =
      if other = home ++ [fileName locale] then some (.file (.text text))
      else if other = annex ++ [stagingName locale] then none
      else tree.item? other := by
  unfold saved
  rw [FileTree.item?_put (by simp), FileTree.item?_erase (by simp), FileTree.item?_put (by simp)]
  split
  · rfl
  · split <;> rfl

theorem item?_of_saved {text : String} {other : Names} {item : Item}
    (there : (saved tree home annex locale text).item? other = some item)
    (solid : ∀ content, item ≠ .file content) : tree.item? other = some item := by
  rw [item?_saved] at there
  split at there
  · exact absurd (Option.some.inj there).symm (solid _)
  · split at there
    · cases there
    · exact there

namespace Ready

variable (ready : Ready tree directory locale home annex) (text : String)

include ready

theorem takesFile : tree.TakesFile (home ++ [fileName locale]) := by
  cases there : tree.item? (home ++ [fileName locale]) with
  | none => exact Or.inl there
  | some item =>
    obtain ⟨text, rfl⟩ := ready.takes item there
    exact Or.inr ⟨.text text, there⟩

private theorem item?_saved_of_solid {other : Names} {item : Item}
    (there : tree.item? other = some item) (solid : ∀ content, item ≠ .file content) :
    (saved tree home annex locale text).item? other = some item := by
  have notTarget : other ≠ home ++ [fileName locale] := by
    rintro rfl
    obtain ⟨old, rfl⟩ := ready.takes item there
    exact solid _ rfl
  have notBeside : other ≠ annex ++ [stagingName locale] := by
    rintro rfl
    rcases ready.takesBeside with free | ⟨content, file⟩
    · rw [free] at there
      cases there
    · rw [file] at there
      exact solid content (Option.some.inj there).symm
  rw [item?_saved, if_neg notTarget, if_neg notBeside, there]

theorem keeps_saved : tree.Keeps (saved tree home annex locale text) :=
  ⟨rfl, fun _ there => ready.item?_saved_of_solid text there (by simp),
    fun _ _ there => ready.item?_saved_of_solid text there (by simp)⟩

end Ready

theorem plain_saved {other : String} (plain : tree.Plain other) (text : String) :
    (saved tree home annex locale text).Plain other := by
  have links : ∀ names target, (saved tree home annex locale text).item? names =
      some (.link target) → tree.item? names = some (.link target) :=
    fun names target there => item?_of_saved there (by simp)
  exact ⟨FileTree.unlinked_of_links links plain.target,
    FileTree.unlinked_of_links links plain.staging⟩

theorem Ready.saved (known : Locale.isRecognized locale = true)
    (ready : Ready tree directory locale home annex) {place other : String} {near far : Names}
    (readyToo : Ready tree place other near far)
    (text : String) : Ready (saved tree home annex locale text) place other near far := by
  have keeps := ready.keeps_saved text
  obtain ⟨parent, found, there⟩ := readyToo.parent
  refine ⟨⟨parent, found, FileTree.isDirectory_of_keeps keeps there⟩,
    FileTree.wayIn_of_keeps keeps readyToo.way, FileTree.wayIn_of_keeps keeps readyToo.wayBeside,
    ?_, ?_⟩
  · intro item h
    rw [item?_saved] at h
    split at h
    · exact ⟨text, (Option.some.inj h).symm⟩
    · split at h
      · cases h
      · exact readyToo.takes item h
  · unfold FileTree.TakesFile
    rw [item?_saved, if_neg (Catalog.append_stagingName_ne known other far home)]
    split
    · exact Or.inl rfl
    · exact readyToo.takesBeside

theorem ready_of_descend (parent : Path.parent? (filePath directory locale) = some directory)
    (sound : FileTree.pathFault? directory = none)
    (down : tree.descend (tree.startOf directory) (FileTree.piecesOf directory) = some home)
    (ways : ∀ path ∈ [filePath directory locale, stagingPath (filePath directory locale)],
      FileTree.pathFault? path = none ∧
        tree.descend (tree.startOf path) (FileTree.piecesOf path).dropLast = some home)
    (free : ∀ name ∈ [fileName locale, stagingName locale], tree.item? (home ++ [name]) = none) :
    Ready tree directory locale home home := by
  have way : ∀ path ∈ [filePath directory locale, stagingPath (filePath directory locale)],
      tree.wayIn path = .ok home := fun path hp =>
    FileTree.wayIn_of_descend (ways path hp).1 (ways path hp).2
  refine ⟨⟨directory, parent, FileTree.isDirectory_of_descend sound down⟩, way _ (by simp),
    way _ (by simp), ?_, Or.inl (free _ (by simp))⟩
  intro item there
  rw [free _ (by simp)] at there
  cases there

section Writing

variable (known : Locale.isRecognized locale = true)

section Save

variable (unlinked : tree.Unlinked (stagingName locale))
  (ready : Ready tree directory locale home annex)

include known ready

include unlinked in
private theorem perform_write_of_ready (content : Content) :
    tree.perform (Change.write (stagingPath (filePath directory locale)) content) =
      (.ok (), tree.put (annex ++ [stagingName locale]) (.file content)) := by
  rw [FileTree.perform_write, FileTree.locate_eq_wayIn (Catalog.piecesOf_stagingPath known directory)
    (Catalog.isName_stagingName known) unlinked, ready.wayBeside]
  rcases ready.takesBeside with free | ⟨old, file⟩
  · simp [Except.map, FileTree.spotAt, free]
  · simp [Except.map, FileTree.spotAt, file]

private theorem perform_rename_of_ready (text : String) :
    (tree.put (annex ++ [stagingName locale]) (.file (.text text))).perform
        (Change.rename (stagingPath (filePath directory locale)) (filePath directory locale)) =
      (.ok (), Extraction.saved tree home annex locale text) := by
  have last := Catalog.piecesOf_filePath known directory
  have proper := Catalog.isName_fileName known
  have beside := FileTree.locate_put (Catalog.piecesOf_stagingPath known directory)
    (Catalog.isName_stagingName known) ready.wayBeside ready.takesBeside (.text text)
  have way := FileTree.wayIn_of_keeps (FileTree.keeps_put ready.takesBeside (.file (.text text)))
    ready.way
  have different := Catalog.append_stagingName_ne known locale annex home
  have item : (tree.put (annex ++ [stagingName locale]) (.file (.text text))).item?
      (home ++ [fileName locale]) = tree.item? (home ++ [fileName locale]) := by
    rw [FileTree.item?_put (by simp), if_neg different.symm]
  rw [FileTree.perform_rename _ _ last proper.full proper.here proper.up, beside,
    FileTree.locate_false_eq_wayIn _ last proper, way]
  rcases ready.takesFile with free | ⟨old, file⟩
  · simp [Except.map, FileTree.spotAt, item, free, different, Extraction.saved]
  · simp [Except.map, FileTree.spotAt, item, file, different, Extraction.saved]

include unlinked in
theorem perform_save_of_ready {catalog : Catalog} (full : catalog.isEmpty = false) :
    tree.perform (catalog.save (filePath directory locale)) =
      (.ok true, Extraction.saved tree home annex locale catalog.render) := by
  obtain ⟨parent, found, there⟩ := ready.parent
  have made : tree.perform (Catalog.makeParent (filePath directory locale)) = (.ok (), tree) := by
    rw [FileTree.perform_makeParent, found]
    simp only [FileTree.perform_step, FileTree.perform_makeDirectories_of_isDirectory there]
    rfl
  rw [FileTree.perform_save tree full, made]
  simp only [perform_write_of_ready known unlinked ready,
    perform_rename_of_ready known ready]

end Save

variable (plain : tree.Plain locale) (ready : Ready tree directory locale home annex)

include known plain ready

private theorem exists_existingCatalog :
    ∃ existing, existingCatalog tree false (filePath directory locale) locale = .ok existing := by
  have last := Catalog.piecesOf_filePath known directory
  have proper := Catalog.isName_fileName known
  unfold existingCatalog
  by_cases file : tree.isFile (filePath directory locale) = true
  · obtain ⟨other, content, way, item⟩ := (FileTree.isFile_iff last proper plain.target).mp file
    obtain rfl : home = other := Except.ok.inj (ready.way.symm.trans way)
    obtain ⟨text, rfl⟩ : ∃ text, content = .text text := by
      simpa using ready.takes _ item
    have read := (FileTree.readText_eq_ok_iff last proper plain.target).mpr ⟨home, way, item⟩
    refine ⟨Catalog.parse text locale, ?_⟩
    simp only [file, Bool.not_false, Bool.and_self, if_true, Catalog.load, read]
  · refine ⟨Catalog.empty locale, ?_⟩
    simp only [file, Bool.and_false, Bool.false_eq_true, if_false]

theorem performWrite_of_ready {options : Options} (keepsTexts : options.overwrite = false)
    (found : List Outcome) :
    let done := performWrite options found tree (directory, locale)
    (∃ count, done.1 = .ok count) ∧
      ((freshCatalog directory found).isEmpty = true ∧ done.2 = tree ∨
        ∃ text, done.2 = Extraction.saved tree home annex locale text) := by
  intro done
  obtain ⟨existing, old⟩ := exists_existingCatalog known plain ready
  rw [← keepsTexts] at old
  have result : done = _ := perform_writeLocale tree options.overwrite (freshCatalog directory found)
    (filePath directory locale) locale
  cases empty : (freshCatalog directory found).isEmpty with
  | true =>
    have bare : (existing.merge (freshCatalog directory found)).isEmpty = true := by
      rw [Catalog.isEmpty_merge, empty]
    simp only [old, FileTree.perform_save_of_isEmpty tree bare] at result
    rw [result]
    exact ⟨⟨none, rfl⟩, Or.inl ⟨rfl, rfl⟩⟩
  | false =>
    have full : (existing.merge (freshCatalog directory found)).isEmpty = false := by
      rw [Catalog.isEmpty_merge, empty]
    simp only [old, perform_save_of_ready known plain.staging ready full] at result
    rw [result]
    exact ⟨⟨_, rfl⟩, Or.inr ⟨_, rfl⟩⟩

end Writing

end Place

/-- A run succeeds if all its places are ready in the beginning. -/
theorem succeeds_of_ready {options : Options} (keepsTexts : options.overwrite = false)
    (found : List Outcome) {tree : FileTree} {places : List (String × String)}
    (known : ∀ place ∈ places, Locale.isRecognized place.2 = true)
    (plain : ∀ place ∈ places, tree.Plain place.2)
    (ready : ∀ place ∈ places, ∃ home annex, Ready tree place.1 place.2 home annex) :
    ∀ turn ∈ turnsFrom options found tree places,
      ∃ count, turn.result options found = .ok count := by
  induction places generalizing tree with
  | nil =>
    intro turn ht
    cases ht
  | cons place places ih =>
    obtain ⟨home, annex, mine⟩ := ready place (by simp)
    obtain ⟨done, later⟩ := performWrite_of_ready (known place (by simp)) (plain place (by simp))
      mine keepsTexts found
    have rest : ∀ turn ∈ turnsFrom options found (performWrite options found tree place).2 places,
        ∃ count, turn.result options found = .ok count := by
      refine ih (fun other ho => known other (by simp [ho])) (fun other ho => ?_) fun other ho => ?_
      · have plainToo := plain other (by simp [ho])
        rcases later with ⟨-, same⟩ | ⟨text, wrote⟩
        · rw [same]
          exact plainToo
        · rw [wrote]
          exact plain_saved plainToo text
      · obtain ⟨near, far, readyToo⟩ := ready other (by simp [ho])
        rcases later with ⟨-, same⟩ | ⟨text, wrote⟩
        · rw [same]
          exact ⟨near, far, readyToo⟩
        · rw [wrote]
          exact ⟨near, far, mine.saved (known place (by simp)) readyToo text⟩
    intro turn ht
    rcases List.mem_cons.mp ht with rfl | ht
    · exact done
    · exact rest turn ht

end Phrasebook.Extraction
