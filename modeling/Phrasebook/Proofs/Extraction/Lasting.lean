import Phrasebook.Proofs.Extraction.Rerun

/-!
What lasts in an extraction over a tree without links in the place of catalogs. A catalog that was
written, and the paths that its writing asks for, stay where they are.
-/

set_option autoImplicit false

namespace Phrasebook.Extraction

open Catalog (filePath stagingPath fileName stagingName makeParent FileError)

/-- A later tree, where catalogs of the locales are written, and files beside them have come and gone:
directories and links are as before, catalogs are still there, and else there are new directories. -/
structure Lasts (locales : List String) (tree later : FileTree) : Prop where
  keeps : tree.Keeps later
  links : ∀ other target, later.item? other = some (.link target) →
    tree.item? other = some (.link target)
  catalogs : ∀ home locale, Locale.isRecognized locale = true →
    (∃ text, tree.item? (home ++ [fileName locale]) = some (.file (.text text))) →
      ∃ text, later.item? (home ++ [fileName locale]) = some (.file (.text text))
  free : ∀ names, (∀ locale ∈ locales, names.getLast? ≠ some (fileName locale)) →
    tree.item? names = none → later.item? names = none ∨ later.item? names = some .directory
  others : ∀ names item, (∀ locale ∈ locales, names.getLast? ≠ some (fileName locale) ∧
      names.getLast? ≠ some (stagingName locale)) →
    tree.item? names = some item → later.item? names = some item

namespace Lasts

variable {locales : List String} {tree next later : FileTree}

theorem refl (locales : List String) (tree : FileTree) : Lasts locales tree tree :=
  ⟨.refl tree, fun _ _ h => h, fun _ _ _ h => h, fun _ _ h => Or.inl h, fun _ _ _ h => h⟩

theorem trans (first : Lasts locales tree next) (second : Lasts locales next later) :
    Lasts locales tree later := by
  refine ⟨first.keeps.trans second.keeps, fun other target h => ?_, fun home locale known h => ?_,
    fun names plain h => ?_, fun names item plain h => ?_⟩
  · exact first.links other target (second.links other target h)
  · exact second.catalogs home locale known (first.catalogs home locale known h)
  · rcases first.free names plain h with free | made
    · exact second.free names plain free
    · exact Or.inr (second.keeps.directories names made)
  · exact second.others names item plain (first.others names item plain h)

theorem of_grows (grows : tree.Grows later) : Lasts locales tree later := by
  have stays : ∀ names item, tree.item? names = some item → later.item? names = some item := by
    intro names item there
    rcases grows.items names with same | ⟨free, -⟩
    · rw [same, there]
    · rw [free] at there
      cases there
  refine ⟨grows.keeps, FileTree.links_of_grows grows, fun home locale _ ⟨text, there⟩ => ?_,
    fun names _ free => ?_, fun names item _ there => stays names item there⟩
  · exact ⟨text, stays _ _ there⟩
  · rcases grows.items names with same | ⟨-, made⟩
    · exact Or.inl (same.trans free)
    · exact Or.inr made

theorem readText_eq (lasts : Lasts locales tree later) {path : String} {names : Names}
    {content : Content} (there : tree.locate true path = .ok (.item names (.file content)))
    (elsewhere : ∀ locale ∈ locales, names.getLast? ≠ some (fileName locale) ∧
      names.getLast? ≠ some (stagingName locale)) :
    later.readText path = tree.readText path := by
  have item := FileTree.item?_of_locate there (by simp)
  have still := lasts.others names _ elsewhere item
  have same : later.leadsTo true path = tree.leadsTo true path := by
    refine FileTree.leadsTo_of_keeps lasts.keeps there ?_
    simp only [FileTree.Spot.names]
    rw [still, item]
  obtain ⟨found, located, outline⟩ := FileTree.leadsTo_eq_item.mp
    (same.trans (FileTree.leadsTo_eq_item.mpr ⟨_, there, rfl⟩))
  obtain ⟨other, rfl⟩ := Item.exists_file_of_outline outline.symm rfl
  have here : Item.file other = .file content :=
    Option.some.inj ((FileTree.item?_of_locate located (by simp)).symm.trans still)
  obtain rfl := Item.file.inj here
  rw [FileTree.readText, FileTree.readText, FileTree.resolve, FileTree.resolve, located, there]

end Lasts

section One

variable {locales : List String} {tree later : FileTree} {directory locale text : String}
  {result : Except FileError Bool}

section Made

variable {made : FileTree} {home : Names} (mine : locale ∈ locales)
  (takes : made.TakesFile (home ++ [stagingName locale]))

include mine takes

private theorem lasts_erase (content : Content) :
    Lasts locales made ((made.put (home ++ [stagingName locale]) (.file content)).erase
      (home ++ [stagingName locale])) := by
  have items : ∀ names, ((made.put (home ++ [stagingName locale]) (.file content)).erase
      (home ++ [stagingName locale])).item? names =
        if names = home ++ [stagingName locale] then none else made.item? names := by
    intro names
    rw [FileTree.item?_erase takes.below, FileTree.item?_put takes.below]
    split <;> rfl
  have written : (made.put (home ++ [stagingName locale]) (.file content)).TakesFile
      (home ++ [stagingName locale]) :=
    Or.inr ⟨content, by rw [FileTree.item?_put takes.below, if_pos rfl]⟩
  refine ⟨(FileTree.keeps_put takes _).trans (FileTree.keeps_erase written),
    fun other target h => ?_, fun inner other known there => ?_, fun names _ free => ?_,
    fun names item plain there => ?_⟩
  · exact FileTree.links_of_put takes content other target
      (FileTree.links_of_erase takes.below other target h)
  · rwa [items, if_neg (Catalog.append_stagingName_ne known locale home inner).symm]
  · rw [items]
    split
    · exact Or.inl rfl
    · exact Or.inl free
  · have away : names ≠ home ++ [stagingName locale] := by
      rintro rfl
      exact (plain locale mine).2 (by simp)
    rw [items, if_neg away, there]

omit takes in
private theorem lasts_put (target : made.TakesFile (home ++ [fileName locale])) (text : String) :
    Lasts locales made (made.put (home ++ [fileName locale]) (.file (.text text))) := by
  refine ⟨FileTree.keeps_put target _, fun other linkTarget h => ?_, fun inner other _ there => ?_,
    fun names plain free => ?_, fun names item plain there => ?_⟩
  · exact FileTree.links_of_put target (.text text) other linkTarget h
  · rw [FileTree.item?_put target.below]
    split
    · exact ⟨text, rfl⟩
    · exact there
  · have away : names ≠ home ++ [fileName locale] := by
      rintro rfl
      exact plain locale mine (by simp)
    rw [FileTree.item?_put target.below, if_neg away]
    exact Or.inl free
  · have away : names ≠ home ++ [fileName locale] := by
      rintro rfl
      exact (plain locale mine).1 (by simp)
    rw [FileTree.item?_put target.below, if_neg away, there]

private theorem lasts_saved (target : made.TakesFile (home ++ [fileName locale])) (text : String) :
    Lasts locales made (saved made home home locale text) := by
  refine (lasts_erase mine takes (.text text)).trans (lasts_put mine ?_ text)
  unfold FileTree.TakesFile
  rw [FileTree.item?_erase takes.below, FileTree.item?_put takes.below]
  split
  · exact Or.inl rfl
  · exact target

end Made

private theorem grows_of_done {made : FileTree} {outcome : Except FileError Unit}
    (parent : tree.perform (makeParent (filePath directory locale)) = (outcome, made)) :
    tree.Grows made := by
  have grows := FileTree.grows_makeParent tree (filePath directory locale)
  rwa [parent] at grows

private theorem takesFile_of_unlinked {made : FileTree} {home : Names}
    (grows : tree.Grows made) (unlinked : tree.Unlinked (fileName locale))
    (solid : made.item? (home ++ [fileName locale]) ≠ some .directory) :
    made.TakesFile (home ++ [fileName locale]) := by
  cases there : made.item? (home ++ [fileName locale]) with
  | none => exact Or.inl there
  | some item =>
    cases item with
    | file content => exact Or.inr ⟨content, there⟩
    | directory => exact absurd there solid
    | link target =>
      have before := FileTree.links_of_grows grows _ _ there
      exact absurd (by simp) (unlinked _ target before)

theorem Saves.lasts (saves : Saves tree directory locale text result later)
    (mine : locale ∈ locales) (unlinked : tree.Unlinked (fileName locale)) :
    Lasts locales tree later := by
  cases saves with
  | unmade parent => exact .of_grows (grows_of_done parent)
  | unwritten parent write => exact .of_grows (grows_of_done parent)
  | unmoved parent way takes stuck =>
    exact (Lasts.of_grows (grows_of_done parent)).trans (lasts_erase mine takes (.text text))
  | saved parent way wayBeside takes target =>
    have grows := grows_of_done parent
    exact (Lasts.of_grows grows).trans
      (lasts_saved mine takes (takesFile_of_unlinked grows unlinked target) text)

theorem Saves.leadsTo (recognized : ∀ locale ∈ locales, Locale.isRecognized locale = true)
    (full : directory ≠ "") {wrote : Bool}
    (saves : Saves tree directory locale text (.ok wrote) later) (mine : locale ∈ locales)
    (unlinked : tree.Unlinked (fileName locale)) {last : FileTree}
    (lasts : Lasts locales later last)
    (vacant : ∀ home, last.item? (home ++ [stagingName locale]) ≠ some .directory) :
    (∃ names, later.locate false (filePath directory locale) =
        .ok (.item names (.file (.text text)))) ∧
      ∀ path ∈ Catalog.pathsOf (filePath directory locale), ∀ followsLast,
        last.leadsTo followsLast path = later.leadsTo followsLast path := by
  have known := recognized locale mine
  cases saves with
  | saved parent way wayBeside takes target =>
    rename_i made home
    have grows := grows_of_done parent
    have keeps := (lasts_saved mine takes (takesFile_of_unlinked grows unlinked target) text).keeps
    have there : (Extraction.saved made home home locale text).item? (home ++ [fileName locale]) =
        some (.file (.text text)) := by
      rw [item?_saved, if_pos rfl]
    have free : (Extraction.saved made home home locale text).item? (home ++ [stagingName locale]) = none := by
      rw [item?_saved, if_neg (Catalog.append_stagingName_ne known locale home home), if_pos rfl]
    have located := FileTree.locate_of_wayIn (Catalog.piecesOf_filePath known directory)
      (Catalog.isName_fileName known) (FileTree.wayIn_of_keeps keeps way) (by simp [there])
    have locatedBeside := FileTree.locate_of_wayIn (Catalog.piecesOf_stagingPath known directory)
      (Catalog.isName_stagingName known) (FileTree.wayIn_of_keeps keeps wayBeside) (by simp [free])
    simp only [FileTree.spotAt, there] at located
    simp only [FileTree.spotAt, free] at locatedBeside
    refine ⟨⟨_, located false⟩, fun path asked followsLast => ?_⟩
    rcases List.mem_cons.mp asked with rfl | asked
    · -- The catalog, perhaps with another text.
      refine FileTree.leadsTo_of_keeps lasts.keeps (located followsLast) ?_
      obtain ⟨other, still⟩ := lasts.catalogs home locale known ⟨text, there⟩
      simp only [FileTree.Spot.names]
      rw [still, there]
      rfl
    rcases List.mem_cons.mp asked with rfl | asked
    · -- The file beside it, which is gone: its name is free, and stays so.
      refine FileTree.leadsTo_of_keeps lasts.keeps (locatedBeside followsLast) ?_
      have notCatalog : ∀ other ∈ locales,
          (home ++ [stagingName locale]).getLast? ≠ some (fileName other) := by
        intro other ho
        simpa using (Catalog.fileName_ne_stagingName (recognized other ho)).symm
      rcases lasts.free _ notCatalog free with still | made
      · simp only [FileTree.Spot.names]
        rw [still, free]
      · exact absurd made (vacant home)
    · -- The directories that they are in.
      obtain ⟨outer, inside, inDirectory⟩ := FileTree.isDirectory_of_makeParent known full parent
      rw [inside] at asked
      have inSaved := FileTree.isDirectory_of_keeps keeps inDirectory
      rcases FileTree.isDirectory_of_mem_withAncestors (Or.inr inSaved)
        asked with rfl | ancestor
      · have fault : FileTree.pathFault? "" = some .notFound := by decide
        rw [FileTree.leadsTo, FileTree.leadsTo, FileTree.locate_eq, FileTree.locate_eq, fault]
      · exact FileTree.leadsTo_of_isDirectory lasts.keeps ancestor followsLast

end One

variable {options : Options} {found : List Outcome} {tree : FileTree} {place : String × String}
  {places : List (String × String)}

structure Unhindered (options : Options) (tree : FileTree) (places : List (String × String)) :
    Prop where
  known : ∀ locale ∈ options.locales, Locale.isRecognized locale = true
  locales : ∀ place ∈ places, place.2 ∈ options.locales
  full : ∀ place ∈ places, place.1 ≠ ""
  plain : ∀ locale ∈ options.locales, tree.Plain locale

namespace Unhindered

private theorem lasts_head (run : Unhindered options tree (place :: places)) (found : List Outcome) :
    Lasts options.locales tree (performWrite options found tree place).2 := by
  have mine := run.locales place (by simp)
  have plain := run.plain _ mine
  rcases @performWrite_saves options found tree place.1 place.2 (run.known _ mine)
    plain.staging with
    ⟨-, same, -⟩ | ⟨-, existing, result, -, saves, -⟩
  · rw [same]
    exact .refl _ tree
  · exact saves.lasts mine plain.target

private theorem tail (run : Unhindered options tree (place :: places)) (found : List Outcome) :
    Unhindered options (performWrite options found tree place).2 places := by
  refine ⟨run.known, fun other ho => run.locales other (by simp [ho]),
    fun other ho => run.full other (by simp [ho]), fun locale hl => ?_⟩
  have links := (run.lasts_head found).links
  exact ⟨FileTree.unlinked_of_links links (run.plain locale hl).target,
    FileTree.unlinked_of_links links (run.plain locale hl).staging⟩

theorem lasts_treeAfter (run : Unhindered options tree places) (found : List Outcome) :
    Lasts options.locales tree (treeAfter options found tree places) := by
  induction places generalizing tree with
  | nil => exact .refl _ tree
  | cons place places ih => exact (run.lasts_head found).trans (ih (run.tail found))

/-- A turn that has succeeded is settled, unless a directory is made in the place of the file beside its
catalog. -/
theorem isSettled_of_result (run : Unhindered options tree places) {turn : Turn}
    (member : turn ∈ turnsFrom options found tree places)
    (filled : (turn.fresh found).isEmpty = false) {count : Option Nat}
    (done : turn.result options found = .ok count)
    (vacant : ∀ home, (treeAfter options found tree places).item?
      (home ++ [stagingName turn.locale]) ≠ some .directory) :
    turn.IsSettled options found (treeAfter options found tree places) := by
  induction places generalizing tree with
  | nil => cases member
  | cons place places ih =>
    rcases List.mem_cons.mp member with rfl | member
    · have mine := run.locales place (by simp)
      have plain := run.plain _ mine
      have full := run.full place (by simp)
      rcases @performWrite_saves options found tree place.1 place.2 (run.known _ mine)
        plain.staging with
        ⟨-, -, empty | ⟨error, -, failed⟩⟩ | ⟨-, existing, result, -, saves, outcome⟩
      · cases filled.symm.trans empty
      · cases done.symm.trans failed
      · cases result with
        | error error => cases done.symm.trans outcome
        | ok value =>
          have lasts := (run.tail found).lasts_treeAfter found
          obtain ⟨⟨names, there⟩, stays⟩ := saves.leadsTo run.known full mine plain.target lasts vacant
          exact ⟨stays, fun _ => ⟨names, _, there⟩⟩
    · exact ih (run.tail found) member vacant

end Unhindered

end Phrasebook.Extraction
