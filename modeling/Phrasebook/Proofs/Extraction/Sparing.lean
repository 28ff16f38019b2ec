import Phrasebook.Proofs.Extraction.Storing
import Phrasebook.Proofs.Files.Fallible

/-!
What the saving of a catalog may leave where a disk fails: new directories, and the file beside the
catalog.
-/

set_option autoImplicit false

namespace Phrasebook

theorem Path.not_mem_of_fileName? {path name : String} (found : fileName? path = some name) :
    '/' ∉ name.toList := by
  have member : Part.name name ∈ parts path := by
    unfold fileName? at found
    split at found
    · rename_i last
      obtain rfl := Option.some.inj found
      exact List.mem_of_getLast? last
    · cases found
  have piece : name ∈ (FileTree.piecesOf path).filter isSolid := by
    rw [filter_piecesOf]
    exact List.mem_filterMap.mpr ⟨_, member, rfl⟩
  exact FileTree.not_mem_of_mem_piecesOf (List.mem_filter.mp piece).1

namespace Catalog

def besideName (path : String) : String := nameBeside ((Path.fileName? path).getD "")

theorem getLast?_piecesOf_stagingPath (path : String) :
    (FileTree.piecesOf (stagingPath path)).getLast? = some (besideName path) := by
  have inside : '/' ∉ (besideName path).toList := by
    have own : '/' ∉ ((Path.fileName? path).getD "").toList := by
      cases found : Path.fileName? path with
      | none => simp
      | some name => exact Path.not_mem_of_fileName? found
    simpa [besideName, nameBeside, String.toList_append] using own
  change (FileTree.piecesOf (Path.withFileName path (besideName path))).getLast? = _
  unfold Path.withFileName
  split
  · exact FileTree.piecesOf_join inside _
  · exact FileTree.piecesOf_join inside _

end Catalog

namespace FileTree

open Catalog (stagingPath besideName getLast?_piecesOf_stagingPath nameBeside isEntry_nameBeside IsEntry
  makeParent)

/-- The tree where the directory of a path is made, as far as it can be made. -/
def prepared (tree : FileTree) (path : String) : FileTree := (tree.perform (makeParent path)).2

def IsBeside (tree : FileTree) (path : String) (names : Names) : Prop :=
  ∃ spot, (tree.prepared path).locate false (stagingPath path) = .ok spot ∧ spot.names = names

def IsPlainBeside (tree : FileTree) (path : String) : Prop :=
  ∀ names target,
    (tree.prepared path).locate false (stagingPath path) ≠ .ok (.item names (.link target))

/-- The names of a directory that is made for a path: it is the one that the path is in, or that one is
in it. -/
structure IsMadeFor (tree : FileTree) (path : String) (names : Names) : Prop where
  free : tree.item? names = none
  made : (tree.prepared path).item? names = some .directory
  above : ∃ parent, Path.parent? path = some parent ∧ ∃ outer ∈ Change.withAncestors parent,
    (tree.prepared path).locate true outer = .ok (.item names .directory)

/-- What stands under names later: the same, or a directory made for a path, or the file beside it. -/
inductive SparesAt (tree later : FileTree) (path : String) (names : Names) : Prop
  | same (same : later.item? names = tree.item? names)
  | made (new : tree.IsMadeFor path names) (there : later.item? names = some .directory)
  | beside (own : tree.IsBeside path names) (before : tree.TakesFile names)
      (after : later.TakesFile names)

/-- A later tree where nothing was saved under a path. What the path led to is as it was; a path that led
nowhere may lead over new directories, to one of them or to what was there already. -/
structure Unharmed (tree later : FileTree) (path : String) : Prop where
  place : later.place = tree.place
  items : ∀ names, SparesAt tree later path names
  entry : ∀ spot, tree.locate false path = .ok spot → later.locate false path = .ok spot
  arrival : ∀ names found, later.locate false path = .ok (.item names found) →
    later.item? names = some found → tree.item? names = some found ∨ tree.IsMadeFor path names

structure Cleared (tree later : FileTree) (path : String) : Prop where
  gone : ∀ names, tree.IsBeside path names → later.item? names = none
  nowhere : ∀ names found, later.locate false (stagingPath path) ≠ .ok (.item names found)

/-- A later tree where a text was saved under the names that a path led to. The path still leads there,
unless it led there over a link that the text has replaced. -/
structure Replaced (tree later : FileTree) (path : String) (names : Names) (text : String) : Prop where
  place : later.place = tree.place
  own : ∃ spot, (tree.prepared path).locate false path = .ok spot ∧ spot.names = names
  there : later.item? names = some (.file (.text text))
  entry : later.locate false path = .ok (.item names (.file (.text text))) ∨
    (∃ target, tree.item? names = some (.link target)) ∧
      ((tree.prepared path).erase names).locate false path ≠ .ok (.free names)
  others : ∀ other, other ≠ names → SparesAt tree later path other
  cleared : tree.Cleared later path

variable {tree made later : FileTree} {path : String}

theorem grows_prepared (tree : FileTree) (path : String) : tree.Grows (tree.prepared path) :=
  grows_makeParent tree path

private theorem exists_spotAt_of_locate {spot : Spot} (there : tree.locate false path = .ok spot)
    (solid : ∀ names, spot ≠ .item names .directory) :
    ∃ name home, (piecesOf path).getLast? = some name ∧ IsName name ∧
      tree.wayIn path = .ok home ∧ spot = tree.spotAt (home ++ [name]) := by
  obtain ⟨name, last, proper⟩ := exists_name_of_locate there solid
  obtain ⟨home, way, eq⟩ := exists_wayIn_of_locate last proper there
  exact ⟨name, home, last, proper, way, eq⟩

private theorem prepared_of_locate {name : String} (last : (piecesOf path).getLast? = some name)
    (proper : IsName name) {spot : Spot} (there : tree.locate false path = .ok spot) :
    tree.prepared path = tree := by
  unfold prepared
  cases found : Path.parent? path with
  | none => rw [perform_makeParent, found]
  | some parent =>
    by_cases full : parent = ""
    · subst full
      rw [perform_makeParent, found]
      rfl
    · have above := isDirectory_parent? found full (ends_of_getLast? proper last) there
      rw [perform_makeParent_of_isDirectory found above]

private theorem isMadeFor_of_prepared {names : Names} (free : tree.item? names = none)
    (there : (tree.prepared path).item? names = some .directory) : tree.IsMadeFor path names := by
  refine ⟨free, there, ?_⟩
  cases found : Path.parent? path with
  | none =>
    have same : tree.prepared path = tree := by rw [prepared, perform_makeParent, found]
    rw [same, free] at there
    cases there
  | some parent =>
    have same : tree.prepared path = (tree.perform (Change.makeDirectories parent)).2 := by
      rw [prepared, perform_makeParent, found]
      simp only [perform_step]
    rw [same] at there ⊢
    exact ⟨parent, rfl, exists_of_makeDirectories free there⟩

theorem sparesAt_of_grows (before : tree.Grows later) (after : later.Grows (tree.prepared path))
    (names : Names) : SparesAt tree later path names := by
  rcases before.items names with same | ⟨free, there⟩
  · exact .same same
  · exact .made (isMadeFor_of_prepared free (after.keeps.directories names there)) there

structure IsAnnex (made : FileTree) (path : String) (annex : Names) : Prop where
  proper : IsName (besideName path)
  way : made.wayIn (stagingPath path) = .ok annex
  takes : made.TakesFile (annex ++ [besideName path])

private theorem takesFile_of_grows (grows : tree.Grows later) {names : Names}
    (takes : later.TakesFile names) : tree.TakesFile names := by
  rcases takes with free | ⟨content, file⟩
  · exact Or.inl (grows.item?_none free)
  · exact Or.inr ⟨content, grows.item?_file file⟩

theorem names_spotAt (tree : FileTree) (names : Names) : (tree.spotAt names).names = names := by
  unfold spotAt
  split <;> rfl

theorem keeps_of_items (place : later.place = tree.place)
    (items : ∀ names item, tree.item? names = some item → (∀ content, item ≠ .file content) →
      later.item? names = some item) : tree.Keeps later := by
  refine ⟨place, ?_, ?_⟩
  · intro names there
    exact items names .directory there (by simp)
  · intro names target there
    exact items names (.link target) there (by simp)

private theorem IsBeside.getLast?_eq {names : Names} (own : tree.IsBeside path names) :
    names.getLast? = some (besideName path) := by
  obtain ⟨spot, located, rfl⟩ := own
  have last := getLast?_piecesOf_stagingPath path
  have proper := isName_of_locate last (isEntry_nameBeside _) located
  obtain ⟨annex, -, rfl⟩ := exists_wayIn_of_locate last proper located
  rw [names_spotAt, List.getLast?_concat]

theorem besideName_eq {name : String} (last : (piecesOf path).getLast? = some name)
    (entry : IsEntry name) : besideName path = nameBeside name := by
  rw [besideName, Path.fileName?_of_solid entry.full entry.here entry.up last, Option.getD_some]

private theorem not_isBeside {name : String} (last : (piecesOf path).getLast? = some name)
    (proper : IsName name) (home : Names) : ¬tree.IsBeside path (home ++ [name]) := by
  intro own
  have ends := own.getLast?_eq
  rw [List.getLast?_concat, besideName_eq last (.of_isName proper)] at ends
  exact Catalog.nameBeside_ne name (Option.some.inj ends).symm

section Annex

variable {annex : Names} (isAnnex : (tree.prepared path).IsAnnex path annex)

include isAnnex

private theorem isBeside_iff (names : Names) :
    tree.IsBeside path names ↔ names = annex ++ [besideName path] := by
  have located : (tree.prepared path).locate false (stagingPath path) =
      .ok ((tree.prepared path).spotAt (annex ++ [besideName path])) := by
    rw [locate_false_eq_wayIn _ (getLast?_piecesOf_stagingPath path) isAnnex.proper, isAnnex.way]
    rfl
  constructor
  · rintro ⟨spot, there, rfl⟩
    obtain rfl := Except.ok.inj (located.symm.trans there)
    exact names_spotAt _ _
  · rintro rfl
    exact ⟨_, located, names_spotAt _ _⟩

theorem sparesAt_of_elsewhere {names : Names}
    (elsewhere : names ≠ annex ++ [besideName path] →
      later.item? names = (tree.prepared path).item? names)
    (takes : later.TakesFile (annex ++ [besideName path])) : SparesAt tree later path names := by
  have grows := grows_prepared tree path
  by_cases here : names = annex ++ [besideName path]
  · subst here
    exact .beside ((isBeside_iff isAnnex _).mpr rfl) (takesFile_of_grows grows isAnnex.takes) takes
  · rcases grows.items names with same | ⟨free, there⟩
    · exact .same ((elsewhere here).trans same)
    · exact .made (isMadeFor_of_prepared free there) ((elsewhere here).trans there)

theorem cleared_of_gone (keeps : later.Keeps (tree.prepared path))
    (gone : later.item? (annex ++ [besideName path]) = none) : tree.Cleared later path := by
  refine ⟨fun names own => ?_, fun names found there => ?_⟩
  · rw [(isBeside_iff isAnnex names).mp own, gone]
  · obtain ⟨home, way, eq⟩ := exists_wayIn_of_locate (getLast?_piecesOf_stagingPath path)
      isAnnex.proper there
    obtain rfl : home = annex :=
      Except.ok.inj ((wayIn_of_keeps keeps way).symm.trans isAnnex.way)
    have item := (item?_of_spotAt_item eq).2
    rw [← (item?_of_spotAt_item eq).1, gone] at item
    cases item

end Annex

private theorem SparesAt.item?_eq {names : Names} (spares : SparesAt tree later path names)
    {item : Item} (there : tree.item? names = some item) (solid : ∀ content, item ≠ .file content) :
    later.item? names = some item := by
  cases spares with
  | same same => exact same.trans there
  | made new =>
    rw [new.free] at there
    cases there
  | beside own before after =>
    rcases before with free | ⟨content, file⟩
    · rw [free] at there
      cases there
    · exact absurd (Option.some.inj (there.symm.trans file)) (solid content)

theorem unharmed_of_sparesAt (place : later.place = tree.place)
    (items : ∀ names, SparesAt tree later path names) : tree.Unharmed later path := by
  have keeps : tree.Keeps later := keeps_of_items place fun names _ => (items names).item?_eq
  refine ⟨place, items, fun spot there => ?_, fun names found there item => ?_⟩
  · by_cases directory : ∃ names, spot = .item names .directory
    · obtain ⟨names, rfl⟩ := directory
      exact locate_directory_of_keeps keeps there
    obtain ⟨name, home, last, proper, way, rfl⟩ :=
      exists_spotAt_of_locate there (not_exists.mp directory)
    have prepared := prepared_of_locate last proper there
    have same : later.item? (home ++ [name]) = tree.item? (home ++ [name]) := by
      cases items (home ++ [name]) with
      | same same => exact same
      | made new =>
        have made := new.made
        rw [prepared, new.free] at made
        cases made
      | beside own => exact absurd own (not_isBeside last proper home)
    rw [locate_false_eq_wayIn later last proper, wayIn_of_keeps keeps way]
    simp only [Except.map, spotAt, same]
  · cases items names with
    | same same => exact Or.inl (same.symm.trans item)
    | made new => exact Or.inr new
    | beside own before after =>
      have solid : ∀ other, (.item names found : Spot) ≠ .item other .directory := by
        rintro other eq
        obtain ⟨-, rfl⟩ := Spot.item.inj eq
        rcases after with free | ⟨content, file⟩
        · rw [free] at item
          cases item
        · rw [file] at item
          cases item
      obtain ⟨name, home, last, proper, -, eq⟩ := exists_spotAt_of_locate there solid
      obtain rfl := (item?_of_spotAt_item eq).1
      exact absurd own (not_isBeside last proper home)

private theorem unharmed_of_elsewhere {annex : Names}
    (isAnnex : (tree.prepared path).IsAnnex path annex)
    (place : later.place = (tree.prepared path).place)
    (elsewhere : ∀ names, names ≠ annex ++ [besideName path] →
      later.item? names = (tree.prepared path).item? names)
    (takes : later.TakesFile (annex ++ [besideName path])) : tree.Unharmed later path := by
  refine unharmed_of_sparesAt (place.trans (grows_prepared tree path).place) fun names => ?_
  exact sparesAt_of_elsewhere isAnnex (elsewhere names) takes

theorem unharmed_of_put {annex : Names} (isAnnex : (tree.prepared path).IsAnnex path annex)
    (content : Content) :
    tree.Unharmed ((tree.prepared path).put (annex ++ [besideName path]) (.file content)) path := by
  have items := item?_put isAnnex.takes.below (tree.prepared path) (.file content)
  refine unharmed_of_elsewhere isAnnex (place_put _ _ _) (fun names away => ?_)
    (Or.inr ⟨content, ?_⟩)
  · rw [items, if_neg away]
  · rw [items, if_pos rfl]

theorem unharmed_of_erase {annex : Names} (isAnnex : (tree.prepared path).IsAnnex path annex)
    (content : Content) :
    let written := (tree.prepared path).put (annex ++ [besideName path]) (.file content)
    tree.Unharmed (written.erase (annex ++ [besideName path])) path ∧
      tree.Cleared (written.erase (annex ++ [besideName path])) path := by
  intro written
  have place : (written.erase (annex ++ [besideName path])).place = (tree.prepared path).place :=
    (place_erase _ _).trans (place_put _ _ _)
  have items : ∀ names, (written.erase (annex ++ [besideName path])).item? names =
      if names = annex ++ [besideName path] then none else (tree.prepared path).item? names := by
    intro names
    rw [item?_erase isAnnex.takes.below, item?_put isAnnex.takes.below]
    split <;> rfl
  have gone : (written.erase (annex ++ [besideName path])).item? (annex ++ [besideName path]) = none := by
    rw [items, if_pos rfl]
  constructor
  · refine unharmed_of_elsewhere isAnnex place (fun names away => ?_) (Or.inl gone)
    rw [items, if_neg away]
  · refine cleared_of_gone isAnnex (keeps_of_items place.symm fun names item found _ => ?_) gone
    rw [items] at found
    split at found
    · cases found
    · exact found

end FileTree

end Phrasebook
