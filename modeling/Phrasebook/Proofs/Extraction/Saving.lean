import Phrasebook.Proofs.Extraction.Ready
import Phrasebook.Proofs.Files.Again

/-!
The ways in which the saving of a catalog ends, and what saving it once more comes to.
-/

set_option autoImplicit false

namespace Phrasebook

namespace Catalog

/-- The paths that the saving of a catalog asks for: those of the catalog and of the file beside it, and
those of the directories that they are in. -/
def pathsOf (path : String) : List String :=
  path :: stagingPath path ::
    match Path.parent? path with
    | some parent => Change.withAncestors parent
    | none => []

theorem self_mem_pathsOf (path : String) : path ∈ pathsOf path := by simp [pathsOf]

theorem stagingPath_mem_pathsOf (path : String) : stagingPath path ∈ pathsOf path := by
  simp [pathsOf]

theorem withAncestors_subset_pathsOf {path parent : String}
    (found : Path.parent? path = some parent) : Change.withAncestors parent ⊆ pathsOf path := by
  intro other ho
  simp [pathsOf, found, ho]

end Catalog

namespace FileTree

open Catalog (filePath stagingPath fileName stagingName)

section Beside

variable {directory locale : String} (known : Locale.isRecognized locale = true)
  (full : directory ≠ "")

include known full

omit full in
theorem wayIn_stagingPath (tree : FileTree) (sound : pathFault? (filePath directory locale) = none)
    (soundBeside : pathFault? (stagingPath (filePath directory locale)) = none) :
    tree.wayIn (stagingPath (filePath directory locale)) =
      tree.wayIn (filePath directory locale) :=
  wayIn_beside (Catalog.piecesOf_filePath known directory) (.of_isName (Catalog.isName_fileName known))
    (Catalog.isName_stagingName known) sound soundBeside

theorem exists_parent :
    ∃ parent, Path.parent? (filePath directory locale) = some parent ∧ parent ≠ "" := by
  obtain ⟨parent, found, parts⟩ := Catalog.exists_parent?_filePath known full
  exact ⟨parent, found, Path.ne_empty_of_parts_eq parts full⟩

theorem isDirectory_of_makeParent {tree made : FileTree}
    (done : tree.perform (Catalog.makeParent (filePath directory locale)) = (.ok (), made)) :
    ∃ parent, Path.parent? (filePath directory locale) = some parent ∧
      made.isDirectory parent = true := by
  obtain ⟨parent, found, named⟩ := exists_parent known full
  refine ⟨parent, found, isDirectory_of_makeDirectories named (?_ : tree.perform _ = _)⟩
  rw [perform_makeParent, found] at done
  simp only [perform_step] at done
  rcases steps : tree.perform (Change.makeDirectories parent) with ⟨_ | _, later⟩
  · rw [steps] at done
    cases done
  · rw [steps] at done
    rw [← (Prod.mk.inj done).2]

end Beside

theorem perform_makeParent_of_isDirectory {tree : FileTree} {path parent : String}
    (found : Path.parent? path = some parent) (there : tree.isDirectory parent = true) :
    tree.perform (Catalog.makeParent path) = (.ok (), tree) := by
  rw [perform_makeParent, found]
  simp only [perform_step, perform_makeDirectories_of_isDirectory there]
  rfl

end FileTree

namespace Extraction

open Catalog (filePath stagingPath fileName stagingName makeParent FileError)

/-- How the saving of a text as the catalog of a locale in a directory ends. -/
inductive Saves (tree : FileTree) (directory locale text : String) :
    Except FileError Bool → FileTree → Prop
  | unmade {error : FileError} {made : FileTree}
      (parent : tree.perform (makeParent (filePath directory locale)) = (.error error, made)) :
      Saves tree directory locale text (.error error) made
  | unwritten {error : FileError} {fault : Fault} {made : FileTree}
      (parent : tree.perform (makeParent (filePath directory locale)) = (.ok (), made))
      (write : made.perform (Change.write (stagingPath (filePath directory locale)) (.text text)) =
        (.error fault, made)) :
      Saves tree directory locale text (.error error) made
  | unmoved {error : FileError} {made : FileTree} {home : Names}
      (parent : tree.perform (makeParent (filePath directory locale)) = (.ok (), made))
      (way : made.wayIn (stagingPath (filePath directory locale)) = .ok home)
      (takes : made.TakesFile (home ++ [stagingName locale]))
      (stuck : FileTree.pathFault? (filePath directory locale) = none →
        made.item? (home ++ [fileName locale]) = some .directory) :
      Saves tree directory locale text (.error error)
        ((made.put (home ++ [stagingName locale]) (.file (.text text))).erase
          (home ++ [stagingName locale]))
  | saved {made : FileTree} {home : Names}
      (parent : tree.perform (makeParent (filePath directory locale)) = (.ok (), made))
      (way : made.wayIn (filePath directory locale) = .ok home)
      (wayBeside : made.wayIn (stagingPath (filePath directory locale)) = .ok home)
      (takes : made.TakesFile (home ++ [stagingName locale]))
      (target : made.item? (home ++ [fileName locale]) ≠ some .directory) :
      Saves tree directory locale text (.ok true) (saved made home home locale text)

theorem saves_of_save {directory locale : String} (known : Locale.isRecognized locale = true)
    {tree later : FileTree} {result : Except FileError Bool}
    (unlinked : tree.Unlinked (stagingName locale)) {catalog : Catalog}
    (filled : catalog.isEmpty = false)
    (done : tree.perform (catalog.save (filePath directory locale)) = (result, later)) :
    Saves tree directory locale catalog.render result later := by
  have lastBeside := Catalog.piecesOf_stagingPath known directory
  have properBeside := Catalog.isName_stagingName known
  rw [FileTree.perform_save tree filled] at done
  rcases parent : tree.perform (makeParent (filePath directory locale)) with ⟨error | _, made⟩
  · rw [parent] at done
    obtain ⟨rfl, rfl⟩ := Prod.mk.inj done
    exact .unmade parent
  have grows : tree.Grows made := by
    have grows := FileTree.grows_makeParent tree (filePath directory locale)
    rwa [parent] at grows
  have unlinkedMade := FileTree.unlinked_of_links (FileTree.links_of_grows grows) unlinked
  simp only [parent] at done
  rcases write : made.perform (Change.write (stagingPath (filePath directory locale))
    (.text catalog.render)) with ⟨fault | _, written⟩
  · obtain ⟨rfl, -⟩ := FileTree.perform_write_of_leadsTo rfl write
    rw [write] at done
    obtain ⟨rfl, rfl⟩ := Prod.mk.inj done
    exact .unwritten parent write
  obtain ⟨home, way, takes, rfl⟩ := FileTree.exists_of_write lastBeside properBeside unlinkedMade write
  simp only [write] at done
  have moves := FileTree.rename_cases (Catalog.piecesOf_filePath known directory)
    (.of_isName (Catalog.isName_fileName known)) properBeside way takes catalog.render
  simp only [Catalog.nameBeside_fileName] at moves
  rcases moves with ⟨stuck, fault, moved⟩ | ⟨wayToo, target, moved⟩
  · simp only [moved, FileTree.perform_remove,
      FileTree.locate_put lastBeside properBeside way takes (.text catalog.render)] at done
    obtain ⟨rfl, rfl⟩ := Prod.mk.inj done
    exact .unmoved parent way takes stuck
  · simp only [moved] at done
    obtain ⟨rfl, rfl⟩ := Prod.mk.inj done
    exact .saved parent wayToo way takes target

/-- A later tree with new directories, where files beside catalogs have changed, and else only what the
names stand for, if any are given. -/
structure Spares (tree later : FileTree) (locale : String) (names : Option Names) : Prop where
  others : ∀ other, some other ≠ names → other.getLast? ≠ some (stagingName locale) →
    later.item? other = tree.item? other ∨
      tree.item? other = none ∧ later.item? other = some .directory
  links : ∀ other target, later.item? other = some (.link target) →
    tree.item? other = some (.link target)

structure Stores (tree later : FileTree) (directory locale text : String) (home : Names) : Prop where
  spares : Spares tree later locale (some (home ++ [fileName locale]))
  there : later.item? (home ++ [fileName locale]) = some (.file (.text text))
  free : later.item? (home ++ [stagingName locale]) = none
  soundBeside : FileTree.pathFault? (stagingPath (filePath directory locale)) = none
  /-- The catalog was in that directory before if it was anywhere. -/
  before : ∀ other, tree.wayIn (filePath directory locale) = .ok other → other = home
  after : ∀ other, later.wayIn (filePath directory locale) = .ok other → other = home

section Made

variable {tree made : FileTree} {path : String} {result : Except FileError Unit}
  (parent : tree.perform (makeParent path) = (result, made))

include parent

private theorem grows_of_makeParent : tree.Grows made := by
  have grows := FileTree.grows_makeParent tree path
  rwa [parent] at grows

private theorem spares_of_makeParent (locale : String) (names : Option Names) :
    Spares tree made locale names :=
  ⟨fun other _ _ => (grows_of_makeParent parent).items other,
    FileTree.links_of_grows (grows_of_makeParent parent)⟩

end Made

namespace Saves

variable {tree later : FileTree} {directory locale text : String}

theorem spares_of_error {error : FileError}
    (saves : Saves tree directory locale text (.error error) later) :
    Spares tree later locale none := by
  cases saves with
  | unmade parent => exact spares_of_makeParent parent locale none
  | unwritten parent write => exact spares_of_makeParent parent locale none
  | unmoved parent way takes stuck =>
    rename_i made home
    have spares := spares_of_makeParent parent locale none
    refine ⟨fun other elsewhere notBeside => ?_, fun other target linked => ?_⟩
    · have away : other ≠ home ++ [stagingName locale] := by
        rintro rfl
        exact notBeside (by simp)
      rw [FileTree.item?_erase (by simp), if_neg away, FileTree.item?_put (by simp), if_neg away]
      exact spares.others other elsewhere notBeside
    · exact spares.links other target (FileTree.links_of_put takes _ other target
        (FileTree.links_of_erase (by simp) other target linked))

theorem exists_stores (known : Locale.isRecognized locale = true) {wrote : Bool}
    (saves : Saves tree directory locale text (.ok wrote) later) :
    wrote = true ∧ ∃ home, Stores tree later directory locale text home := by
  cases saves with
  | saved parent way wayBeside takes target =>
    rename_i made home
    have grows := grows_of_makeParent parent
    have different := Catalog.append_stagingName_ne known locale home home
    refine ⟨rfl, home, ⟨fun other elsewhere notBeside => ?_, fun other linkTarget linked => ?_⟩,
      ?_, ?_, FileTree.sound_of_wayIn wayBeside, fun other there => ?_, fun other there => ?_⟩
    · have away : other ≠ home ++ [stagingName locale] := by
        rintro rfl
        exact notBeside (by simp)
      rw [item?_saved, if_neg fun same => elsewhere (congrArg some same), if_neg away]
      exact grows.items other
    · exact FileTree.links_of_grows grows other linkTarget (item?_of_saved linked (by simp))
    · rw [item?_saved, if_pos rfl]
    · rw [item?_saved, if_neg different, if_pos rfl]
    · exact Except.ok.inj ((FileTree.wayIn_of_keeps grows.keeps there).symm.trans way)
    · -- What the way leads over is not the catalog itself, which is a file now.
      have keeps : (Extraction.saved made home home locale text).Keeps made :=
        ⟨rfl, fun _ found => item?_of_saved found (by simp),
          fun _ _ found => item?_of_saved found (by simp)⟩
      exact Except.ok.inj ((FileTree.wayIn_of_keeps keeps there).symm.trans way)

end Saves

section Again

variable {tree later next : FileTree} {directory locale text : String}
  (known : Locale.isRecognized locale = true) (full : directory ≠ "")
  (same : ∀ path ∈ Catalog.pathsOf (filePath directory locale), ∀ followsLast,
    next.leadsTo followsLast path = later.leadsTo followsLast path)

include known full same

theorem Stores.ready {home : Names} (stores : Stores tree later directory locale text home)
    {names : Names} {content : String}
    (found : later.locate false (filePath directory locale) =
      .ok (.item names (.file (.text content)))) :
    Ready next directory locale home home ∧
      (∃ old, next.item? (home ++ [fileName locale]) = some (.file (.text old))) ∧
        next.item? (home ++ [stagingName locale]) = none := by
  have last := Catalog.piecesOf_filePath known directory
  have proper := Catalog.isName_fileName known
  have lastBeside := Catalog.piecesOf_stagingPath known directory
  have properBeside := Catalog.isName_stagingName known
  -- The catalog.
  obtain ⟨other, way, spot⟩ := FileTree.exists_wayIn_of_locate last proper found
  obtain rfl := stores.after other way
  obtain ⟨rfl, -⟩ := FileTree.item?_of_spotAt_item spot
  obtain ⟨item, located, outline⟩ := FileTree.leadsTo_eq_item.mp
    ((same _ (Catalog.self_mem_pathsOf _) false).trans
      (FileTree.leadsTo_eq_item.mpr ⟨_, found, rfl⟩))
  obtain ⟨old, rfl⟩ := Item.outline_eq_text outline
  obtain ⟨home, nextWay, nextSpot⟩ := FileTree.exists_wayIn_of_locate last proper located
  obtain ⟨there, nextItem⟩ := FileTree.item?_of_spotAt_item nextSpot
  obtain rfl := List.append_cancel_right there
  -- The file beside it.
  have wayBeside := FileTree.wayIn_stagingPath known later (FileTree.sound_of_wayIn way)
    stores.soundBeside
  have free : later.locate false (stagingPath (filePath directory locale)) =
      .ok (.free (home ++ [stagingName locale])) := by
    rw [FileTree.locate_false_eq_wayIn _ lastBeside properBeside, wayBeside, way]
    simp [Except.map, FileTree.spotAt, stores.free]
  have nextFree := FileTree.leadsTo_eq_free.mp
    ((same _ (Catalog.stagingPath_mem_pathsOf _) false).trans (FileTree.leadsTo_eq_free.mpr free))
  obtain ⟨annex, nextWayBeside, spotBeside⟩ :=
    FileTree.exists_wayIn_of_locate lastBeside properBeside nextFree
  obtain ⟨beside, itemBeside⟩ := FileTree.item?_of_spotAt_free spotBeside
  obtain rfl := List.append_cancel_right beside
  -- The directory of both.
  obtain ⟨parent, inside, named⟩ := FileTree.exists_parent known full
  refine ⟨⟨⟨parent, inside, ?_⟩, nextWay, nextWayBeside, ?_, Or.inl itemBeside⟩,
    ⟨old, nextItem⟩, itemBeside⟩
  · exact FileTree.isDirectory_parent? inside named (Catalog.ends_filePath directory locale) located
  · intro other there
    rw [nextItem] at there
    exact ⟨old, (Option.some.inj there).symm⟩

private theorem perform_makeParent_again {error : FileError}
    (failed : tree.perform (makeParent (filePath directory locale)) = (.error error, later)) :
    ∃ again, next.perform (makeParent (filePath directory locale)) = (.error again, next) := by
  obtain ⟨parent, inside, -⟩ := FileTree.exists_parent known full
  rw [FileTree.perform_makeParent, inside] at failed ⊢
  simp only [FileTree.perform_step] at failed ⊢
  rcases steps : tree.perform (Change.makeDirectories parent) with ⟨fault | _, made⟩
  · rw [steps] at failed
    obtain rfl : made = later := (Prod.mk.inj failed).2
    obtain ⟨again, fails⟩ := FileTree.perform_makeDirectories_again (Path.ends_parent? inside) steps
      fun other ho => same other (Catalog.withAncestors_subset_pathsOf inside ho)
    rw [fails]
    exact ⟨_, rfl⟩
  · rw [steps] at failed
    cases failed

private theorem perform_makeParent_of_made {made : FileTree}
    (done : tree.perform (makeParent (filePath directory locale)) = (.ok (), made))
    (keeps : made.Keeps later) :
    next.perform (makeParent (filePath directory locale)) = (.ok (), next) := by
  obtain ⟨parent, inside, there⟩ := FileTree.isDirectory_of_makeParent known full done
  have asked := Catalog.withAncestors_subset_pathsOf inside (FileTree.self_mem_withAncestors parent)
  refine FileTree.perform_makeParent_of_isDirectory inside ?_
  rw [FileTree.isDirectory_of_leadsTo (same parent asked true)]
  exact FileTree.isDirectory_of_keeps keeps there

section Unmoved

variable {made : FileTree} {home : Names} {content : Content}
  (way : made.wayIn (stagingPath (filePath directory locale)) = .ok home)
  (takes : made.TakesFile (home ++ [stagingName locale]))
  (erased : later = (made.put (home ++ [stagingName locale]) (.file content)).erase
    (home ++ [stagingName locale]))

include way takes erased

omit known full same way in
private theorem keeps_of_erased : made.Keeps later := by
  rw [erased]
  refine (FileTree.keeps_put takes _).trans (FileTree.keeps_erase (Or.inr ⟨content, ?_⟩))
  rw [FileTree.item?_put takes.below, if_pos rfl]

omit full in
private theorem locate_stagingPath_again (followsLast : Bool) :
    next.locate followsLast (stagingPath (filePath directory locale)) =
      .ok (.free (home ++ [stagingName locale])) := by
  have wayBeside := FileTree.wayIn_of_keeps (keeps_of_erased takes erased) way
  have gone : later.item? (home ++ [stagingName locale]) = none := by
    rw [erased, FileTree.item?_erase takes.below, if_pos rfl]
  refine FileTree.leadsTo_eq_free.mp ((same _ (Catalog.stagingPath_mem_pathsOf _) _).trans
    (FileTree.leadsTo_eq_free.mpr ?_))
  rw [FileTree.locate_of_wayIn (Catalog.piecesOf_stagingPath known directory)
    (Catalog.isName_stagingName known) wayBeside (by simp [gone])]
  simp [FileTree.spotAt, gone]

omit full in
private theorem perform_rename_again
    (stuck : FileTree.pathFault? (filePath directory locale) = none →
      made.item? (home ++ [fileName locale]) = some .directory)
    (nextWay : next.wayIn (stagingPath (filePath directory locale)) = .ok home)
    (nextFree : next.item? (home ++ [stagingName locale]) = none) (other : Content) :
    ∃ fault, (next.put (home ++ [stagingName locale]) (.file other)).perform
        (Change.rename (stagingPath (filePath directory locale)) (filePath directory locale)) =
      (.error fault, next.put (home ++ [stagingName locale]) (.file other)) := by
  have last := Catalog.piecesOf_filePath known directory
  have proper := Catalog.isName_fileName known
  have beside := FileTree.locate_put (Catalog.piecesOf_stagingPath known directory)
    (Catalog.isName_stagingName known) nextWay (Or.inl nextFree) other
  rw [FileTree.perform_rename _ _ last proper.full proper.here proper.up, beside]
  simp only
  cases sound : FileTree.pathFault? (filePath directory locale) with
  | some fault =>
    rw [FileTree.locate_eq, sound]
    exact ⟨fault, rfl⟩
  | none =>
    have soundBeside := FileTree.sound_of_wayIn way
    have sameWay : ∀ tree : FileTree,
        tree.wayIn (filePath directory locale) =
          tree.wayIn (stagingPath (filePath directory locale)) :=
      fun tree => (FileTree.wayIn_stagingPath known tree sound soundBeside).symm
    have keeps := keeps_of_erased takes erased
    -- The directory in the place of the catalog is still there.
    have blocked : later.locate false (filePath directory locale) =
        .ok (.item (home ++ [fileName locale]) .directory) := by
      rw [FileTree.locate_false_eq_wayIn _ last proper, sameWay, FileTree.wayIn_of_keeps keeps way]
      simp [Except.map, FileTree.spotAt, keeps.directories _ (stuck sound)]
    obtain ⟨item, located, outline⟩ := FileTree.leadsTo_eq_item.mp
      ((same _ (Catalog.self_mem_pathsOf _) false).trans
        (FileTree.leadsTo_eq_item.mpr ⟨_, blocked, rfl⟩))
    obtain rfl := Item.outline_eq_directory.mp outline
    obtain ⟨inner, innerWay, spot⟩ := FileTree.exists_wayIn_of_locate last proper located
    obtain ⟨-, there⟩ := FileTree.item?_of_spotAt_item spot
    have different := Catalog.append_stagingName_ne known locale home home
    rw [FileTree.locate_false_eq_wayIn _ last proper, sameWay,
      FileTree.wayIn_of_keeps (FileTree.keeps_put (Or.inl nextFree) _) nextWay]
    simp only [Except.map, FileTree.spotAt, FileTree.item?_put (List.append_ne_nil_of_right_ne_nil _
      (List.cons_ne_nil _ _)), if_neg different.symm, there]
    exact ⟨_, rfl⟩

end Unmoved

/-- Where saving has failed it fails again, and leaves everything as it is. -/
theorem Saves.fails_again {error : FileError}
    (saves : Saves tree directory locale text (.error error) later) {catalog : Catalog}
    (filled : catalog.isEmpty = false) :
    ∃ again last, next.perform (catalog.save (filePath directory locale)) = (.error again, last) ∧
      last.place = next.place ∧ ∀ names, last.item? names = next.item? names := by
  rw [FileTree.perform_save next filled]
  cases saves with
  | unmade failed =>
    obtain ⟨again, fails⟩ := perform_makeParent_again known full same failed
    rw [fails]
    exact ⟨again, next, rfl, rfl, fun _ => rfl⟩
  | unwritten done write =>
    obtain ⟨-, fails⟩ := FileTree.perform_write_of_leadsTo
      (same _ (Catalog.stagingPath_mem_pathsOf _) true) write
    rw [perform_makeParent_of_made known full same done (.refl later)]
    simp only [fails]
    exact ⟨_, next, rfl, rfl, fun _ => rfl⟩
  | unmoved done way takes stuck =>
    rename_i made home
    have lastBeside := Catalog.piecesOf_stagingPath known directory
    have properBeside := Catalog.isName_stagingName known
    -- The file beside the catalog is written again, stays there again, and is removed again.
    have free := locate_stagingPath_again known same way takes rfl
    obtain ⟨inner, nextWay, spot⟩ :=
      FileTree.exists_wayIn_of_locate lastBeside properBeside (free false)
    obtain ⟨beside, nextFree⟩ := FileTree.item?_of_spotAt_free spot
    obtain rfl := List.append_cancel_right beside
    obtain ⟨fault, stays⟩ := perform_rename_again known same way takes rfl stuck nextWay nextFree
      (.text catalog.render)
    have written := FileTree.locate_put lastBeside properBeside nextWay (Or.inl nextFree)
      (.text catalog.render)
    rw [perform_makeParent_of_made known full same done (keeps_of_erased takes rfl)]
    simp only [FileTree.perform_write, free, stays, FileTree.perform_remove, written]
    refine ⟨_, _, rfl, rfl, fun names => ?_⟩
    rw [FileTree.item?_erase takes.below, FileTree.item?_put takes.below]
    split
    · rename_i here
      rw [here, nextFree]
    · rfl

end Again

end Extraction

end Phrasebook
