import Phrasebook.Proofs.Extraction.Saving

/-!
The saving of a catalog under any path: the catalog takes the place of what bears the last name of the
path, or all files stay as they are.
-/

set_option autoImplicit false

namespace Phrasebook

namespace FileTree

open Catalog (stagingPath nameBeside isEntry_nameBeside IsEntry)

/-- What stands under names is the same later, or it is a new directory. -/
def StaysAt (tree later : FileTree) (names : Names) : Prop :=
  later.item? names = tree.item? names ∨
    tree.item? names = none ∧ later.item? names = some .directory

theorem StaysAt.trans {tree next later : FileTree} {names : Names}
    (first : StaysAt tree next names) (second : StaysAt next later names) :
    StaysAt tree later names := by
  rcases second with same | ⟨free, made⟩
  · rw [StaysAt, same]
    exact first
  · rcases first with same | ⟨-, there⟩
    · exact Or.inr ⟨same ▸ free, made⟩
    · rw [there] at free
      cases free

theorem StaysAt.item?_eq {tree later : FileTree} {names : Names} (stays : StaysAt tree later names)
    {item : Item} (there : later.item? names = some item) (solid : item ≠ .directory) :
    tree.item? names = some item := by
  rcases stays with same | ⟨-, made⟩
  · exact same.symm.trans there
  · exact absurd (Option.some.inj (there.symm.trans made)) solid

/-- A later tree where no catalog was saved: no file has come or changed, and none is gone but that which
the path beside the catalog leads to. -/
structure Spared (tree later : FileTree) (path name : String) : Prop where
  place : later.place = tree.place
  items : ∀ names, StaysAt tree later names ∨
    names.getLast? = some (nameBeside name) ∧
      (∃ content, tree.item? names = some (.file content)) ∧
        later.locate true (stagingPath path) = .ok (.free names)
  file : ∀ names content, tree.locate true path = .ok (.item names (.file content)) →
    later.locate true path = .ok (.item names (.file content))

/-- A later tree where a catalog was saved: it stands under its name in the directory that its path leads
into, and else no file has come or changed, and none is gone but that beside the catalog. -/
structure Stored (tree later : FileTree) (path : String) (home : Names) (name text : String) :
    Prop where
  place : later.place = tree.place
  way : ∃ made spot, tree.Grows made ∧ made.locate false path = .ok spot ∧
    spot.names = home ++ [name]
  there : later.item? (home ++ [name]) = some (.file (.text text))
  solid : tree.item? (home ++ [name]) ≠ some .directory
  reads : (∀ target, tree.item? (home ++ [name]) ≠ some (.link target)) →
    later.readText path = .ok text
  others : ∀ names, names ≠ home ++ [name] → StaysAt tree later names ∨
    names = home ++ [nameBeside name] ∧
      (∃ content, tree.item? names = some (.file content)) ∧ later.item? names = none

theorem Grows.item?_file {tree later : FileTree} (grows : tree.Grows later) {names : Names}
    {content : Content} (file : later.item? names = some (.file content)) :
    tree.item? names = some (.file content) :=
  StaysAt.item?_eq (grows.items names) file (by simp)

theorem Grows.item?_none {tree later : FileTree} (grows : tree.Grows later) {names : Names}
    (free : later.item? names = none) : tree.item? names = none := by
  rcases grows.items names with same | ⟨free, -⟩
  · exact same.symm.trans free
  · exact free

theorem Grows.spared {tree later : FileTree} (grows : tree.Grows later) (path name : String) :
    tree.Spared later path name := by
  refine ⟨grows.place, fun names => Or.inl (grows.items names), fun names content there => ?_⟩
  refine locate_file_of_keeps grows.keeps ?_ there
  rcases grows.items names with same | ⟨free, -⟩
  · exact same
  · rw [item?_of_locate there (by simp)] at free
    cases free

theorem Spared.item?_eq {tree later : FileTree} {path name : String}
    (spared : tree.Spared later path name) {names : Names} {item : Item}
    (there : later.item? names = some item) (solid : item ≠ .directory) :
    tree.item? names = some item := by
  rcases spared.items names with stays | ⟨-, -, free⟩
  · exact stays.item?_eq there solid
  · rw [item?_of_locate_free free] at there
    cases there

theorem Stored.item?_eq {tree later : FileTree} {path name text : String} {home : Names}
    (stored : tree.Stored later path home name text) {names : Names} {item : Item}
    (there : later.item? names = some item) (solid : item ≠ .directory) :
    names = home ++ [name] ∧ item = .file (.text text) ∨ tree.item? names = some item := by
  by_cases here : names = home ++ [name]
  · rw [here, stored.there] at there
    exact Or.inl ⟨here, (Option.some.inj there).symm⟩
  · rcases stored.others names here with stays | ⟨-, -, gone⟩
    · exact Or.inr (stays.item?_eq there solid)
    · rw [gone] at there
      cases there

section Saving

variable {tree made later : FileTree} {path name text : String} {home : Names}
  (last : (piecesOf path).getLast? = some name) (entry : IsEntry name)

include last entry

private theorem spared_of_stuck (grows : tree.Grows made) (proper : IsName (nameBeside name))
    (way : made.wayIn (stagingPath path) = .ok home)
    (takes : made.TakesFile (home ++ [nameBeside name]))
    (stuck : pathFault? path = none → made.item? (home ++ [name]) = some .directory) :
    let written := made.put (home ++ [nameBeside name]) (.file (.text text))
    tree.Spared (written.erase (home ++ [nameBeside name])) path name := by
  intro written
  have keeps : made.Keeps (written.erase (home ++ [nameBeside name])) := by
    refine (keeps_put takes _).trans (keeps_erase (Or.inr ⟨.text text, ?_⟩))
    rw [item?_put takes.below, if_pos rfl]
  have gone : (written.erase (home ++ [nameBeside name])).item? (home ++ [nameBeside name]) = none := by
    rw [item?_erase takes.below, if_pos rfl]
  refine ⟨grows.place, fun names => ?_, fun names content there => ?_⟩
  · by_cases here : names = home ++ [nameBeside name]
    · subst here
      rcases takes with free | ⟨content, file⟩
      · exact Or.inl (Or.inl (gone.trans (grows.item?_none free).symm))
      · refine Or.inr ⟨List.getLast?_concat, ⟨content, grows.item?_file file⟩, ?_⟩
        rw [locate_of_wayIn (getLast?_stagingPath last entry) proper (wayIn_of_keeps keeps way)
          (by simp [gone]), spotAt, gone]
    · left
      have same : (written.erase (home ++ [nameBeside name])).item? names = made.item? names := by
        rw [item?_erase takes.below, if_neg here, item?_put takes.below, if_neg here]
      rw [StaysAt, same]
      exact grows.items names
  · -- Where the path leads to a file, nothing keeps the catalog from its place.
    have there := (grows.spared path name).file names content there
    have sound : pathFault? path = none := by
      rw [locate_eq] at there
      cases fault : pathFault? path with
      | some fault => simp [fault] at there
      | none => rfl
    have own := Catalog.isName_of_nameBeside entry proper
    rw [wayIn_beside last entry proper sound (sound_of_wayIn way)] at way
    rw [locate_of_wayIn last own way (by simp [stuck sound]), spotAt, stuck sound] at there
    cases there

private theorem stored_of_moved (grows : tree.Grows made) (proper : IsName (nameBeside name))
    (way : made.wayIn path = .ok home) (takes : made.TakesFile (home ++ [nameBeside name]))
    (solid : made.item? (home ++ [name]) ≠ some .directory) :
    let written := made.put (home ++ [nameBeside name]) (.file (.text text))
    tree.Stored ((written.erase (home ++ [nameBeside name])).put (home ++ [name])
      (.file (.text text))) path home name text := by
  intro written
  have own := Catalog.isName_of_nameBeside entry proper
  have different : home ++ [name] ≠ home ++ [nameBeside name] := by
    simpa using (Catalog.nameBeside_ne name).symm
  have items : ∀ names, ((written.erase (home ++ [nameBeside name])).put (home ++ [name])
      (.file (.text text))).item? names =
        if names = home ++ [name] then some (.file (.text text))
        else if names = home ++ [nameBeside name] then none else made.item? names := by
    intro names
    rw [item?_put (by simp), item?_erase takes.below, item?_put takes.below]
    split
    · rfl
    · split <;> rfl
  refine ⟨grows.place, ⟨made, made.spotAt (home ++ [name]), grows, ?_, ?_⟩, ?_, ?_, ?_, ?_⟩
  · rw [locate_false_eq_wayIn _ last own, way]
    rfl
  · unfold spotAt
    split <;> rfl
  · rw [items, if_pos rfl]
  · exact fun directory => solid (grows.keeps.directories _ directory)
  · intro unlinked
    -- Where no link is replaced, all that the path leads over stays.
    have takesEntry : made.TakesFile (home ++ [name]) := by
      rcases found : made.item? (home ++ [name]) with _ | (content | _ | target)
      · exact Or.inl found
      · exact Or.inr ⟨content, found⟩
      · exact absurd found solid
      · exact absurd (links_of_grows grows _ _ found) (unlinked target)
    have keeps : made.Keeps ((written.erase (home ++ [nameBeside name])).put (home ++ [name])
        (.file (.text text))) := by
      refine ((keeps_put takes _).trans (keeps_erase (Or.inr ⟨.text text, ?_⟩))).trans
        (keeps_put ?_ _)
      · rw [item?_put takes.below, if_pos rfl]
      · rw [TakesFile, item?_erase takes.below, if_neg different, item?_put takes.below,
          if_neg different]
        exact takesEntry
    have there := items (home ++ [name])
    rw [if_pos rfl] at there
    have located := locate_of_wayIn last own (wayIn_of_keeps keeps way) (by simp [there]) true
    rw [spotAt, there] at located
    exact readText_of_locate_text located
  · intro names elsewhere
    rw [StaysAt, items, if_neg elsewhere]
    by_cases here : names = home ++ [nameBeside name]
    · rw [if_pos here]
      subst here
      rcases takes with free | ⟨content, file⟩
      · exact Or.inl (Or.inl (grows.item?_none free).symm)
      · exact Or.inr ⟨rfl, ⟨content, grows.item?_file file⟩, rfl⟩
    · rw [if_neg here]
      exact Or.inl (grows.items names)

/-- The saving of a catalog that has messages puts it in its place or leaves all files as they are. -/
theorem save_cases (unlinked : tree.Unlinked (nameBeside name)) {catalog : Catalog}
    (filled : catalog.isEmpty = false) {result : Except Catalog.FileError Bool}
    (done : tree.perform (catalog.save path) = (result, later)) :
    (∃ error, result = .error error) ∧ tree.Spared later path name ∨
      result = .ok true ∧ ∃ home, tree.Stored later path home name catalog.render := by
  have lastBeside := getLast?_stagingPath last entry
  rw [perform_save tree filled] at done
  rcases parent : tree.perform (Catalog.makeParent path) with ⟨error | _, made⟩
  · have grows := grows_makeParent tree path
    rw [parent] at done grows
    obtain ⟨rfl, rfl⟩ := Prod.mk.inj done
    exact Or.inl ⟨⟨error, rfl⟩, grows.spared path name⟩
  have grows : tree.Grows made := by
    have grows := grows_makeParent tree path
    rwa [parent] at grows
  simp only [parent] at done
  rcases write : made.perform (Change.write (stagingPath path) (.text catalog.render)) with
    ⟨fault | _, written⟩
  · obtain ⟨rfl, -⟩ := perform_write_of_leadsTo rfl write
    rw [write] at done
    obtain ⟨rfl, rfl⟩ := Prod.mk.inj done
    exact Or.inl ⟨⟨_, rfl⟩, grows.spared path name⟩
  -- Only now it is known that the name beside the catalog is short enough: a text was written there.
  have proper : IsName (nameBeside name) := by
    cases located : made.locate true (stagingPath path) with
    | error fault =>
      rw [perform_write, located] at write
      cases write
    | ok spot => exact isName_of_locate lastBeside (isEntry_nameBeside name) located
  obtain ⟨home, way, takes, rfl⟩ := exists_of_write lastBeside proper
    (unlinked_of_links (links_of_grows grows) unlinked) write
  simp only [write] at done
  rcases rename_cases last entry proper way takes catalog.render with
    ⟨stuck, fault, moved⟩ | ⟨wayToo, solid, moved⟩
  · simp only [moved, perform_remove, locate_put lastBeside proper way takes (.text catalog.render)]
      at done
    obtain ⟨rfl, rfl⟩ := Prod.mk.inj done
    exact Or.inl ⟨⟨_, rfl⟩, spared_of_stuck last entry grows proper way takes stuck⟩
  · simp only [moved] at done
    obtain ⟨rfl, rfl⟩ := Prod.mk.inj done
    exact Or.inr ⟨rfl, home, stored_of_moved last entry grows proper wayToo takes solid⟩

end Saving

end FileTree

end Phrasebook
