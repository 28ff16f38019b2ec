import Phrasebook.Proofs.Extraction.Sparing

/-!
The saving of a catalog on a disk where any change may fail: the catalog takes the place of what was
there, or that is unharmed.
-/

set_option autoImplicit false

namespace Phrasebook.FileTree

open Catalog (stagingPath besideName getLast?_piecesOf_stagingPath nameBeside isEntry_nameBeside IsEntry
  makeParent makeParentOn)

variable {tree made later : FileTree} {path : String} {disk : Disk}

private theorem makeParentOn_cases (fallible : disk.IsFallible) (tree : FileTree) (path : String) :
    tree.perform (makeParentOn disk path) = (.ok (), tree.prepared path) ∨
      ∃ parent fault later,
        tree.perform (makeParentOn disk path) = (.error (.noDirectory parent fault), later) ∧
          tree.Grows later ∧ later.Grows (tree.prepared path) := by
  rw [prepared, perform_makeParent, perform_makeParentOn]
  cases Path.parent? path with
  | none => exact Or.inl rfl
  | some parent =>
    simp only [perform_step]
    have grows := grows_makeDirectories tree parent
    rcases fallible.makeDirectories parent tree with same | ⟨fault, later, failed, before, after⟩
    · rw [same]
      rcases steps : tree.perform (Change.makeDirectories parent) with ⟨fault | _, later⟩
      · rw [steps] at grows
        exact Or.inr ⟨parent, fault, later, rfl, grows, Grows.refl later⟩
      · exact Or.inl rfl
    · rw [failed]
      exact Or.inr ⟨parent, fault, later, rfl, before, after⟩

private theorem write_cases
    (plain : ∀ names target, made.locate false (stagingPath path) ≠ .ok (.item names (.link target))) :
    (∀ content, ∃ fault,
        made.perform (Change.write (stagingPath path) content) = (.error fault, made)) ∨
      ∃ annex, made.IsAnnex path annex ∧ ∀ content,
        made.perform (Change.write (stagingPath path) content) =
          (.ok (), made.put (annex ++ [besideName path]) (.file content)) := by
  have last := getLast?_piecesOf_stagingPath path
  cases located : made.locate true (stagingPath path) with
  | error fault =>
    left
    intro content
    refine ⟨fault, ?_⟩
    rw [perform_write, located]
  | ok spot =>
    have proper := isName_of_locate last (isEntry_nameBeside _) located
    have lands : made.Lands (stagingPath path) (besideName path) := by
      intro home way target linked
      refine plain (home ++ [besideName path]) target ?_
      rw [locate_false_eq_wayIn made last proper, way]
      simp [Except.map, spotAt, linked]
    have writes := fun content => perform_write made (stagingPath path) content
    rw [locate_eq_wayIn_of_lands last proper fun _ => lands] at writes
    cases way : made.wayIn (stagingPath path) with
    | error fault =>
      rw [locate_eq_wayIn_of_lands last proper fun _ => lands, way] at located
      cases located
    | ok annex =>
      simp only [way, Except.map, spotAt] at writes
      rcases found : made.item? (annex ++ [besideName path]) with _ | (content | _ | target)
      · simp only [found] at writes
        exact Or.inr ⟨annex, ⟨proper, way, Or.inl found⟩, writes⟩
      · simp only [found] at writes
        exact Or.inr ⟨annex, ⟨proper, way, Or.inr ⟨content, found⟩⟩, writes⟩
      · simp only [found] at writes
        exact Or.inl fun content => ⟨.isDirectory, writes content⟩
      · exact absurd found (lands annex way target)

private theorem writeOn_cases (fallible : disk.IsFallible)
    (plain : ∀ names target, made.locate false (stagingPath path) ≠ .ok (.item names (.link target)))
    (content : Content) :
    (∃ fault, made.perform (disk.write (stagingPath path) content) = (.error fault, made)) ∨
      ∃ annex, made.IsAnnex path annex ∧
        (made.perform (disk.write (stagingPath path) content) =
            (.ok (), made.put (annex ++ [besideName path]) (.file content)) ∨
          ∃ fault part, made.perform (disk.write (stagingPath path) content) =
            (.error fault, made.put (annex ++ [besideName path]) (.file part))) := by
  rcases fallible.write (stagingPath path) content made with
    same | ⟨fault, later, failed, rfl | ⟨part, rfl⟩⟩
  · rw [same]
    rcases write_cases plain with fails | ⟨annex, isAnnex, writes⟩
    · exact Or.inl (fails content)
    · exact Or.inr ⟨annex, isAnnex, Or.inl (writes content)⟩
  · exact Or.inl ⟨fault, failed⟩
  · rw [failed]
    rcases write_cases plain with fails | ⟨annex, isAnnex, writes⟩
    · obtain ⟨other, same⟩ := fails part
      exact Or.inl ⟨fault, by rw [same]⟩
    · exact Or.inr ⟨annex, isAnnex, Or.inr ⟨fault, part, by rw [writes]⟩⟩

section Free

variable {name : String} {home : Names} (last : (piecesOf (stagingPath path)).getLast? = some name)
  (proper : IsName name) (way : made.wayIn (stagingPath path) = .ok home)
  (free : made.item? (home ++ [name]) = none)

include last proper way free

private theorem isPlainBeside_of_free (parent : tree.perform (makeParent path) = (.ok (), made)) :
    tree.IsPlainBeside path := by
  intro names target
  rw [prepared, parent, locate_false_eq_wayIn _ last proper, way]
  simp [Except.map, spotAt, free]

private theorem perform_write_of_free (content : Content) :
    made.perform (Change.write (stagingPath path) content) =
      (.ok (), made.put (home ++ [name]) (.file content)) := by
  have located := locate_of_wayIn last proper way (by simp [free]) true
  rw [spotAt, free] at located
  rw [perform_write, located]

end Free

private theorem perform_rename_cases (tree : FileTree) (source target : String) :
    (∃ fault, tree.perform (Change.rename source target) = (.error fault, tree)) ∨
      ∃ name later, (piecesOf target).getLast? = some name ∧ IsName name ∧
        tree.perform (Change.rename source target) = (.ok (), later) := by
  have pieces : piecesOf target ≠ [] := by simp [piecesOf, Text.splitAt_ne_nil]
  obtain ⟨name, last⟩ := Option.ne_none_iff_exists'.mp (mt List.getLast?_eq_none_iff.mp pieces)
  simp only [Change.rename, perform_bind, perform_askOrFail, last]
  rcases tree.locate false source with fault | (⟨old, found⟩ | names)
  · exact Or.inl ⟨fault, rfl⟩
  · simp only
    split
    · exact Or.inl ⟨.busy, rfl⟩
    split
    · exact Or.inl ⟨.notDirectory, rfl⟩
    rename_i points slash
    simp only [perform_bind, perform_askOrFail]
    cases located : tree.locate false target with
    | error fault => exact Or.inl ⟨fault, rfl⟩
    | ok spot =>
      have entry : IsEntry name := by
        refine ⟨?_, ?_, ?_⟩
        · rintro rfl
          have empty : target = "" := by simpa using slash
          rw [empty] at located
          cases located
        · rintro rfl
          simp at points
        · rintro rfl
          simp at points
      have proper := isName_of_locate last entry located
      have moved : ∀ new, ∃ later,
          tree.perform (Change.rename.move old new found) = (.ok (), later) := by
        intro new
        by_cases same : old = new <;> simp [Change.rename.move, same]
      rcases spot with ⟨new, content | _ | link⟩ | new
      case item.directory => exact Or.inl ⟨.isDirectory, rfl⟩
      all_goals
        obtain ⟨later, done⟩ := moved new
        exact Or.inr ⟨name, later, rfl, proper, done⟩
  · exact Or.inl ⟨.notFound, rfl⟩

section Annex

variable {annex : Names}

private theorem renameOn_cases (fallible : disk.IsFallible) (isAnnex : made.IsAnnex path annex)
    (text : String) :
    let written := made.put (annex ++ [besideName path]) (.file (.text text))
    let moved := written.perform (disk.rename (stagingPath path) path)
    (∃ fault, moved = (.error fault, written)) ∨
      ∃ name, (piecesOf path).getLast? = some name ∧ IsName name ∧ made.wayIn path = .ok annex ∧
        made.item? (annex ++ [name]) ≠ some .directory ∧
          moved = (.ok (), (written.erase (annex ++ [besideName path])).put (annex ++ [name])
            (.file (.text text))) := by
  intro written moved
  rcases fallible.rename (stagingPath path) path written with same | ⟨fault, _, failed, rfl⟩
  · rcases perform_rename_cases written (stagingPath path) path with
      ⟨fault, fails⟩ | ⟨name, later, last, proper, done⟩
    · exact Or.inl ⟨fault, same.trans fails⟩
    have entry := IsEntry.of_isName proper
    have beside := besideName_eq last entry
    rcases rename_cases last entry (beside ▸ isAnnex.proper) isAnnex.way (beside ▸ isAnnex.takes)
      text with ⟨-, fault, fails⟩ | ⟨way, solid, succeeds⟩
    · rw [← beside] at fails
      cases done.symm.trans fails
    · rw [← beside] at succeeds
      exact Or.inr ⟨name, last, proper, way, solid, same.trans succeeds⟩
  · exact Or.inl ⟨fault, failed⟩

private def moved (made : FileTree) (path : String) (annex names : Names) (text : String) : FileTree :=
  ((made.put (annex ++ [besideName path]) (.file (.text text))).erase
    (annex ++ [besideName path])).put names (.file (.text text))

private theorem place_moved (made : FileTree) (path : String) (annex names : Names) (text : String) :
    (made.moved path annex names text).place = made.place := by
  rw [moved, place_put, place_erase, place_put]

private theorem item?_moved (isAnnex : made.IsAnnex path annex) {names : Names} (below : names ≠ [])
    (text : String) (other : Names) :
    (made.moved path annex names text).item? other =
      if other = names then some (.file (.text text))
      else if other = annex ++ [besideName path] then none else made.item? other := by
  rw [moved, item?_put below, item?_erase isAnnex.takes.below, item?_put isAnnex.takes.below]
  split
  · rfl
  · split <;> rfl

section Moved

variable {name : String} (isAnnex : made.IsAnnex path annex)
  (last : (piecesOf path).getLast? = some name) (proper : IsName name) (text : String)

include isAnnex last proper

private theorem locate_moved {before : FileTree} (way : before.wayIn path = .ok annex)
    (place : before.place = made.place) (items : ∀ names item, before.item? names = some item →
      names ≠ annex ++ [name] ∧ made.item? names = some item ∨ ∃ content, item = .file content) :
    (made.moved path annex (annex ++ [name]) text).locate false path =
      .ok (.item (annex ++ [name]) (.file (.text text))) := by
  have moves := item?_moved isAnnex (by simp : annex ++ [name] ≠ []) text
  have keeps : before.Keeps (made.moved path annex (annex ++ [name]) text) := by
    refine keeps_of_items place.symm fun names item there solid => ?_
    obtain ⟨elsewhere, found⟩ := (items names item there).resolve_right (by simpa using solid)
    have away : names ≠ annex ++ [besideName path] := by
      rintro rfl
      rcases isAnnex.takes with free | ⟨content, file⟩
      · rw [free] at found
        cases found
      · exact solid content (Option.some.inj (found.symm.trans file))
    rw [moves, if_neg elsewhere, if_neg away, found]
  have there := moves (annex ++ [name])
  rw [if_pos rfl] at there
  rw [locate_false_eq_wayIn _ last proper, wayIn_of_keeps keeps way]
  simp only [Except.map, spotAt, there]

private theorem locate_moved_or (way : made.wayIn path = .ok annex)
    (solid : made.item? (annex ++ [name]) ≠ some .directory) :
    (made.moved path annex (annex ++ [name]) text).locate false path =
        .ok (.item (annex ++ [name]) (.file (.text text))) ∨
      (∃ target, made.item? (annex ++ [name]) = some (.link target)) ∧
        (made.erase (annex ++ [name])).locate false path ≠ .ok (.free (annex ++ [name])) := by
  by_cases linked : ∃ target, made.item? (annex ++ [name]) = some (.link target)
  · by_cases reached : (made.erase (annex ++ [name])).locate false path = .ok (.free (annex ++ [name]))
    · left
      obtain ⟨home, wayErased, spot⟩ := exists_wayIn_of_locate last proper reached
      obtain rfl : home = annex := by simpa using (item?_of_spotAt_free spot).1
      refine locate_moved isAnnex last proper text wayErased rfl fun names item found => ?_
      rw [item?_erase (by simp)] at found
      split at found
      · cases found
      · rename_i elsewhere
        exact Or.inl ⟨elsewhere, found⟩
    · exact Or.inr ⟨linked, reached⟩
  · left
    refine locate_moved isAnnex last proper text way rfl fun names item found => ?_
    by_cases here : names = annex ++ [name]
    · subst here
      right
      rcases item with content | _ | target
      · exact ⟨content, rfl⟩
      · exact absurd found solid
      · exact absurd ⟨target, found⟩ linked
    · exact Or.inl ⟨here, found⟩

end Moved

private theorem replaced_of_moved {name : String} (isAnnex : (tree.prepared path).IsAnnex path annex)
    (last : (piecesOf path).getLast? = some name) (proper : IsName name)
    (way : (tree.prepared path).wayIn path = .ok annex)
    (solid : (tree.prepared path).item? (annex ++ [name]) ≠ some .directory) (text : String) :
    tree.Replaced ((tree.prepared path).moved path annex (annex ++ [name]) text) path
      (annex ++ [name]) text := by
  have grows := grows_prepared tree path
  have place := place_moved (tree.prepared path) path annex (annex ++ [name]) text
  have moves := item?_moved isAnnex (by simp : annex ++ [name] ≠ []) text
  have gone : ((tree.prepared path).moved path annex (annex ++ [name]) text).item?
      (annex ++ [besideName path]) = none := by
    rw [moves, if_neg ?_, if_pos rfl]
    rw [besideName_eq last (.of_isName proper)]
    simpa using Catalog.nameBeside_ne name
  refine ⟨place.trans grows.place, ?_, ?_, ?_, fun other elsewhere => ?_, ?_⟩
  · refine ⟨(tree.prepared path).spotAt (annex ++ [name]), ?_, names_spotAt _ _⟩
    rw [locate_false_eq_wayIn _ last proper, way]
    rfl
  · rw [moves, if_pos rfl]
  · rcases locate_moved_or isAnnex last proper text way solid with leads | ⟨⟨target, link⟩, astray⟩
    · exact Or.inl leads
    · exact Or.inr ⟨⟨target, links_of_grows grows _ _ link⟩, astray⟩
  · refine sparesAt_of_elsewhere isAnnex (fun away => ?_) (Or.inl gone)
    rw [moves, if_neg elsewhere, if_neg away]
  · refine cleared_of_gone isAnnex (keeps_of_items place.symm fun names item found stays => ?_) gone
    rw [moves] at found
    split at found
    · exact absurd (Option.some.inj found).symm (stays (.text text))
    · split at found
      · cases found
      · exact found

end Annex

private theorem finish_cases (fallible : disk.IsFallible) {annex : Names}
    (isAnnex : (tree.prepared path).IsAnnex path annex) (text : String) :
    let written := (tree.prepared path).put (annex ++ [besideName path]) (.file (.text text))
    let moved := written.perform (disk.rename (stagingPath path) path)
    let removed := (written.perform (disk.remove (stagingPath path))).2
    (∃ fault, moved = (.error fault, written)) ∧ tree.Unharmed removed path ∧
        (disk.Removes (stagingPath path) → tree.Cleared removed path) ∨
      ∃ names later, moved = (.ok (), later) ∧ tree.Replaced later path names text := by
  intro written moved removed
  rcases renameOn_cases fallible isAnnex text with failed | ⟨name, last, proper, way, solid, done⟩
  · left
    have erased : written.perform (Change.remove (stagingPath path)) =
        (.ok (), written.erase (annex ++ [besideName path])) := by
      rw [perform_remove, locate_put (getLast?_piecesOf_stagingPath path) isAnnex.proper isAnnex.way
        isAnnex.takes]
    obtain ⟨unharmed, cleared⟩ := unharmed_of_erase isAnnex (.text text)
    refine ⟨failed, ?_, fun removes => ?_⟩
    · rcases fallible.remove (stagingPath path) written with same | ⟨fault, _, stuck, rfl⟩
      · have gone : removed = written.erase (annex ++ [besideName path]) :=
          congrArg Prod.snd (same.trans erased)
        rw [gone]
        exact unharmed
      · have kept : removed = written := congrArg Prod.snd stuck
        rw [kept]
        exact unharmed_of_put isAnnex (.text text)
    · have gone : removed = written.erase (annex ++ [besideName path]) :=
        congrArg Prod.snd ((removes written).trans erased)
      rw [gone]
      exact cleared
  · right
    exact ⟨annex ++ [name], _, done, replaced_of_moved isAnnex last proper way solid text⟩

/-- A catalog with messages is saved, or nothing is saved and the file beside its path is removed if that
can be done. -/
private theorem saveOn_cases (fallible : disk.IsFallible) (plain : tree.IsPlainBeside path)
    {catalog : Catalog} (full : catalog.isEmpty = false) :
    (∃ error later, tree.perform (catalog.saveOn disk path) = (.error error, later) ∧
        tree.Unharmed later path ∧ ((∃ fault, error = .irreplaceable path fault) →
          disk.Removes (stagingPath path) → tree.Cleared later path)) ∨
      ∃ names later, tree.perform (catalog.saveOn disk path) = (.ok true, later) ∧
        tree.Replaced later path names catalog.render := by
  rw [perform_saveOn tree disk full]
  -- The directory.
  rcases makeParentOn_cases fallible tree path with
    opened | ⟨parent, fault, made, failed, before, after⟩
  swap
  · rw [failed]
    refine Or.inl ⟨_, made, rfl, unharmed_of_sparesAt before.place (sparesAt_of_grows before after), ?_⟩
    rintro ⟨other, eq⟩
    cases eq
  rw [opened]
  simp only
  -- The file beside the path.
  rcases writeOn_cases fallible plain (.text catalog.render) with
    ⟨fault, failed⟩ | ⟨annex, isAnnex, written | ⟨fault, part, failed⟩⟩
  · have grows := grows_prepared tree path
    rw [failed]
    refine Or.inl ⟨_, _, rfl,
      unharmed_of_sparesAt grows.place (sparesAt_of_grows grows (Grows.refl _)), ?_⟩
    rintro ⟨other, eq⟩
    cases eq
  swap
  · rw [failed]
    refine Or.inl ⟨_, _, rfl, unharmed_of_put isAnnex part, ?_⟩
    rintro ⟨other, eq⟩
    cases eq
  rw [written]
  simp only
  rcases finish_cases fallible isAnnex catalog.render with
    ⟨⟨fault, failed⟩, unharmed, cleared⟩ | ⟨names, later, done, replaced⟩
  · rw [failed]
    exact Or.inl ⟨_, _, rfl, unharmed, fun _ => cleared⟩
  · rw [done]
    exact Or.inr ⟨names, later, rfl, replaced⟩

/-- The saving of a catalog is done as a whole or not at all, wherever the disk fails. -/
theorem saveOn_atomic (fallible : disk.IsFallible) (plain : tree.IsPlainBeside path)
    (catalog : Catalog) {result : Except Catalog.FileError Bool}
    (done : tree.perform (catalog.saveOn disk path) = (result, later)) :
    match result with
    | .error error => tree.Unharmed later path ∧ ((∃ fault, error = .irreplaceable path fault) →
        disk.Removes (stagingPath path) → tree.Cleared later path)
    | .ok false => catalog.isEmpty = true ∧ later = tree
    | .ok true => catalog.isEmpty = false ∧ ∃ names, tree.Replaced later path names catalog.render := by
  cases bare : catalog.isEmpty with
  | true =>
    obtain ⟨rfl, rfl⟩ := Prod.mk.inj (done.symm.trans (perform_saveOn_of_isEmpty tree disk bare path))
    exact ⟨rfl, rfl⟩
  | false =>
    rcases saveOn_cases fallible plain bare with
      ⟨error, after, failed, unharmed⟩ | ⟨names, after, saved, replaced⟩
    · obtain ⟨rfl, rfl⟩ := Prod.mk.inj (done.symm.trans failed)
      exact unharmed
    · obtain ⟨rfl, rfl⟩ := Prod.mk.inj (done.symm.trans saved)
      exact ⟨rfl, names, replaced⟩

def stuckDisk : Disk := { Disk.sound with rename := fun _ _ => throw .busy }

def oneMessage : Catalog := Catalog.parse "msgid \"Hi\"\nmsgstr \"\"\n" "fr"

def filedTree : FileTree where
  items := [(["a"], .directory), (["a", "fr.po"], .file (.text "old"))]

theorem saveOn_atomic_stuck : stuckDisk.IsFallible ∧ filedTree.IsPlainBeside "a/fr.po" ∧
    ∃ later, filedTree.perform (oneMessage.saveOn stuckDisk "a/fr.po") =
        (.error (.irreplaceable "a/fr.po" .busy), later) ∧
      filedTree.Unharmed later "a/fr.po" ∧ filedTree.Cleared later "a/fr.po" := by
  have fallible : stuckDisk.IsFallible :=
    { Disk.isFallible_sound with rename := fun _ _ tree => Or.inr ⟨.busy, tree, rfl, rfl⟩ }
  have last : (piecesOf (stagingPath "a/fr.po")).getLast? = some ".fr.po.tmp" := by decide
  have proper : IsName ".fr.po.tmp" := ⟨by decide, by decide, by decide, by decide⟩
  have way : filedTree.wayIn (stagingPath "a/fr.po") = .ok ["a"] :=
    wayIn_of_descend (by decide) (by decide)
  have free : filedTree.item? (["a"] ++ [".fr.po.tmp"]) = none := by decide
  have parent : filedTree.perform (makeParent "a/fr.po") = (.ok (), filedTree) :=
    perform_makeParent_of_isDirectory (by decide : Path.parent? "a/fr.po" = some "a")
      (isDirectory_of_descend (by decide) (by decide : _ = some ["a"]))
  have plain := isPlainBeside_of_free last proper way free parent
  obtain ⟨later, failed⟩ : ∃ later, filedTree.perform (oneMessage.saveOn stuckDisk "a/fr.po") =
      (.error (.irreplaceable "a/fr.po" .busy), later) := by
    have made : filedTree.perform (makeParentOn stuckDisk "a/fr.po") = (.ok (), filedTree) := parent
    have written : filedTree.perform (stuckDisk.write (stagingPath "a/fr.po") _) = _ :=
      perform_write_of_free last proper way free (.text oneMessage.render)
    rw [perform_saveOn _ _ (by decide), made]
    simp only [written]
    exact ⟨_, rfl⟩
  obtain ⟨unharmed, cleared⟩ := saveOn_atomic fallible plain oneMessage failed
  exact ⟨fallible, plain, later, failed, unharmed, cleared ⟨.busy, rfl⟩ fun _ => rfl⟩

def crossedTree : FileTree where
  items := [(["a"], .directory), (["a", "b"], .directory), (["d"], .link "a/b")]

namespace Crossed

private theorem isName_a : IsName "a" := ⟨by decide, by decide, by decide, by decide⟩

private theorem isName_d : IsName "d" := ⟨by decide, by decide, by decide, by decide⟩

private def madeTree : FileTree := ({} : FileTree).put ["a"] .directory

private theorem locate_up (followsLast : Bool) :
    ({} : FileTree).locate followsLast "a/.." = .error .notFound := by
  have sound : pathFault? "a/.." = none := by decide
  have pieces : piecesOf "a/.." = ["a", ".."] := by decide
  rw [locate_eq, sound, pieces]
  exact walk_missing isName_a (by simp) (by decide)

private theorem perform_makeDirectories_eq :
    ({} : FileTree).perform (Change.makeDirectories "a/..") = (.ok (), madeTree) := by
  have ancestors : Change.withAncestors "a/.." = ["a/..", "a", ""] := by decide
  have first : ({} : FileTree).perform (Change.ensureDirectory "a/..") = (.error .notFound, {}) :=
    perform_ensureDirectory_of_error locate_up
  have second : ({} : FileTree).perform (Change.ensureDirectory "a") = (.ok (), madeTree) := by
    have last : (piecesOf "a").getLast? = some "a" := by decide
    have way : ({} : FileTree).wayIn "a" = .ok [] := wayIn_of_descend (by decide) (by decide)
    have free : ({} : FileTree).item? ([] ++ ["a"]) = none := by decide
    exact perform_ensureDirectory_of_free (locate_of_vacant last isName_a way free false)
  have third : madeTree.perform (Change.ensureDirectory "a/..") = (.ok (), madeTree) :=
    perform_ensureDirectory_of_isDirectory
      (isDirectory_of_descend (by decide) (by decide : _ = some []))
  simp [Change.makeDirectories, ancestors, perform_makeFirst_cons, first, second, third]

private theorem walk_above :
    crossedTree.walk true linkLimit [] ["d", "..", ".."] = .ok (.item [] .directory) := by
  have linked : crossedTree.item? ([] ++ ["d"]) = some (.link "a/b") := by decide
  rw [linkLimit, walk_link isName_d (Or.inr rfl) linked]
  exact walk_of_descend (by decide) true _

private theorem save_made : ({} : FileTree).IsPlainBeside "a/../a" ∧ ∃ fault later,
    ({} : FileTree).perform (oneMessage.save "a/../a") =
        (.error (.irreplaceable "a/../a" fault), later) ∧
      later.locate false "a/../a" = .ok (.item ["a"] .directory) := by
  have last : (piecesOf "a/../a").getLast? = some "a" := by decide
  have entry := IsEntry.of_isName isName_a
  have lastBeside := getLast?_stagingPath last entry
  have proper : IsName (nameBeside "a") := ⟨by decide, by decide, by decide, by decide⟩
  have way : madeTree.wayIn (stagingPath "a/../a") = .ok [] := wayIn_of_descend (by decide) (by decide)
  have free : madeTree.item? ([] ++ [nameBeside "a"]) = none := by decide
  have parent : ({} : FileTree).perform (makeParent "a/../a") = (.ok (), madeTree) := by
    rw [perform_makeParent, (by decide : Path.parent? "a/../a" = some "a/..")]
    simp only [perform_step, perform_makeDirectories_eq]
    rfl
  refine ⟨isPlainBeside_of_free lastBeside proper way free parent, ?_⟩
  have located : madeTree.locate false "a/../a" = .ok (.item ["a"] .directory) := by
    rw [locate_eq, (by decide : pathFault? "a/../a" = none)]
    exact walk_of_descend (by decide) false linkLimit
  rw [perform_save _ (by decide), parent]
  simp only [perform_write_of_free lastBeside proper way free]
  rcases rename_cases last entry proper way (Or.inl free) oneMessage.render with
    ⟨-, fault, moved⟩ | ⟨-, solid, -⟩
  · simp only [moved, perform_remove, locate_put lastBeside proper way (Or.inl free)]
    refine ⟨fault, _, rfl, locate_directory_of_keeps ?_ located⟩
    refine (keeps_put (Or.inl free) _).trans (keeps_erase (Or.inr ⟨.text oneMessage.render, ?_⟩))
    rw [item?_put (by simp), if_pos rfl]
  · exact absurd (by decide) solid

private theorem save_replaced : crossedTree.IsPlainBeside "d/../../d" ∧ ∃ later,
    crossedTree.perform (oneMessage.save "d/../../d") = (.ok true, later) ∧
      later.locate false "d/../../d" = .error .notDirectory := by
  have last : (piecesOf "d/../../d").getLast? = some "d" := by decide
  have entry := IsEntry.of_isName isName_d
  have lastBeside := getLast?_stagingPath last entry
  have proper : IsName (nameBeside "d") := ⟨by decide, by decide, by decide, by decide⟩
  have way : crossedTree.wayIn (stagingPath "d/../../d") = .ok [] := by
    rw [wayIn, (by decide : pathFault? (stagingPath "d/../../d") = none)]
    simp only
    rw [(by decide : (piecesOf (stagingPath "d/../../d")).dropLast = ["d", "..", ".."])]
    exact congrArg (·.bind Spot.enter) walk_above
  have free : crossedTree.item? ([] ++ [nameBeside "d"]) = none := by decide
  have parent : crossedTree.perform (makeParent "d/../../d") = (.ok (), crossedTree) := by
    refine perform_makeParent_of_isDirectory (by decide : _ = some "d/../..") ?_
    rw [isDirectory_iff, locate_eq, (by decide : pathFault? "d/../.." = none)]
    exact ⟨[], walk_above⟩
  refine ⟨isPlainBeside_of_free lastBeside proper way free parent, ?_⟩
  rw [perform_save _ (by decide), parent]
  simp only [perform_write_of_free lastBeside proper way free]
  rcases rename_cases last entry proper way (Or.inl free) oneMessage.render with
    ⟨stuck, -⟩ | ⟨-, -, moved⟩
  · exact absurd (stuck (by decide)) (by decide)
  · simp only [moved]
    refine ⟨_, rfl, ?_⟩
    rw [locate_eq, (by decide : pathFault? "d/../../d" = none)]
    simp only
    rw [(by decide : piecesOf "d/../../d" = ["d", "..", "..", "d"])]
    refine walk_through_file isName_d (by simp) ((item?_put (by simp) _ _ _).trans (if_pos rfl))

end Crossed

/-- A path may lead over a directory that is made for it, or over the link that it leads to. -/
theorem save_of_crossed :
    (({} : FileTree).IsPlainBeside "a/../a" ∧
      ({} : FileTree).locate false "a/../a" = .error .notFound ∧
        ∃ fault later, ({} : FileTree).perform (oneMessage.save "a/../a") =
            (.error (.irreplaceable "a/../a" fault), later) ∧
          later.locate false "a/../a" = .ok (.item ["a"] .directory)) ∧
      crossedTree.IsPlainBeside "d/../../d" ∧
        ∃ later, crossedTree.perform (oneMessage.save "d/../../d") = (.ok true, later) ∧
          later.locate false "d/../../d" = .error .notDirectory := by
  have nowhere : ({} : FileTree).locate false "a/../a" = .error .notFound := by
    rw [locate_eq, (by decide : pathFault? "a/../a" = none)]
    simp only
    rw [(by decide : piecesOf "a/../a" = ["a", "..", "a"])]
    exact walk_missing Crossed.isName_a (by simp) (by decide)
  obtain ⟨plain, saved⟩ := Crossed.save_made
  exact ⟨⟨plain, nowhere, saved⟩, Crossed.save_replaced⟩

end Phrasebook.FileTree
