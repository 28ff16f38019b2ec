import Phrasebook.Catalog.File
import Phrasebook.Proofs.Files.Way

/-!
The file beside a catalog, which is written first and then takes the place of the catalog: its name, its
path, and where that path leads.
-/

set_option autoImplicit false

namespace Phrasebook

namespace Catalog

open FileTree (IsName)

/-- What a file can be called, unless it is too long. -/
structure IsEntry (name : String) : Prop where
  full : name ≠ ""
  here : name ≠ "."
  up : name ≠ ".."

theorem IsEntry.of_isName {name : String} (proper : IsName name) : IsEntry name :=
  ⟨proper.full, proper.here, proper.up⟩

theorem IsEntry.isSolid {name : String} (entry : IsEntry name) : Path.isSolid name = true := by
  simp [Path.isSolid, entry.full, entry.here]

def nameBeside (name : String) : String := "." ++ name ++ ".tmp"

theorem isEntry_nameBeside (name : String) : IsEntry (nameBeside name) := by
  have long : 5 ≤ (nameBeside name).length := by
    simp only [nameBeside, String.length_append]
    have first : ".".length = 1 := by decide
    have final : ".tmp".length = 4 := by decide
    omega
  have short : ∀ other ∈ ["", ".", ".."], other.length < 5 := by decide
  refine ⟨?_, ?_, ?_⟩ <;>
  · intro same
    have := short _ (by rw [same]; simp : nameBeside name ∈ ["", ".", ".."])
    omega

theorem nameBeside_ne (name : String) : nameBeside name ≠ name := by
  intro same
  have longer := congrArg String.length same
  simp only [nameBeside, String.length_append] at longer
  have first : ".".length = 1 := by decide
  omega

theorem isName_of_nameBeside {name : String} (entry : IsEntry name)
    (proper : IsName (nameBeside name)) : IsName name := by
  refine ⟨entry.full, entry.here, entry.up, ?_⟩
  have short := proper.short
  rw [nameBeside, String.utf8ByteSize_append, String.utf8ByteSize_append] at short
  omega

end Catalog

namespace FileTree

open Catalog (stagingPath nameBeside isEntry_nameBeside IsEntry)

theorem isName_of_locate {tree : FileTree} {followsLast : Bool} {path name : String} {spot : Spot}
    (last : (piecesOf path).getLast? = some name) (entry : IsEntry name)
    (there : tree.locate followsLast path = .ok spot) : IsName name := by
  obtain ⟨home, left, walked⟩ := exists_walk_last last there
  exact isName_of_walk entry.full entry.here entry.up walked

section Beside

variable {tree : FileTree} {path name : String} (last : (piecesOf path).getLast? = some name)
  (entry : IsEntry name)

include last entry

theorem stagingPath_eq_join :
    stagingPath path = Path.join ((Path.parent? path).getD "") (nameBeside name) := by
  have named := Path.fileName?_of_solid entry.full entry.here entry.up last
  simp only [stagingPath, Path.withFileName, named, Option.getD_some]
  rfl

omit entry in
private theorem not_mem_nameBeside : '/' ∉ (nameBeside name).toList := by
  have inside := not_mem_of_mem_piecesOf (List.mem_of_getLast? last)
  simpa [nameBeside, String.toList_append] using inside

theorem getLast?_stagingPath : (piecesOf (stagingPath path)).getLast? = some (nameBeside name) := by
  rw [stagingPath_eq_join last entry]
  exact piecesOf_join (not_mem_nameBeside last) _

theorem ends_stagingPath : Ends (piecesOf (stagingPath path)) :=
  Or.inr ⟨nameBeside name, getLast?_stagingPath last entry, (isEntry_nameBeside name).isSolid⟩

theorem wayIn_beside (proper : IsName (nameBeside name)) (sound : pathFault? path = none)
    (soundBeside : pathFault? (stagingPath path) = none) :
    tree.wayIn (stagingPath path) = tree.wayIn path := by
  have own : IsName name := Catalog.isName_of_nameBeside entry proper
  refine wayIn_congr (getLast?_stagingPath last entry) last proper own soundBeside sound ?_ tree
  obtain ⟨parent, part, found, parts⟩ := Path.exists_parent?_of_last last entry.isSolid
  rw [parts, List.dropLast_concat, stagingPath_eq_join last entry, found, Option.getD_some]
  by_cases bare : parent = ""
  · have inner := not_mem_nameBeside last
    rw [bare, Path.join, if_pos (by simp), Path.parts_of_isName proper inner]
    rfl
  · rw [Path.parts_join proper (not_mem_nameBeside last) bare, List.dropLast_concat]

theorem parts_stagingPath_congr {other : String} (lastOther : (piecesOf other).getLast? = some name)
    (same : Path.parts path = Path.parts other) :
    Path.parts (stagingPath path) = Path.parts (stagingPath other) := by
  obtain ⟨parent, part, found, parts⟩ := Path.exists_parent?_of_last last entry.isSolid
  obtain ⟨outer, _, foundOther, partsOther⟩ := Path.exists_parent?_of_last lastOther entry.isSolid
  have above : Path.parts parent = Path.parts outer := by
    rw [parts, partsOther] at same
    exact (List.append_inj' same rfl).1
  rw [stagingPath_eq_join last entry, stagingPath_eq_join lastOther entry, found, foundOther,
    Option.getD_some, Option.getD_some]
  by_cases bare : parent = ""
  · -- Only the empty path has no parts: the other path has no directory before its name either.
    have bareOther : outer = "" := by
      by_contra full
      exact Path.ne_empty_of_parts_eq above full bare
    rw [bare, bareOther]
  · have relative := Path.isAbsolute_of_not_mem (not_mem_nameBeside last)
    rw [Path.parts_join_of_relative relative bare,
      Path.parts_join_of_relative relative (Path.ne_empty_of_parts_eq above.symm bare), above]

section Rename

variable {made : FileTree} {home : Names}

/-- A file beside a catalog takes its place, unless the path of the catalog is at fault or there is a
directory in its place. -/
theorem rename_cases (proper : IsName (nameBeside name))
    (way : made.wayIn (stagingPath path) = .ok home)
    (takes : made.TakesFile (home ++ [nameBeside name])) (text : String) :
    let written := made.put (home ++ [nameBeside name]) (.file (.text text))
    let moved := written.perform (Change.rename (stagingPath path) path)
    (pathFault? path = none → made.item? (home ++ [name]) = some .directory) ∧
        (∃ fault, moved = (.error fault, written)) ∨
      made.wayIn path = .ok home ∧ made.item? (home ++ [name]) ≠ some .directory ∧
        moved = (.ok (), (written.erase (home ++ [nameBeside name])).put (home ++ [name])
          (.file (.text text))) := by
  intro written moved
  have own := Catalog.isName_of_nameBeside entry proper
  have different : home ++ [nameBeside name] ≠ home ++ [name] := by
    simpa using Catalog.nameBeside_ne name
  have beside : written.locate false (stagingPath path) = _ :=
    locate_put (getLast?_stagingPath last entry) proper way takes (.text text)
  have done : moved = _ := perform_rename written (stagingPath path) last own.full own.here own.up
  rw [beside, locate_false_eq_wayIn _ last own] at done
  cases sound : pathFault? path with
  | some fault =>
    have nowhere : written.wayIn path = .error fault := by rw [wayIn, sound]
    rw [nowhere] at done
    exact Or.inl ⟨by simp, fault, done⟩
  | none =>
    have soundBeside := sound_of_wayIn way
    have item : written.item? (home ++ [name]) = made.item? (home ++ [name]) := by
      rw [item?_put takes.below, if_neg different.symm]
    rw [← wayIn_beside last entry proper sound soundBeside, wayIn_of_keeps (keeps_put takes _) way]
      at done
    simp only [Except.map, spotAt, item] at done
    rcases there : made.item? (home ++ [name]) with _ | (content | _ | target)
    case some.directory =>
      rw [there] at done
      exact Or.inl ⟨fun _ => rfl, .isDirectory, done⟩
    all_goals
      simp only [there, if_neg different] at done
      exact Or.inr ⟨(wayIn_beside last entry proper sound soundBeside).symm.trans way, by simp, done⟩

end Rename

end Beside

end FileTree

end Phrasebook
