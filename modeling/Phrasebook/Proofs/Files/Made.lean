import Mathlib.Data.List.DropRight
import Phrasebook.Proofs.Files.Absolute
import Phrasebook.Proofs.Files.Again

/-!
Directories that are made with those that they are in: where that succeeds, no link stands in the way.
-/

set_option autoImplicit false

namespace Phrasebook

namespace Path

/-- A path without slashes at its end, unless it is nothing else. -/
def bare (path : String) : String :=
  let kept := path.toList.rdropWhile (· == '/')
  if kept.isEmpty then path else String.ofList kept

theorem parts_bare (path : String) : parts (bare path) = parts path := by
  have dropped : ∀ chars : List Char, chars.rdropWhile (· == '/') ≠ [] →
      parts (String.ofList (chars.rdropWhile (· == '/'))) = parts (String.ofList chars) := by
    intro chars kept
    induction chars using List.reverseRecOn with
    | nil => rfl
    | append_singleton chars last ih =>
      by_cases slash : last = '/'
      · subst slash
        rw [List.rdropWhile_concat, if_pos (by decide)] at kept ⊢
        have full : String.ofList chars ≠ "" := by
          intro empty
          obtain rfl : chars = [] := by simpa using congrArg String.toList empty
          exact kept rfl
        rw [ih kept, String.ofList_append]
        exact (parts_append_slash full).symm
      · rw [List.rdropWhile_concat, if_neg (by simpa using slash)]
  rw [bare]
  split
  · rfl
  · rename_i kept
    rw [dropped _ (by simpa using kept), String.ofList_toList]

end Path

namespace FileTree

variable {tree : FileTree} {path : String}

theorem resolve_of_grows {later : FileTree} (grows : tree.Grows later) {names : Names} {item : Item}
    (there : tree.resolve path = .ok (names, item)) : later.resolve path = .ok (names, item) := by
  have located := resolve_eq_ok.mp there
  rw [resolve_eq_ok]
  cases item with
  | directory => exact locate_directory_of_keeps grows.keeps located
  | file content =>
    refine locate_file_of_keeps grows.keeps ?_ located
    rcases grows.items names with same | ⟨free, -⟩
    · exact same
    · rw [item?_of_locate located (by simp)] at free
      cases free
  | link target => exact absurd there resolve_ne_link

theorem isPlace_of_grows {later : FileTree} (place : tree.IsPlace tree.place)
    (grows : tree.Grows later) : later.IsPlace later.place := by
  rw [grows.place]
  exact ⟨place.proper, fun outer start =>
    grows.keeps.directories outer (place.directories outer start)⟩

theorem absoluteParts_of_grows {later : FileTree} (grows : tree.Grows later) :
    later.absoluteParts path = tree.absoluteParts path := by
  rw [absoluteParts, absoluteParts, grows.place]

theorem grows_of_made {later : FileTree} {result : Except Fault Unit}
    (made : tree.perform (Change.makeDirectories path) = (result, later)) : tree.Grows later := by
  have grows := grows_makeDirectories tree path
  rwa [made] at grows

theorem partsBehind_parent? {parent : String} (found : Path.parent? path = some parent)
    (full : Path.partsBehind path ≠ []) :
    Path.partsBehind parent = (Path.partsBehind path).dropLast := by
  have behind := Path.partsBehind_eq_filter path
  have whole : Path.parts path = Path.headParts path.toList ++ Path.partsBehind path :=
    Path.parts_eq path
  obtain ⟨others, last, split⟩ := List.eq_nil_or_concat' (Path.partsBehind path) |>.resolve_left full
  rw [whole, split, ← List.append_assoc, List.filter_append] at behind
  have solid : [last].filter (·.step?.isSome) = [last] := by
    refine List.filter_eq_self.mpr fun part member => ?_
    have inside : part ∈ Path.partsBehind path := by
      rw [split, List.mem_singleton.mp member]
      simp
    rw [Path.partsBehind_eq_filter] at inside
    exact (List.mem_filter.mp inside).2
  rw [solid] at behind
  rw [Path.partsBehind_eq_filter, Path.parts_parent? found, whole, split, ← List.append_assoc,
    List.dropLast_concat, List.dropLast_concat]
  exact (List.append_cancel_right behind).symm

theorem exists_parent?_of_partsBehind (full : Path.partsBehind path ≠ []) :
    ∃ parent, Path.parent? path = some parent := by
  rw [← Option.ne_none_iff_exists', Ne, Path.parent?_eq_none_iff]
  intro bare
  refine full ?_
  rw [Path.partsBehind_eq_filter]
  rcases bare with none | root
  · rw [none]
    rfl
  · rw [root]
    rfl

theorem exists_mem_withAncestors {parts : List Path.Part} (start : parts <+: Path.partsBehind path)
    (full : parts ≠ []) :
    ∃ other ∈ Change.withAncestors path, tree.startOf other = tree.startOf path ∧
      Path.partsBehind other = parts := by
  have enough : (Path.partsBehind path).length ≤ (Path.parts path).length := by
    rw [Path.partsBehind_eq_filter]
    exact List.length_filter_le _ _
  unfold Change.withAncestors
  generalize (Path.parts path).length = count at enough
  induction count generalizing path with
  | zero =>
    have none := List.eq_nil_of_length_eq_zero (Nat.le_zero.mp enough)
    rw [none] at start
    exact absurd (List.prefix_nil.mp start) full
  | succ count ih =>
    by_cases whole : parts = Path.partsBehind path
    · obtain ⟨outer, first⟩ := exists_withAncestors_go (count + 1) path
      exact ⟨path, by simp [first], rfl, whole.symm⟩
    have behind : Path.partsBehind path ≠ [] := by
      intro none
      rw [none] at start
      exact full (List.prefix_nil.mp start)
    have inner : parts <+: (Path.partsBehind path).dropLast := by
      obtain ⟨others, last, split⟩ :=
        List.eq_nil_or_concat' (Path.partsBehind path) |>.resolve_left behind
      rw [split] at start whole ⊢
      rw [List.dropLast_concat]
      exact (List.prefix_concat_iff.mp start).resolve_left whole
    obtain ⟨parent, found⟩ := exists_parent?_of_partsBehind behind
    have parentParts := partsBehind_parent? found behind
    have fewer : (Path.partsBehind parent).length ≤ count := by
      rw [parentParts, List.length_dropLast]
      omega
    obtain ⟨other, member, startOf, same⟩ := ih (parentParts ▸ inner) fewer
    refine ⟨other, ?_, startOf.trans (startOf_parent? found), same⟩
    rw [Change.withAncestors.go, found]
    exact List.mem_cons_of_mem _ member

theorem exists_mem_withAncestors_of_isPrefix {parts : List Path.Part}
    (start : parts <+: tree.absoluteParts path)
    (outside : ¬parts <+: .root :: (tree.startOf path).map .name) :
    ∃ other ∈ Change.withAncestors path, other ≠ "" ∧ tree.absoluteParts other = parts := by
  rw [absoluteParts_eq, ← List.cons_append] at start
  obtain ⟨rest, rfl⟩ :=
    (List.prefix_or_prefix_of_prefix start (List.prefix_append _ _)).resolve_left outside
  have below : rest ≠ [] := by
    rintro rfl
    rw [List.append_nil] at outside
    exact outside List.prefix_rfl
  obtain ⟨other, member, startOf, same⟩ :=
    exists_mem_withAncestors ((List.prefix_append_right_inj _).mp start) below
  refine ⟨other, member, ?_, ?_⟩
  · rintro rfl
    exact below same.symm
  · rw [absoluteParts_eq, startOf, same, List.cons_append]

theorem absoluteParts_parent? (tree : FileTree) {parent : String}
    (found : Path.parent? path = some parent) :
    parent = "" ∨ ∃ last, tree.absoluteParts path = tree.absoluteParts parent ++ [last] := by
  rcases List.eq_nil_or_concat' (Path.partsBehind path) with none | ⟨others, last, split⟩
  · left
    refine Path.eq_empty_of_parent? found ?_
    rw [Path.filter_piecesOf, filterMap_step?_parts, none]
    rfl
  · refine Or.inr ⟨last, ?_⟩
    rw [absoluteParts_eq, absoluteParts_eq, startOf_parent? found,
      partsBehind_parent? found (by simp [split]), split]
    simp

theorem isDirectory_outer_of_ensureDirectory {later : FileTree}
    (made : tree.perform (Change.ensureDirectory path) = (.ok (), later)) {parent : String}
    (found : Path.parent? path = some parent) : parent = "" ∨ tree.isDirectory parent = true := by
  by_cases there : tree.isDirectory path = true
  · exact isDirectory_outer found there
  rw [perform_ensureDirectory, perform_makeDirectory] at made
  rcases located : tree.locate false path with fault | (⟨names, item⟩ | names)
  · simp [located, there] at made
  · simp [located, there] at made
  · by_cases bare : parent = ""
    · exact Or.inl bare
    · obtain ⟨name, last, proper⟩ := exists_name_of_locate located (by simp)
      exact Or.inr (isDirectory_parent? found bare (ends_of_getLast? proper last) located)

theorem exists_makeFirst_of_mem_go {count : Nat} {other : String}
    (full : other ≠ "") (absent : tree.isDirectory other = false)
    (member : other ∈ Change.withAncestors.go count path) {later : FileTree}
    (made : tree.perform (Change.makeFirst (Change.withAncestors.go count path)) = (.ok (), later)) :
    ∃ fewer last,
      tree.perform (Change.makeFirst (Change.withAncestors.go fewer other)) = (.ok (), last) := by
  induction count generalizing path later with
  | zero =>
    obtain rfl := List.mem_singleton.mp member
    exact ⟨0, later, made⟩
  | succ count ih =>
    by_cases own : other = path
    · exact ⟨count + 1, later, own ▸ made⟩
    rw [Change.withAncestors.go] at member made
    cases found : Path.parent? path with
    | none =>
      rw [found] at member
      exact absurd (List.mem_singleton.mp member) own
    | some parent =>
      rw [found] at member made
      have inside := (List.mem_cons.mp member).resolve_left own
      -- What is missing further out keeps the path from being made at once.
      have notAbove : ¬(parent = "" ∨ tree.isDirectory parent = true) := by
        intro above
        have there := (isDirectory_of_mem_go above inside).resolve_left full
        rw [absent] at there
        cases there
      have solid : path.isEmpty = false := by
        rw [Bool.eq_false_iff]
        intro empty
        rw [String.isEmpty_iff.mp empty, (by decide : Path.parent? "" = none)] at found
        cases found
      simp only at made
      rw [perform_makeFirst_cons, solid, if_neg Bool.false_ne_true] at made
      rcases first : tree.perform (Change.ensureDirectory path) with ⟨fault | _, next⟩
      · obtain ⟨rfl, -⟩ := perform_ensureDirectory_of_leadsTo (fun _ => rfl) first
        rw [first] at made
        simp only at made
        split at made
        · cases made
        · rcases outer : next.perform (Change.makeFirst (Change.withAncestors.go count parent)) with
            ⟨_ | _, last⟩
          · rw [outer] at made
            cases made
          · exact ih inside outer
      · exact absurd (isDirectory_outer_of_ensureDirectory first found) notAbove

theorem sound_of_makeFirst (full : path ≠ "") {outer : List String} {later : FileTree}
    (made : tree.perform (Change.makeFirst (path :: outer)) = (.ok (), later)) :
    pathFault? path = none := by
  cases fault : pathFault? path with
  | none => rfl
  | some fault' =>
    have known : fault' ≠ .notFound := by
      rintro rfl
      rw [pathFault?, if_neg (by simp [full] : ¬path.isEmpty = true)] at fault
      split at fault
      · cases fault
      · split at fault <;> cases fault
    rw [perform_makeFirst_of_fault fault known full] at made
    cases made

section Link

variable (place : tree.IsPlace tree.place) {outer : List Path.Part} {name : String}
  (parts : tree.absoluteParts path = outer ++ [.name name]) (sound : pathFault? path = none)
  {home : Names} (enters : tree.entered outer = .ok home) {target : String}
  (linked : tree.item? (home ++ [name]) = some (.link target))

include place parts sound enters linked

theorem locate_ne_free_of_link (names : Names) : tree.locate false path ≠ .ok (.free names) := by
  intro free
  obtain ⟨last, found, proper⟩ := exists_name_of_locate free (by simp)
  obtain ⟨others, part, split, steps, way⟩ := wayIn_eq_entered place found
    (by simp [Path.isSolid, proper.full, proper.here]) sound
  obtain ⟨rfl, same⟩ := List.append_inj' (split.symm.trans parts) rfl
  obtain rfl := (List.cons.inj same).1
  obtain rfl : name = last := Option.some.inj steps
  obtain ⟨other, wayOther, spot⟩ := exists_wayIn_of_locate found proper free
  obtain rfl : home = other := Except.ok.inj ((way.trans enters).symm.trans wayOther)
  obtain ⟨rfl, vacant⟩ := item?_of_spotAt_free spot
  rw [vacant] at linked
  cases linked

theorem isDirectory_of_link {count : Nat} {later : FileTree}
    (made : tree.perform (Change.makeFirst (Change.withAncestors.go count path)) = (.ok (), later)) :
    tree.isDirectory path = true := by
  by_contra absent
  obtain ⟨fault, failed⟩ :
      ∃ fault, tree.perform (Change.ensureDirectory path) = (.error fault, tree) := by
    rw [perform_ensureDirectory, perform_makeDirectory]
    rcases located : tree.locate false path with fault | (⟨names, item⟩ | names)
    · exact ⟨fault, by simp [absent]⟩
    · exact ⟨.alreadyExists, by simp [absent]⟩
    · exact absurd located (locate_ne_free_of_link place parts sound enters linked names)
  -- The directories that it is in are there, so that nothing changes before the second attempt.
  have above : ∀ parent, Path.parent? path = some parent →
      parent = "" ∨ tree.isDirectory parent = true := by
    intro parent found
    by_cases bare : parent = ""
    · exact Or.inl bare
    obtain ⟨last, split⟩ := (tree.absoluteParts_parent? found).resolve_left bare
    obtain ⟨inner, -⟩ := List.append_inj' (split.symm.trans parts) rfl
    right
    rw [isDirectory_iff_resolve]
    refine ⟨home, (resolve_eq_directory place (pathFault?_parent? found bare sound)).mpr ?_⟩
    rw [inner, enters]
  have full : path.isEmpty = false := by
    simpa using (pathFault?_eq_none_iff.mp sound).2.1
  obtain ⟨rest, first⟩ := exists_withAncestors_go count path
  obtain ⟨other, fails⟩ := perform_makeFirst_of_error full failed fun _ =>
    ⟨.ok (), perform_makeFirst_outer above first⟩
  rw [first, fails] at made
  cases made

end Link

/-- What stands in the tree stands in directories, and the working directory is one that a path can name. -/
structure IsRooted (tree : FileTree) : Prop where
  place : tree.IsPlace tree.place
  clean : ∀ name ∈ tree.place, '\x00' ∉ name.toList
  parents : ∀ names name item, tree.item? (names ++ [name]) = some item →
    tree.item? names = some .directory

theorem isRooted_of_items (root : tree.place = [])
    (inside : ∀ entry ∈ tree.items, tree.item? entry.1.dropLast = some .directory) :
    tree.IsRooted := by
  refine ⟨⟨?_, ?_⟩, ?_, fun names name item there => ?_⟩
  · simp [root]
  · intro outer start
    rw [root, List.prefix_nil] at start
    rw [start]
    rfl
  · simp [root]
  · rw [item?, if_neg (by simp)] at there
    obtain ⟨entry, found, -⟩ := Option.map_eq_some_iff.mp there
    have same : entry.1 = names ++ [name] := by simpa using List.find?_some found
    have above := inside entry (List.mem_of_find?_eq_some found)
    rwa [same, List.dropLast_concat] at above

theorem item?_of_isPrefix_place {names : Names} (place : tree.IsPlace names) {outer : List Path.Part}
    {name : String} (within : outer ++ [.name name] <+: .root :: names.map .name) {home : Names}
    (enters : tree.entered outer = .ok home) : tree.item? (home ++ [name]) = some .directory := by
  obtain ⟨more, whole⟩ := within
  cases outer with
  | nil => cases (List.cons.inj whole).1
  | cons first outer =>
    obtain ⟨rfl, inside⟩ := List.cons.inj whole
    obtain ⟨inner, others, rfl, split, -⟩ := List.map_eq_append_iff.mp inside.symm
    obtain ⟨before, last, rfl, rfl, own⟩ := List.map_eq_append_iff.mp split
    obtain ⟨other, rest, rfl, same, none⟩ := List.map_eq_cons_iff.mp own
    obtain rfl : other = name := Path.Part.name.inj same
    obtain rfl := List.map_eq_nil_iff.mp none
    have outerPlace : tree.IsPlace before :=
      ⟨fun name member => place.proper name (by simp [member]),
        fun outer start => place.directories outer (start.trans ⟨[other] ++ others, by simp⟩)⟩
    have steps : (Path.Part.root :: before.map .name).filterMap Path.Part.step? = before := by
      rw [List.filterMap_cons_none rfl, List.filterMap_map]
      exact List.filterMap_some
    rw [entered, steps, walk_of_descend (descend_names outerPlace)] at enters
    obtain rfl : before = home := Except.ok.inj enters
    exact place.directories _ ⟨others, rfl⟩

section Made

variable (rooted : tree.IsRooted) {later : FileTree}
  (made : tree.perform (Change.makeDirectories (Path.bare path)) = (.ok (), later))

include rooted made

theorem isDirectory_of_made {outer : List Path.Part} {name ending : String}
    (start : outer ++ [.name name] <+: tree.absoluteParts path) (slash : ending = "" ∨ ending = "/")
    (sound : pathFault? (Path.ofParts (outer ++ [.name name]) ++ ending) = none) {home : Names}
    (enters : tree.entered outer = .ok home) {target : String}
    (linked : tree.item? (home ++ [name]) = some (.link target)) :
    tree.isDirectory (Path.ofParts (outer ++ [.name name]) ++ ending) = true := by
  have full : outer ++ [Path.Part.name name] ≠ [] := by simp
  have outside : ¬outer ++ [.name name] <+: .root :: (tree.startOf (Path.bare path)).map .name := by
    intro within
    rw [item?_of_isPrefix_place (isPlace_startOf rooted.place _) within enters] at linked
    cases linked
  have bareStart : outer ++ [.name name] <+: tree.absoluteParts (Path.bare path) := by
    rwa [absoluteParts_of_parts_eq (Path.parts_bare path)]
  obtain ⟨other, member, otherFull, otherParts⟩ :=
    exists_mem_withAncestors_of_isPrefix bareStart outside
  by_contra absent
  have notThere : tree.isDirectory other = false := by
    rw [Bool.eq_false_iff]
    intro there
    obtain ⟨names, resolved⟩ := isDirectory_iff_resolve.mp there
    rw [resolve_eq_directory rooted.place (sound_of_resolve resolved), otherParts] at resolved
    exact absent (isDirectory_iff_resolve.mpr
      ⟨names, (resolve_ofParts rooted.place start full slash sound).mpr resolved⟩)
  obtain ⟨fewer, last, done⟩ := exists_makeFirst_of_mem_go otherFull notThere member made
  have soundOther : pathFault? other = none := by
    obtain ⟨others, first⟩ := exists_withAncestors_go fewer other
    rw [first] at done
    exact sound_of_makeFirst otherFull done
  rw [isDirectory_of_link rooted.place otherParts soundOther enters linked done] at notThere
  cases notThere

end Made

end FileTree

end Phrasebook
