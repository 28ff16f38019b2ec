import Phrasebook.Proofs.Files.Directory
import Phrasebook.Proofs.Files.Parent

/-!
Paths that lead somewhere. They lead over the directory that their parent is, and paths with one parent
lead into one directory.
-/

set_option autoImplicit false

namespace Phrasebook

namespace Path

theorem exists_last_part {path last : String} (found : (FileTree.piecesOf path).getLast? = some last)
    (solid : isSolid last = true) :
    ∃ outer part, parts path = outer ++ [part] ∧ part.step? = some last := by
  obtain ⟨piece, there, rfl⟩ : ∃ piece,
      (Text.splitAt (· == '/') path.toList).getLast? = some piece ∧ String.ofList piece = last := by
    simpa [FileTree.piecesOf, List.getLast?_map] using found
  rw [isSolid_ofList, Bool.not_eq_true'] at solid
  obtain ⟨others, split⟩ := List.getLast?_eq_some_iff.mp there
  obtain ⟨part, stands, steps⟩ : ∃ part, partOf? piece = some part ∧
      part.step? = some (String.ofList piece) := by
    by_cases up : piece = ['.', '.']
    · subst up
      exact ⟨.up, by decide, rfl⟩
    · exact ⟨.name (String.ofList piece), by simp [partOf?, solid, up], rfl⟩
  refine ⟨headParts path.toList ++ others.filterMap partOf?, part, ?_, steps⟩
  rw [parts_eq, split, List.filterMap_append, List.filterMap_cons_some stands, List.filterMap_nil,
    List.append_assoc]

theorem exists_parent?_of_last {path last : String}
    (found : (FileTree.piecesOf path).getLast? = some last) (solid : isSolid last = true) :
    ∃ parent part, parent? path = some parent ∧ parts path = parts parent ++ [part] := by
  obtain ⟨outer, part, split, steps⟩ := exists_last_part found solid
  have some_ : parent? path ≠ none := by
    rw [Ne, parent?_eq_none_iff, split]
    rintro (none_ | root)
    · simp at none_
    · obtain ⟨rfl, single⟩ := List.append_eq_singleton_iff.mp root |>.resolve_right (by simp)
      rw [List.singleton_inj.mp single] at steps
      cases steps
  obtain ⟨parent, above⟩ := Option.ne_none_iff_exists'.mp some_
  refine ⟨parent, part, above, ?_⟩
  rw [parts_parent? above, split, List.dropLast_concat]

theorem eq_empty_of_parent? {path parent : String} (found : parent? path = some parent)
    (void : (FileTree.piecesOf path).filter isSolid = []) : parent = "" := by
  have few : (parts path).length ≤ 1 := by
    rw [filter_piecesOf, parts_eq, List.filterMap_append, filterMap_headParts, List.nil_append,
      List.filterMap_eq_nil_iff] at void
    have bare : (Text.splitAt (· == '/') path.toList).filterMap partOf? = [] := by
      refine List.eq_nil_iff_forall_not_mem.mpr fun part hp => ?_
      obtain ⟨piece, -, stands⟩ := List.mem_filterMap.mp hp
      have named := part_of_partOf? stands
      have silent := void part hp
      cases part with
      | root => exact named.1 rfl
      | here => exact named.2 rfl
      | up => cases silent
      | name text => cases silent
    rw [parts_eq, bare, List.append_nil, headParts]
    split <;> simp
  have outer : parts parent = [] := by
    rw [parts_parent? found]
    exact List.eq_nil_of_length_eq_zero (by rw [List.length_dropLast]; omega)
  have empty := isEmpty_eq parent
  rw [outer] at empty
  exact String.isEmpty_iff.mp empty

end Path

namespace FileTree

variable {tree : FileTree}

theorem spotAt_injective (tree : FileTree) : Function.Injective tree.spotAt := by
  intro a b same
  unfold spotAt at same
  split at same
  · split at same
    · exact (Spot.item.inj same).1
    · cases same
  · split at same
    · cases same
    · exact Spot.free.inj same

private theorem eq_of_map_eq {ε α β : Type} {f : α → β} (injective : Function.Injective f)
    {a b : Except ε α} (same : a.map f = b.map f) : a = b := by
  cases a with
  | error fault =>
    cases b with
    | error other => rw [Except.error.inj same]
    | ok value => cases same
  | ok value =>
    cases b with
    | error other => cases same
    | ok other => rw [injective (Except.ok.inj same)]

theorem enter_walk_filter (tree : FileTree) (links : Nat) (directory : Names)
    (pieces : List String) :
    (tree.walk true links directory (pieces.filter Path.isSolid)).bind Spot.enter =
      (tree.walk true links directory pieces).bind Spot.enter := by
  -- Any name will do to look up in the directory.
  have proper : IsName "x" := ⟨by decide, by decide, by decide, by decide⟩
  have solid : ["x"].filter Path.isSolid = ["x"] := by decide
  have ends : Ends (pieces ++ ["x"]) := ends_of_getLast? proper (by simp)
  have both := tree.walk_filter false links directory ends
  rw [List.filter_append, solid, walk_concat proper (by simp), walk_concat proper (by simp)] at both
  refine (eq_of_map_eq (fun a b same => ?_) both).symm
  exact List.append_cancel_right (tree.spotAt_injective same)

section Parts

variable {path last : String} {outer : List Path.Part} {part : Path.Part}
  (found : (piecesOf path).getLast? = some last) (solid : Path.isSolid last = true)
  (parts : Path.parts path = outer ++ [part]) (steps : part.step? = some last)

include found solid parts steps

private theorem filter_dropLast :
    (piecesOf path).dropLast.filter Path.isSolid = outer.filterMap Path.Part.step? := by
  obtain ⟨pieces, split⟩ := List.getLast?_eq_some_iff.mp found
  have all := Path.filter_piecesOf path
  rw [parts, split, List.filter_append, List.filter_cons_of_pos solid, List.filter_nil,
    List.filterMap_append, List.filterMap_cons_some steps, List.filterMap_nil] at all
  rw [split, List.dropLast_concat]
  exact List.append_cancel_right all

theorem wayIn_eq_walk (tree : FileTree) (sound : pathFault? path = none) :
    tree.wayIn path =
      (tree.walk true linkLimit (tree.startOf path) (outer.filterMap Path.Part.step?)).bind
        Spot.enter := by
  rw [wayIn, sound, ← filter_dropLast found solid parts steps, enter_walk_filter]

end Parts

/-- Paths that differ in their last parts only lead into one directory. -/
theorem wayIn_congr {a b x y : String} (lastA : (piecesOf a).getLast? = some x)
    (lastB : (piecesOf b).getLast? = some y) (properA : IsName x) (properB : IsName y)
    (soundA : pathFault? a = none) (soundB : pathFault? b = none)
    (same : (Path.parts a).dropLast = (Path.parts b).dropLast) (tree : FileTree) :
    tree.wayIn a = tree.wayIn b := by
  obtain ⟨outer, p, partsA, stepsA⟩ := Path.exists_last_part lastA properA.isSolid
  obtain ⟨others, q, partsB, stepsB⟩ := Path.exists_last_part lastB properB.isSolid
  obtain rfl : outer = others := by simpa [partsA, partsB] using same
  have start : tree.startOf a = tree.startOf b := by
    rw [startOf, startOf, Path.isAbsolute_eq, Path.isAbsolute_eq, partsA, partsB]
    cases outer with
    | nil => cases p <;> cases q <;> simp_all [Path.Part.step?]
    | cons first more => rfl
  rw [wayIn_eq_walk lastA properA.isSolid partsA stepsA tree soundA,
    wayIn_eq_walk lastB properB.isSolid partsB stepsB tree soundB, start]

theorem pathFault?_parent? {path parent : String}
    (found : Path.parent? path = some parent) (full : parent ≠ "") (sound : pathFault? path = none) :
    pathFault? parent = none := by
  have short : path.utf8ByteSize < pathLimit := by
    by_contra long
    exact pathFault?_ne_none (by omega) sound
  have clean : parent.toList.contains '\x00' = false := by
    have whole : path.toList.contains '\x00' = false := by
      by_contra nul
      rw [pathFault?, if_pos (by simpa using nul)] at sound
      cases sound
    rw [Path.contains_eq (by decide) (by decide), List.any_eq_false] at whole ⊢
    rw [Path.parts_parent? found]
    exact fun part hp => whole part (List.dropLast_subset _ hp)
  have size := Path.utf8ByteSize_parent? found
  rw [pathFault?, clean, if_neg Bool.false_ne_true, if_neg (by simpa using full), if_neg (by omega)]

theorem startOf_parent? {path parent : String}
    (found : Path.parent? path = some parent) :
    tree.startOf parent = tree.startOf path := by
  have head : (Path.parts parent).head? = some .root ↔ (Path.parts path).head? = some .root := by
    have below : ¬(Path.parts path = [] ∨ Path.parts path = [.root]) := by
      rw [← Path.parent?_eq_none_iff, found]
      simp
    rw [Path.parts_parent? found]
    rcases parts : Path.parts path with _ | ⟨first, _ | ⟨second, rest⟩⟩
    · exact absurd (Or.inl parts) below
    · simp only [List.dropLast_singleton, List.head?_nil, List.head?_cons, Option.some.injEq]
      refine iff_of_false (by simp) ?_
      rintro rfl
      exact below (Or.inr parts)
    · rfl
  rw [startOf, startOf, Path.isAbsolute_eq, Path.isAbsolute_eq]
  simp only [beq_iff_eq, head]

theorem enter_locate_parts {path : String} (sound : pathFault? path = none) :
    (tree.locate true path).bind Spot.enter =
      (tree.walk true linkLimit (tree.startOf path)
        ((Path.parts path).filterMap Path.Part.step?)).bind Spot.enter := by
  rw [locate_eq, sound]
  simp only
  rw [← enter_walk_filter, Path.filter_piecesOf]

theorem enter_locate_eq_ok {path : String} {names : Names} :
    (tree.locate true path).bind Spot.enter = .ok names ↔
      tree.resolve path = .ok (names, .directory) := by
  rw [resolve_eq_ok]
  constructor
  · intro enters
    cases located : tree.locate true path with
    | error fault =>
      rw [located] at enters
      cases enters
    | ok spot =>
      rw [located] at enters
      rw [enter_eq_ok enters]
  · intro located
    rw [located]
    rfl

theorem isDirectory_iff_enter {path : String} (sound : pathFault? path = none) :
    tree.isDirectory path = true ↔
      ∃ names, (tree.walk true linkLimit (tree.startOf path)
        ((Path.parts path).filterMap Path.Part.step?)).bind Spot.enter = .ok names := by
  rw [isDirectory_iff_resolve, ← enter_locate_parts sound]
  exact exists_congr fun names => enter_locate_eq_ok.symm

theorem isDirectory_parent? {path parent : String} (found : Path.parent? path = some parent)
    (full : parent ≠ "") (ends : Ends (piecesOf path)) {followsLast : Bool} {spot : Spot}
    (there : tree.locate followsLast path = .ok spot) : tree.isDirectory parent = true := by
  rcases ends with void | ⟨last, ended, solid⟩
  · exact absurd (Path.eq_empty_of_parent? found void) full
  obtain ⟨outer, part, parts, steps⟩ := Path.exists_last_part ended solid
  have parentParts : Path.parts parent = outer := by
    rw [Path.parts_parent? found, parts, List.dropLast_concat]
  rw [locate_eq] at there
  cases sound : pathFault? path with
  | some fault => simp [sound] at there
  | none =>
    simp only [sound] at there
    obtain ⟨pieces, split⟩ := List.getLast?_eq_some_iff.mp ended
    rw [split] at there
    rcases tree.walk_append followsLast linkLimit (tree.startOf path) pieces
      (List.cons_ne_nil last []) with ⟨home, left, enters, -⟩ | ⟨fault, -, fails⟩
    · have inner := enter_walk_filter tree linkLimit (tree.startOf path) pieces
      have outerSteps := filter_dropLast ended solid parts steps
      rw [split, List.dropLast_concat] at outerSteps
      have mine := enter_walk_filter tree linkLimit (tree.startOf path) (piecesOf parent)
      rw [Path.filter_piecesOf, parentParts, ← outerSteps, inner, enters] at mine
      rw [isDirectory_iff, locate_eq, pathFault?_parent? found full sound, startOf_parent? found]
      simp only
      cases way : tree.walk true linkLimit (tree.startOf path) (piecesOf parent) with
      | error fault =>
        rw [way] at mine
        cases mine
      | ok spot =>
        rw [way] at mine
        exact ⟨home, congrArg Except.ok (enter_eq_ok mine.symm)⟩
    · rw [fails] at there
      cases there

theorem exists_enter_outer {start names : Names} {outer : List Path.Part} {part : Path.Part}
    (enters : (tree.walk true linkLimit start ((outer ++ [part]).filterMap Path.Part.step?)).bind
      Spot.enter = .ok names) :
    ∃ home, (tree.walk true linkLimit start (outer.filterMap Path.Part.step?)).bind Spot.enter =
      .ok home := by
  rw [List.filterMap_append] at enters
  cases step : part.step? with
  | none =>
    rw [List.filterMap_cons_none step, List.filterMap_nil, List.append_nil] at enters
    exact ⟨names, enters⟩
  | some piece =>
    rw [List.filterMap_cons_some step, List.filterMap_nil] at enters
    rcases tree.walk_append true linkLimit start (outer.filterMap Path.Part.step?)
      (List.cons_ne_nil piece []) with ⟨home, left, inner, -⟩ | ⟨fault, -, fails⟩
    · exact ⟨home, inner⟩
    · rw [fails] at enters
      cases enters

theorem isDirectory_outer {path parent : String} (found : Path.parent? path = some parent)
    (there : tree.isDirectory path = true) : parent = "" ∨ tree.isDirectory parent = true := by
  by_cases full : parent = ""
  · exact Or.inl full
  right
  have sound : pathFault? path = none := by
    cases fault : pathFault? path with
    | none => rfl
    | some fault =>
      rw [isDirectory_iff, locate_eq, fault] at there
      obtain ⟨names, located⟩ := there
      cases located
  rw [isDirectory_iff_enter sound] at there
  rw [isDirectory_iff_enter (pathFault?_parent? found full sound), startOf_parent? found,
    Path.parts_parent? found]
  obtain ⟨names, enters⟩ := there
  rcases List.eq_nil_or_concat' (Path.parts path) with none | ⟨outer, part, split⟩
  · exact ⟨names, by rwa [none] at enters ⊢⟩
  · rw [split] at enters ⊢
    rw [List.dropLast_concat]
    exact exists_enter_outer enters

theorem isDirectory_of_mem_go {count : Nat} {path other : String}
    (there : path = "" ∨ tree.isDirectory path = true)
    (member : other ∈ Change.withAncestors.go count path) :
    other = "" ∨ tree.isDirectory other = true := by
  induction count generalizing path with
  | zero =>
    obtain rfl := List.mem_singleton.mp member
    exact there
  | succ count ih =>
    unfold Change.withAncestors.go at member
    split at member
    · obtain rfl := List.mem_singleton.mp member
      exact there
    · rename_i parent found
      rcases List.mem_cons.mp member with rfl | member
      · exact there
      refine ih ?_ member
      rcases there with rfl | there
      · have none : Path.parent? "" = none := by decide
        rw [none] at found
        cases found
      · exact isDirectory_outer found there

theorem isDirectory_of_mem_withAncestors {path other : String}
    (there : path = "" ∨ tree.isDirectory path = true) (member : other ∈ Change.withAncestors path) :
    other = "" ∨ tree.isDirectory other = true :=
  isDirectory_of_mem_go there member

theorem sound_of_wayIn {tree : FileTree} {path : String} {home : Names}
    (way : tree.wayIn path = .ok home) : pathFault? path = none := by
  cases fault : pathFault? path with
  | none => rfl
  | some other => simp [wayIn, fault] at way

theorem exists_wayIn_of_locate {tree : FileTree} {path name : String}
    (last : (piecesOf path).getLast? = some name) (proper : IsName name) {spot : Spot}
    (there : tree.locate false path = .ok spot) :
    ∃ home, tree.wayIn path = .ok home ∧ spot = tree.spotAt (home ++ [name]) := by
  rw [locate_false_eq_wayIn tree last proper] at there
  cases way : tree.wayIn path with
  | error fault =>
    rw [way] at there
    cases there
  | ok home =>
    rw [way] at there
    exact ⟨home, rfl, (Except.ok.inj there).symm⟩

theorem locate_of_wayIn {tree : FileTree} {path name : String} {home : Names}
    (last : (piecesOf path).getLast? = some name) (proper : IsName name)
    (way : tree.wayIn path = .ok home)
    (solid : ∀ target, tree.item? (home ++ [name]) ≠ some (.link target)) (followsLast : Bool) :
    tree.locate followsLast path = .ok (tree.spotAt (home ++ [name])) := by
  have lands : tree.Lands path name := by
    intro other there target linked
    obtain rfl : home = other := Except.ok.inj (way.symm.trans there)
    exact solid target linked
  rw [locate_eq_wayIn_of_lands last proper fun _ => lands, way]
  rfl

theorem locate_of_vacant {tree : FileTree} {path name : String} {home : Names}
    (last : (piecesOf path).getLast? = some name) (proper : IsName name)
    (way : tree.wayIn path = .ok home) (free : tree.item? (home ++ [name]) = none)
    (followsLast : Bool) : tree.locate followsLast path = .ok (.free (home ++ [name])) := by
  rw [locate_of_wayIn last proper way (by simp [free]), spotAt, free]

theorem item?_of_spotAt_item {tree : FileTree} {names other : Names} {item : Item}
    (h : .item names item = tree.spotAt other) : other = names ∧ tree.item? names = some item := by
  unfold spotAt at h
  split at h
  · rename_i found there
    obtain ⟨rfl, rfl⟩ := Spot.item.inj h
    exact ⟨rfl, there⟩
  · cases h

theorem exists_wayIn_of_resolve {tree : FileTree} {path name : String}
    (last : (piecesOf path).getLast? = some name) (proper : IsName name) {names : Names} {item : Item}
    (there : tree.resolve path = .ok (names, item)) :
    ∃ home, tree.wayIn path = .ok home ∧
      (names = home ++ [name] ∧ tree.item? names = some item ∨
        ∃ target, tree.item? (home ++ [name]) = some (.link target)) := by
  have located := resolve_eq_ok.mp there
  cases way : tree.wayIn path with
  | error fault =>
    have lands : tree.Lands path name := by
      intro home enters
      rw [way] at enters
      cases enters
    rw [locate_eq_wayIn_of_lands last proper fun _ => lands, way] at located
    cases located
  | ok home =>
    refine ⟨home, rfl, ?_⟩
    by_cases linked : ∃ target, tree.item? (home ++ [name]) = some (.link target)
    · exact Or.inr linked
    · rw [locate_of_wayIn last proper way (by simpa using linked)] at located
      obtain ⟨rfl, found⟩ := item?_of_spotAt_item (Except.ok.inj located).symm
      exact Or.inl ⟨rfl, found⟩

theorem item?_of_spotAt_free {tree : FileTree} {names other : Names}
    (h : .free names = tree.spotAt other) : other = names ∧ tree.item? names = none := by
  unfold spotAt at h
  split at h
  · cases h
  · rename_i there
    obtain rfl := Spot.free.inj h
    exact ⟨rfl, there⟩

theorem unlinked_of_links {tree later : FileTree} {name : String}
    (links : ∀ other target, later.item? other = some (.link target) →
      tree.item? other = some (.link target)) (unlinked : tree.Unlinked name) :
    later.Unlinked name :=
  fun names target h => unlinked names target (links names target h)

theorem links_of_grows {tree later : FileTree} (grows : tree.Grows later) (other : Names)
    (target : String) (h : later.item? other = some (.link target)) :
    tree.item? other = some (.link target) := by
  rcases grows.items other with same | ⟨_, made⟩
  · rw [← same, h]
  · rw [h] at made
    cases made

theorem links_of_put {tree : FileTree} {names : Names} (takes : tree.TakesFile names)
    (content : Content) (other : Names) (target : String)
    (h : (tree.put names (.file content)).item? other = some (.link target)) :
    tree.item? other = some (.link target) := by
  rw [item?_put takes.below] at h
  split at h
  · cases h
  · exact h

theorem links_of_erase {tree : FileTree} {names : Names} (below : names ≠ [])
    (other : Names) (target : String)
    (h : (tree.erase names).item? other = some (.link target)) :
    tree.item? other = some (.link target) := by
  rw [item?_erase below] at h
  split at h
  · cases h
  · exact h

section Named

variable {tree later : FileTree} {path name : String}

theorem locate_put (last : (piecesOf path).getLast? = some name) (proper : IsName name)
    {home : Names} (way : tree.wayIn path = .ok home)
    (takes : tree.TakesFile (home ++ [name])) (content : Content) :
    (tree.put (home ++ [name]) (.file content)).locate false path =
      .ok (.item (home ++ [name]) (.file content)) := by
  rw [locate_false_eq_wayIn _ last proper, wayIn_of_keeps (keeps_put takes _) way]
  simp [Except.map, spotAt, item?_put takes.below]

theorem exists_of_write (last : (piecesOf path).getLast? = some name) (proper : IsName name)
    (unlinked : tree.Unlinked name) {content : Content}
    (written : tree.perform (Change.write path content) = (.ok (), later)) :
    ∃ home, tree.wayIn path = .ok home ∧ tree.TakesFile (home ++ [name]) ∧
      later = tree.put (home ++ [name]) (.file content) := by
  rw [perform_write, locate_eq_wayIn last proper unlinked] at written
  cases way : tree.wayIn path with
  | error fault =>
    rw [way] at written
    cases written
  | ok home =>
    rw [way] at written
    simp only [Except.map, spotAt] at written
    refine ⟨home, rfl, ?_⟩
    cases found : tree.item? (home ++ [name]) with
    | none =>
      rw [found] at written
      exact ⟨Or.inl found, (congrArg Prod.snd written).symm⟩
    | some item =>
      rw [found] at written
      cases item with
      | file old => exact ⟨Or.inr ⟨old, found⟩, (congrArg Prod.snd written).symm⟩
      | directory => cases written
      | link target => cases written

end Named

end FileTree

end Phrasebook
