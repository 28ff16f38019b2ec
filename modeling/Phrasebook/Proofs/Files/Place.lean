import Phrasebook.Proofs.Files.Join
import Phrasebook.Proofs.Files.Parent

/-!
Working directories: a path from the root leads to the same from each of them, and the path of a
directory leads to that directory.
-/

set_option autoImplicit false

namespace Phrasebook.FileTree

section Items

variable {a b : FileTree} (items : ∀ names, b.item? names = a.item? names)

include items

theorem walk_of_items (followsLast : Bool) (links : Nat) (directory : Names) (pieces : List String) :
    b.walk followsLast links directory pieces = a.walk followsLast links directory pieces := by
  fun_induction a.walk followsLast links directory pieces with
  | case1 => rw [walk_nil]
  | case2 links directory piece rest void ih => rw [walk_void _ _ _ _ (by simpa using void), ih]
  | case3 links directory piece rest solid up ih =>
    obtain rfl : piece = ".." := by simpa using up
    rw [walk_up, ih]
  | case4 links directory piece rest solid notUp long =>
    have names := solid
    simp only [Bool.or_eq_true, beq_iff_eq, not_or] at names
    rw [walk_long _ _ _ _ names.1 names.2 (by simpa using notUp) long]
  | case5 links directory piece rest solid notUp short below found alone =>
    obtain rfl := List.isEmpty_iff.mp alone
    rw [walk_free (isName_of_not solid notUp short) ((items _).trans found)]
  | case6 links directory piece rest solid notUp short below found more =>
    rw [walk_missing (isName_of_not solid notUp short) (by simpa using more) ((items _).trans found)]
  | case7 links directory piece rest solid notUp short below found ih =>
    rw [walk_directory (isName_of_not solid notUp short) rest ((items _).trans found), ih]
  | case8 links directory piece rest solid notUp short below content found alone =>
    obtain rfl := List.isEmpty_iff.mp alone
    rw [walk_file (isName_of_not solid notUp short) ((items _).trans found)]
  | case9 links directory piece rest solid notUp short below content found more =>
    rw [walk_through_file (isName_of_not solid notUp short) (by simpa using more)
      ((items _).trans found)]
  | case10 links directory piece rest solid notUp short below target found last =>
    obtain ⟨alone, stays⟩ := Bool.and_eq_true_iff.mp last
    obtain rfl := List.isEmpty_iff.mp alone
    obtain rfl : followsLast = false := by simpa using stays
    rw [walk_last_link (isName_of_not solid notUp short) ((items _).trans found)]
  | case11 directory piece rest solid notUp short below target found followed =>
    rw [walk_many_links (isName_of_not solid notUp short) (goesOn_of_not followed)
      ((items _).trans found)]
  | case12 directory piece rest solid notUp short below target found followed links start ih =>
    rw [walk_link (isName_of_not solid notUp short) (goesOn_of_not followed) ((items _).trans found)]
    exact ih

end Items

def seenFrom (tree : FileTree) (place : Names) : FileTree := { tree with place }

section SeenFrom

variable (tree : FileTree) (place : Names)

@[simp] theorem item?_seenFrom (names : Names) :
    (tree.seenFrom place).item? names = tree.item? names := rfl

@[simp] theorem place_seenFrom : (tree.seenFrom place).place = place := rfl

@[simp] theorem placePath_seenFrom : (tree.seenFrom place).placePath = absolute place := rfl

theorem walk_seenFrom (followsLast : Bool) (links : Nat) (directory : Names) (pieces : List String) :
    (tree.seenFrom place).walk followsLast links directory pieces =
      tree.walk followsLast links directory pieces :=
  walk_of_items (item?_seenFrom tree place) followsLast links directory pieces

theorem locate_seenFrom {path : String} (fromRoot : Path.isAbsolute path.toList = true)
    (followsLast : Bool) :
    (tree.seenFrom place).locate followsLast path = tree.locate followsLast path := by
  have start : (tree.seenFrom place).startOf path = tree.startOf path := by
    simp only [startOf, fromRoot, if_true]
  rw [locate_eq, locate_eq, start]
  simp only [walk_seenFrom]

end SeenFrom

structure IsPlace (tree : FileTree) (names : Names) : Prop where
  proper : ∀ name ∈ names, IsName name ∧ '/' ∉ name.toList
  directories : ∀ outer, outer <+: names → tree.item? outer = some .directory

theorem IsPlace.outer {tree : FileTree} {outer : Names} {name : String}
    (place : tree.IsPlace (outer ++ [name])) : tree.IsPlace outer :=
  ⟨fun other member => place.proper other (by simp [member]),
    fun first start => place.directories first (start.trans (List.prefix_append _ _))⟩

theorem absolute_concat_nil (name : String) : absolute [name] = "/" ++ name := by
  simp [absolute, String.join]

private theorem join_map_concat (names : Names) (name : String) :
    String.join ((names ++ [name]).map ("/" ++ ·)) =
      String.join (names.map ("/" ++ ·)) ++ "/" ++ name := by
  simp [String.join, List.foldl_append, String.append_assoc]

theorem absolute_concat {names : Names} (below : names ≠ []) (name : String) :
    absolute (names ++ [name]) = absolute names ++ "/" ++ name := by
  obtain ⟨first, rest, rfl⟩ := List.exists_cons_of_ne_nil below
  exact join_map_concat (first :: rest) name

theorem isAbsolute_absolute (names : Names) : Path.isAbsolute (absolute names).toList = true := by
  induction names using List.reverseRecOn with
  | nil => rfl
  | append_singleton names name ih =>
    by_cases below : names = []
    · subst below
      rw [List.nil_append, absolute_concat_nil]
      simp [Path.isAbsolute, String.toList_append]
    · rw [absolute_concat below, String.append_assoc]
      obtain ⟨c, chars, split⟩ : ∃ c chars, (absolute names).toList = c :: chars := by
        cases chars : (absolute names).toList with
        | nil => simp [chars, Path.isAbsolute] at ih
        | cons c rest => exact ⟨c, rest, rfl⟩
      simpa [Path.isAbsolute, String.toList_append, split] using ih

theorem piecesOf_absolute {names : Names} (inside : ∀ name ∈ names, '/' ∉ name.toList) :
    piecesOf (absolute names) = "" :: if names = [] then [""] else names := by
  induction names using List.reverseRecOn with
  | nil => decide
  | append_singleton names name ih =>
    have last := piecesOf_of_not_mem (inside name (by simp))
    by_cases below : names = []
    · subst below
      have root := piecesOf_append "" name
      rw [String.empty_append] at root
      rw [List.nil_append, absolute_concat_nil, root, last]
      rfl
    · rw [absolute_concat below, piecesOf_append, last, ih fun other member => inside other
        (by simp [member])]
      simp [below]

theorem descend_names {tree : FileTree} {names : Names} (place : tree.IsPlace names) :
    tree.descend [] names = some names := by
  -- From the last name backwards: each directory is entered from the one that it is in.
  induction names using List.reverseRecOn with
  | nil => rfl
  | append_singleton names name ih =>
    obtain ⟨proper, -⟩ := place.proper name (by simp)
    have there := place.directories (names ++ [name]) List.prefix_rfl
    rw [descend_append, ih place.outer, Option.bind_some, descend,
      if_neg (by simp [proper.full, proper.here]), if_neg (by simpa using proper.up),
      if_neg (by have := proper.short; omega), if_pos there]
    rfl

theorem descend_absolute {tree : FileTree} {names : Names} (place : tree.IsPlace names) :
    tree.descend [] (piecesOf (absolute names)) = some names := by
  rw [piecesOf_absolute fun name member => (place.proper name member).2]
  by_cases root : names = []
  · subst root
    rfl
  rw [if_neg root]
  exact descend_names place

theorem absolute_ne_empty (names : Names) : absolute names ≠ "" := by
  intro empty
  have root := isAbsolute_absolute names
  rw [empty] at root
  cases root

theorem parts_absolute {names : Names}
    (proper : ∀ name ∈ names, IsName name ∧ '/' ∉ name.toList) :
    Path.parts (absolute names) = .root :: names.map .name := by
  induction names using List.reverseRecOn with
  | nil => decide
  | append_singleton names name ih =>
    obtain ⟨last, inside⟩ := proper name (by simp)
    have outer := ih fun other member => proper other (by simp [member])
    by_cases below : names = []
    · subst below
      rw [List.nil_append, absolute_concat_nil, Path.parts_root_append,
        Path.partsBehind_of_isName last inside]
      rfl
    · rw [absolute_concat below, Path.parts_append last inside (absolute_ne_empty names), outer]
      simp

theorem join_absolute {names : Names} (proper : ∀ name ∈ names, IsName name ∧ '/' ∉ name.toList)
    (below : names ≠ []) {path : String} (relative : Path.isAbsolute path.toList = false) :
    Path.join (absolute names) path = absolute names ++ "/" ++ path := by
  obtain ⟨outer, name, rfl⟩ := List.eq_nil_or_concat' names |>.resolve_left below
  obtain ⟨last, inside⟩ := proper name (by simp)
  by_cases root : outer = []
  · subst root
    have joined := Path.join_append last inside relative ""
    rwa [String.empty_append, ← absolute_concat_nil] at joined
  · rw [absolute_concat root, Path.join_append last inside relative]

theorem parent?_join_absolute {names : Names}
    (proper : ∀ name ∈ names, IsName name ∧ '/' ∉ name.toList) (below : names ≠ [])
    {name : String} (last : IsName name) (inside : '/' ∉ name.toList) :
    Path.parent? (Path.join (absolute names) name) = some (absolute names) := by
  have pieces := piecesOf_absolute fun other member => (proper other member).2
  obtain ⟨outer, final, rfl⟩ := List.eq_nil_or_concat' names |>.resolve_left below
  rw [if_neg below] at pieces
  obtain ⟨own, -⟩ := proper final (by simp)
  have ends : (piecesOf (absolute (outer ++ [final]))).getLast? = some final := by
    rw [pieces, ← List.cons_append, List.getLast?_concat]
  rw [join_absolute proper below (Path.isAbsolute_of_not_mem inside)]
  exact Path.parent?_append ends own.isSolid last inside

theorem same_absolute_iff {a b : Names} (properA : ∀ name ∈ a, IsName name ∧ '/' ∉ name.toList)
    (properB : ∀ name ∈ b, IsName name ∧ '/' ∉ name.toList) :
    Path.same (absolute a) (absolute b) = true ↔ a = b := by
  rw [Path.same, beq_iff_eq, parts_absolute properA, parts_absolute properB, List.cons_inj_right]
  constructor
  · intro same
    refine List.map_injective_iff.mpr (fun x y h => ?_) same
    exact Path.Part.name.inj h
  · rintro rfl
    rfl

section Joined

variable {directory path : String} (full : path ≠ "")
  (short : (Path.join directory path).utf8ByteSize < pathLimit)

include full short

theorem pathFault?_join (clean : '\x00' ∉ directory.toList) :
    pathFault? (Path.join directory path) = pathFault? path := by
  have whole : Path.join directory path ≠ "" := Path.join_ne_empty full
  have suffix : ∃ start, '\x00' ∉ start.toList ∧ Path.join directory path = start ++ path := by
    cases fromRoot : Path.isAbsolute path.toList with
    | true =>
      exact ⟨"", by simp, by rw [Path.join_of_isAbsolute _ fromRoot, String.empty_append]⟩
    | false =>
      refine ⟨Path.opened directory, ?_, Path.join_eq _ fromRoot⟩
      unfold Path.opened
      split
      · simp
      · split
        · exact clean
        · simpa [String.toList_append] using clean
  obtain ⟨start, sound, spelled⟩ := suffix
  have held : (Path.join directory path).toList.contains '\x00' = path.toList.contains '\x00' := by
    rw [spelled, String.toList_append]
    simp [sound]
  have shorter : path.utf8ByteSize < pathLimit := by
    rw [spelled, String.utf8ByteSize_append] at short
    omega
  have bare : ¬(Path.join directory path).isEmpty = true := by simp [whole]
  have pathBare : ¬path.isEmpty = true := by simp [full]
  have fits : ¬(Path.join directory path).utf8ByteSize ≥ pathLimit := Nat.not_le.mpr short
  have pathFits : ¬path.utf8ByteSize ≥ pathLimit := Nat.not_le.mpr shorter
  simp only [pathFault?, held, bare, pathBare, fits, pathFits, if_false]

end Joined

theorem locate_child {tree : FileTree} {home : Names} (place : tree.IsPlace home) {name : String}
    (proper : IsName name) (inside : '/' ∉ name.toList)
    (sound : pathFault? (Path.join (absolute home) name) = none)
    (solid : ∀ target, tree.item? (home ++ [name]) ≠ some (.link target)) (followsLast : Bool) :
    tree.locate followsLast (Path.join (absolute home) name) =
      .ok (tree.spotAt (home ++ [name])) := by
  have root : tree.startOf (absolute home) = [] := by
    simp only [startOf, isAbsolute_absolute, if_true]
  have start : tree.descend (tree.startOf (absolute home)) (piecesOf (absolute home)) =
      some home := by
    rw [root, descend_absolute place]
  rw [locate_join (Path.isAbsolute_of_not_mem inside) sound start, piecesOf_of_not_mem inside,
    spotAt]
  cases found : tree.item? (home ++ [name]) with
  | none => exact walk_free proper found
  | some item =>
    cases item with
    | file content => exact walk_file proper found
    | directory => rw [walk_directory proper [] found, walk_nil]
    | link target => exact absurd found (solid target)

theorem clean_of_pathFault?_join {directory path : String}
    (relative : Path.isAbsolute path.toList = false)
    (sound : pathFault? (Path.join directory path) = none) : '\x00' ∉ directory.toList := by
  intro inside
  have held : (Path.join directory path).toList.contains '\x00' = true := by
    have full : directory ≠ "" := by
      rintro rfl
      cases inside
    rw [Path.join_eq _ relative, Path.opened, if_neg (by simp [full])]
    split <;> simp [String.toList_append, inside]
  rw [pathFault?, if_pos held] at sound
  cases sound

/-- From every directory a path that is joined to a directory leads where it leads from there, unless
it becomes too long. -/
theorem locate_join_absolute {tree : FileTree} {home : Names} (place : tree.IsPlace home)
    (clean : '\x00' ∉ (absolute home).toList) {path : String} (full : path ≠ "")
    (short : (Path.join (absolute home) path).utf8ByteSize < pathLimit) (elsewhere : Names)
    (followsLast : Bool) :
    (tree.seenFrom elsewhere).locate followsLast (Path.join (absolute home) path) =
      (tree.seenFrom home).locate followsLast path := by
  cases fromRoot : Path.isAbsolute path.toList with
  | true =>
    rw [Path.join_of_isAbsolute _ fromRoot, locate_seenFrom _ _ fromRoot,
      locate_seenFrom _ _ fromRoot]
  | false =>
    have start : (tree.seenFrom home).startOf path = home := by
      simp only [startOf, fromRoot, Bool.false_eq_true, if_false, place_seenFrom]
    have root : tree.startOf (absolute home) = [] := by
      simp only [startOf, isAbsolute_absolute, if_true]
    have outer : Path.isAbsolute (Path.join (absolute home) path).toList = true := by
      rw [Path.isAbsolute_join _ fromRoot, isAbsolute_absolute]
    rw [locate_seenFrom _ _ outer, locate_eq, locate_eq, pathFault?_join full short clean, start,
      startOf_join fromRoot, root, walk_join fromRoot (descend_absolute place)]
    simp only [walk_seenFrom]

theorem resolve_join_absolute {tree : FileTree} {home : Names} (place : tree.IsPlace home)
    (clean : '\x00' ∉ (absolute home).toList) {path : String} (full : path ≠ "")
    (short : (Path.join (absolute home) path).utf8ByteSize < pathLimit) (elsewhere : Names) :
    (tree.seenFrom elsewhere).resolve (Path.join (absolute home) path) =
      (tree.seenFrom home).resolve path := by
  rw [resolve, resolve, locate_join_absolute place clean full short]

end Phrasebook.FileTree
