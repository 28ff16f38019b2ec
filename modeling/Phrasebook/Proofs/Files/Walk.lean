import Phrasebook.Files.Change

/-!
The way of a path. It leads over directories and links to a directory, where its last piece is looked
up; so it stays the same as long as directories and links are kept.
-/

set_option autoImplicit false

namespace Phrasebook.FileTree

private theorem find?_replaced (names : Names) (item : Item) (items : List (Names × Item))
    (other : Names) :
    (put.replaced names item items).find? (·.1 == other) =
      if other = names then some (names, item) else items.find? (·.1 == other) := by
  fun_induction put.replaced names item items with
  | case1 =>
    by_cases here : other = names
    · simp [here]
    · simp [here, Ne.symm here]
  | case2 first rest same =>
    by_cases here : other = names
    · simp [here]
    · have there : first.1 ≠ other := same ▸ Ne.symm here
      simp [here, Ne.symm here, there]
  | case3 first rest different ih =>
    by_cases found : first.1 = other
    · have there : other ≠ names := found ▸ different
      simp [found, there]
    · rw [List.find?_cons_of_neg (by simpa using found), ih,
        List.find?_cons_of_neg (by simpa using found)]

theorem item?_put {names : Names} (below : names ≠ []) (tree : FileTree) (item : Item)
    (other : Names) :
    (tree.put names item).item? other = if other = names then some item else tree.item? other := by
  unfold item?
  by_cases root : other = []
  · have there : other ≠ names := fun h => below (h ▸ root)
    simp [root, Ne.symm below]
  · simp only [List.isEmpty_iff, root, if_false, put, find?_replaced]
    split <;> rfl

theorem item?_erase {names : Names} (below : names ≠ []) (tree : FileTree) (other : Names) :
    (tree.erase names).item? other = if other = names then none else tree.item? other := by
  unfold item?
  by_cases root : other = []
  · simp [root, Ne.symm below]
  · simp only [List.isEmpty_iff, root, if_false, erase, List.find?_filter]
    by_cases here : other = names
    · simp [here]
    · have same : (fun item : Names × Item =>
          decide ((item.1 != names) = true ∧ (item.1 == other) = true)) =
          fun item => item.1 == other := by
        funext item
        by_cases there : item.1 = other
        · simp [there, here]
        · simp [there]
      rw [if_neg here, same]

theorem place_put (tree : FileTree) (names : Names) (item : Item) :
    (tree.put names item).place = tree.place := rfl

theorem place_erase (tree : FileTree) (names : Names) :
    (tree.erase names).place = tree.place := rfl

/-- A later tree that has all directories and links of this one. -/
structure Keeps (tree later : FileTree) : Prop where
  place : later.place = tree.place
  directories : ∀ names, tree.item? names = some .directory → later.item? names = some .directory
  links : ∀ names target, tree.item? names = some (.link target) →
    later.item? names = some (.link target)

theorem Keeps.refl (tree : FileTree) : tree.Keeps tree := ⟨rfl, fun _ h => h, fun _ _ h => h⟩

theorem Keeps.trans {tree next later : FileTree} (first : tree.Keeps next)
    (second : next.Keeps later) : tree.Keeps later := by
  refine ⟨second.place.trans first.place, ?_, ?_⟩
  · intro names h
    exact second.directories names (first.directories names h)
  · intro names target h
    exact second.links names target (first.links names target h)

/-- A piece of a path that is looked up in a directory. -/
structure IsName (piece : String) : Prop where
  full : piece ≠ ""
  here : piece ≠ "."
  up : piece ≠ ".."
  short : piece.utf8ByteSize ≤ nameLimit

instance (piece : String) : Decidable (IsName piece) :=
  decidable_of_iff
    (piece ≠ "" ∧ piece ≠ "." ∧ piece ≠ ".." ∧ piece.utf8ByteSize ≤ nameLimit)
    ⟨fun ⟨full, here, up, short⟩ => ⟨full, here, up, short⟩,
      fun ⟨full, here, up, short⟩ => ⟨full, here, up, short⟩⟩

section Steps

variable (tree : FileTree) (followsLast : Bool) (links : Nat) (directory : Names)

@[simp] theorem walk_nil :
    tree.walk followsLast links directory [] = .ok (.item directory .directory) := by
  rw [walk]

theorem walk_void {piece : String} (h : piece = "" ∨ piece = ".") (rest : List String) :
    tree.walk followsLast links directory (piece :: rest) =
      tree.walk followsLast links directory rest := by
  rw [walk, if_pos (by simpa using h)]

theorem walk_up (rest : List String) :
    tree.walk followsLast links directory (".." :: rest) =
      tree.walk followsLast links directory.dropLast rest := by
  rw [walk, if_neg (by decide), if_pos (by decide)]

theorem walk_long {piece : String} (full : piece ≠ "") (here : piece ≠ ".") (up : piece ≠ "..")
    (long : piece.utf8ByteSize > nameLimit) (rest : List String) :
    tree.walk followsLast links directory (piece :: rest) = .error .nameTooLong := by
  rw [walk, if_neg (by simp [full, here]), if_neg (by simpa using up), if_pos long]

variable {tree followsLast links directory}

private theorem walk_name {piece : String} (name : IsName piece) (rest : List String) :
    tree.walk followsLast links directory (piece :: rest) =
      match tree.item? (directory ++ [piece]) with
      | none => if rest.isEmpty then .ok (.free (directory ++ [piece])) else .error .notFound
      | some .directory => walk tree followsLast links (directory ++ [piece]) rest
      | some (.file content) =>
        if rest.isEmpty then .ok (.item (directory ++ [piece]) (.file content))
        else .error .notDirectory
      | some (.link target) =>
        if rest.isEmpty && !followsLast then .ok (.item (directory ++ [piece]) (.link target))
        else match links with
          | 0 => .error .tooManyLinks
          | links + 1 =>
            walk tree followsLast links
              (if Path.isAbsolute target.toList then [] else directory) (piecesOf target ++ rest) := by
  rw [walk, if_neg (by simp [name.full, name.here]), if_neg (by simpa using name.up)]
  exact if_neg (by simpa using name.short)

theorem walk_free {piece : String} (name : IsName piece)
    (found : tree.item? (directory ++ [piece]) = none) :
    tree.walk followsLast links directory [piece] = .ok (.free (directory ++ [piece])) := by
  rw [walk_name name, found]
  rfl

theorem walk_missing {piece : String} (name : IsName piece) {rest : List String} (more : rest ≠ [])
    (found : tree.item? (directory ++ [piece]) = none) :
    tree.walk followsLast links directory (piece :: rest) = .error .notFound := by
  rw [walk_name name, found]
  simp [more]

theorem walk_directory {piece : String} (name : IsName piece) (rest : List String)
    (found : tree.item? (directory ++ [piece]) = some .directory) :
    tree.walk followsLast links directory (piece :: rest) =
      tree.walk followsLast links (directory ++ [piece]) rest := by
  rw [walk_name name, found]

theorem walk_file {piece : String} (name : IsName piece) {content : Content}
    (found : tree.item? (directory ++ [piece]) = some (.file content)) :
    tree.walk followsLast links directory [piece] =
      .ok (.item (directory ++ [piece]) (.file content)) := by
  rw [walk_name name, found]
  rfl

theorem walk_through_file {piece : String} (name : IsName piece) {rest : List String}
    (more : rest ≠ []) {content : Content}
    (found : tree.item? (directory ++ [piece]) = some (.file content)) :
    tree.walk followsLast links directory (piece :: rest) = .error .notDirectory := by
  rw [walk_name name, found]
  simp [more]

theorem walk_last_link {piece : String} (name : IsName piece) {target : String}
    (found : tree.item? (directory ++ [piece]) = some (.link target)) :
    tree.walk false links directory [piece] =
      .ok (.item (directory ++ [piece]) (.link target)) := by
  rw [walk_name name, found]
  rfl

theorem walk_link {piece : String} (name : IsName piece) {rest : List String}
    (followed : rest ≠ [] ∨ followsLast = true) {target : String}
    (found : tree.item? (directory ++ [piece]) = some (.link target)) :
    tree.walk followsLast (links + 1) directory (piece :: rest) =
      tree.walk followsLast links (if Path.isAbsolute target.toList then [] else directory)
        (piecesOf target ++ rest) := by
  rw [walk_name name, found]
  rcases followed with more | all
  · simp [more]
  · simp [all]

theorem walk_many_links {piece : String} (name : IsName piece) {rest : List String}
    (followed : rest ≠ [] ∨ followsLast = true) {target : String}
    (found : tree.item? (directory ++ [piece]) = some (.link target)) :
    tree.walk followsLast 0 directory (piece :: rest) = .error .tooManyLinks := by
  rw [walk_name name, found]
  rcases followed with more | all
  · simp [more]
  · simp [all]

end Steps

theorem isName_of_not {piece : String} (h : ¬(piece == "" || piece == ".") = true)
    (up : ¬(piece == "..") = true) (short : ¬piece.utf8ByteSize > nameLimit) : IsName piece := by
  simp only [Bool.or_eq_true, beq_iff_eq, not_or] at h
  exact ⟨h.1, h.2, by simpa using up, by omega⟩

theorem goesOn_of_not {rest : List String} {followsLast : Bool}
    (followed : ¬(rest.isEmpty && !followsLast) = true) : rest ≠ [] ∨ followsLast = true := by
  by_cases more : rest = []
  · exact Or.inr (by simpa [more] using followed)
  · exact Or.inl more

theorem walk_of_keeps {tree later : FileTree} (keeps : tree.Keeps later) {followsLast : Bool}
    {links : Nat} {directory : Names} {pieces : List String} {names : Names}
    (h : tree.walk followsLast links directory pieces = .ok (.item names .directory)) :
    later.walk followsLast links directory pieces = .ok (.item names .directory) := by
  fun_induction tree.walk followsLast links directory pieces with
  | case1 links directory => rwa [walk_nil]
  | case2 links directory piece rest void ih =>
    rw [walk_void _ _ _ _ (by simpa using void)]
    exact ih h
  | case3 links directory piece rest solid up ih =>
    obtain rfl : piece = ".." := by simpa using up
    rw [walk_up]
    exact ih h
  | case4 => cases h
  | case5 => simp at h
  | case6 => cases h
  | case7 links directory piece rest solid notUp short names found ih =>
    have name := isName_of_not solid notUp short
    rw [walk_directory name rest (keeps.directories _ found)]
    exact ih h
  | case8 => simp at h
  | case9 => cases h
  | case10 => simp at h
  | case11 => cases h
  | case12 directory piece rest solid notUp short names target found followed links start ih =>
    have name := isName_of_not solid notUp short
    rw [walk_link name (goesOn_of_not followed) (keeps.links _ _ found)]
    exact ih h

def spotAt (tree : FileTree) (names : Names) : Spot :=
  match tree.item? names with
  | some found => .item names found
  | none => .free names

def Spot.enter : Spot → Except Fault Names
  | .item names .directory => .ok names
  | .item _ _ => .error .notDirectory
  | .free _ => .error .notFound

def Unlinked (tree : FileTree) (name : String) : Prop :=
  ∀ names target, tree.item? names = some (.link target) → names.getLast? ≠ some name

/-- More pieces are followed from the directory that the pieces before them lead to, with the links that
are left. -/
theorem walk_append (tree : FileTree) (followsLast : Bool) (links : Nat) (directory : Names)
    (pieces : List String) {more : List String} (goesOn : more ≠ []) :
    let inner := (tree.walk true links directory pieces).bind Spot.enter
    (∃ names left, inner = .ok names ∧ tree.walk followsLast links directory (pieces ++ more) =
        tree.walk followsLast left names more) ∨
      ∃ fault, inner = .error fault ∧
        tree.walk followsLast links directory (pieces ++ more) = .error fault := by
  have last : ∀ rest : List String, rest ++ more ≠ [] := by simp [goesOn]
  -- One case for each step; a link puts its own pieces before those that are left.
  fun_induction tree.walk true links directory pieces with
  | case1 links directory => exact Or.inl ⟨directory, links, rfl, rfl⟩
  | case2 links directory piece rest void ih =>
    rw [List.cons_append, walk_void _ _ _ _ (by simpa using void)]
    exact ih
  | case3 links directory piece rest solid up ih =>
    obtain rfl : piece = ".." := by simpa using up
    rw [List.cons_append, walk_up]
    exact ih
  | case4 links directory piece rest solid up long =>
    simp only [Bool.or_eq_true, beq_iff_eq, not_or] at solid
    rw [List.cons_append, walk_long _ _ _ _ solid.1 solid.2 (by simpa using up) long]
    exact Or.inr ⟨_, rfl, rfl⟩
  | case5 links directory piece rest solid notUp short names found alone =>
    have named := isName_of_not solid notUp short
    rw [List.cons_append, walk_missing named (last rest) found]
    exact Or.inr ⟨_, rfl, rfl⟩
  | case6 links directory piece rest solid notUp short names found more =>
    have named := isName_of_not solid notUp short
    rw [List.cons_append, walk_missing named (last rest) found]
    exact Or.inr ⟨_, rfl, rfl⟩
  | case7 links directory piece rest solid notUp short names found ih =>
    have named := isName_of_not solid notUp short
    rw [List.cons_append, walk_directory named _ found]
    exact ih
  | case8 links directory piece rest solid notUp short names content found alone =>
    have named := isName_of_not solid notUp short
    rw [List.cons_append, walk_through_file named (last rest) found]
    exact Or.inr ⟨_, rfl, rfl⟩
  | case9 links directory piece rest solid notUp short names content found more =>
    have named := isName_of_not solid notUp short
    rw [List.cons_append, walk_through_file named (last rest) found]
    exact Or.inr ⟨_, rfl, rfl⟩
  | case10 links directory piece rest solid notUp short names target found last => simp at last
  | case11 directory piece rest solid notUp short names target found followed =>
    have named := isName_of_not solid notUp short
    rw [List.cons_append, walk_many_links named (Or.inl (last rest)) found]
    exact Or.inr ⟨_, rfl, rfl⟩
  | case12 directory piece rest solid notUp short names target found followed links start ih =>
    have named := isName_of_not solid notUp short
    rw [List.cons_append, walk_link named (Or.inl (last rest)) found, ← List.append_assoc]
    exact ih

private theorem walk_single {tree : FileTree} {name : String} (proper : IsName name)
    {followsLast : Bool} {directory : Names}
    (stays : followsLast = true → ∀ target, tree.item? (directory ++ [name]) ≠ some (.link target))
    (links : Nat) :
    tree.walk followsLast links directory [name] = .ok (tree.spotAt (directory ++ [name])) := by
  unfold spotAt
  cases found : tree.item? (directory ++ [name]) with
  | none => exact walk_free proper found
  | some item =>
    cases item with
    | file content => exact walk_file proper found
    | directory => rw [walk_directory proper [] found, walk_nil]
    | link target =>
      cases followsLast with
      | false => exact walk_last_link proper found
      | true => exact absurd found (stays rfl target)

theorem walk_concat {tree : FileTree} {name : String} (proper : IsName name) {followsLast : Bool}
    {links : Nat} {directory : Names} {pieces : List String}
    (stays : followsLast = true → ∀ inner,
      (tree.walk true links directory pieces).bind Spot.enter = .ok inner →
        ∀ target, tree.item? (inner ++ [name]) ≠ some (.link target)) :
    tree.walk followsLast links directory (pieces ++ [name]) =
      ((tree.walk true links directory pieces).bind Spot.enter).map
        fun directory => tree.spotAt (directory ++ [name]) := by
  rcases tree.walk_append followsLast links directory pieces (List.cons_ne_nil name []) with
    ⟨inner, left, enters, same⟩ | ⟨fault, enters, same⟩
  · rw [same, enters, walk_single proper fun all => stays all inner enters]
    rfl
  · rw [same, enters]
    rfl

theorem enter_eq_ok {spot : Spot} {names : Names} (h : spot.enter = .ok names) :
    spot = .item names .directory := by
  unfold Spot.enter at h
  split at h
  · rw [Except.ok.inj h]
  · cases h
  · cases h

/-- What is wrong with a path as a text, if anything is. -/
def pathFault? (path : String) : Option Fault :=
  if path.toList.contains '\x00' then some .nulInPath
  else if path.isEmpty then some .notFound
  else if path.utf8ByteSize ≥ pathLimit then some .nameTooLong
  else none

theorem pathFault?_eq_none_iff {path : String} :
    pathFault? path = none ↔
      '\x00' ∉ path.toList ∧ path ≠ "" ∧ path.utf8ByteSize < pathLimit := by
  unfold pathFault?
  by_cases nul : '\x00' ∈ path.toList
  · simp [nul]
  by_cases empty : path = ""
  · simp [empty]
  by_cases long : path.utf8ByteSize ≥ pathLimit
  · simp [nul, empty, long, Nat.not_lt.mpr long]
  · simp [nul, empty, Nat.not_le.mp long]

def startOf (tree : FileTree) (path : String) : Names :=
  if Path.isAbsolute path.toList then [] else tree.place

theorem locate_eq (tree : FileTree) (followsLast : Bool) (path : String) :
    tree.locate followsLast path =
      match pathFault? path with
      | some fault => .error fault
      | none => tree.walk followsLast linkLimit (tree.startOf path) (piecesOf path) := by
  unfold locate pathFault? startOf
  split
  · rfl
  · split
    · rfl
    · split <;> rfl

/-- Whether a spot is as it stands in the tree: a link only if the last link is not followed. -/
def Spot.Stands (tree : FileTree) (followsLast : Bool) : Spot → Prop
  | item names found =>
    found = .directory ∨
      tree.item? names = some found ∧ (followsLast = true → ∀ target, found ≠ .link target)
  | free names => tree.item? names = none

theorem stands_of_walk {tree : FileTree} {followsLast : Bool} {links : Nat} {directory : Names}
    {pieces : List String} {spot : Spot}
    (h : tree.walk followsLast links directory pieces = .ok spot) : spot.Stands tree followsLast := by
  fun_induction tree.walk followsLast links directory pieces with
  | case1 =>
    obtain rfl := Except.ok.inj h
    exact Or.inl rfl
  | case2 _ _ _ _ _ ih => exact ih h
  | case3 _ _ _ _ _ _ ih => exact ih h
  | case4 => cases h
  | case5 _ _ _ _ _ _ _ _ free _ =>
    obtain rfl := Except.ok.inj h
    exact free
  | case6 => cases h
  | case7 _ _ _ _ _ _ _ _ _ ih => exact ih h
  | case8 _ _ _ _ _ _ _ _ _ found _ =>
    obtain rfl := Except.ok.inj h
    exact Or.inr ⟨found, fun _ _ linked => by cases linked⟩
  | case9 => cases h
  | case10 links directory piece rest solid notUp short below target found last =>
    obtain rfl := Except.ok.inj h
    refine Or.inr ⟨found, fun follows => ?_⟩
    simp [follows] at last
  | case11 => cases h
  | case12 _ _ _ _ _ _ _ _ _ _ _ _ ih => exact ih h

theorem stands_of_locate {tree : FileTree} {followsLast : Bool} {path : String} {spot : Spot}
    (h : tree.locate followsLast path = .ok spot) : spot.Stands tree followsLast := by
  rw [locate_eq] at h
  cases fault : pathFault? path with
  | some fault => simp [fault] at h
  | none =>
    rw [fault] at h
    exact stands_of_walk h

theorem exists_walk_last {tree : FileTree} {path piece : String}
    (last : (piecesOf path).getLast? = some piece) {followsLast : Bool} {spot : Spot}
    (there : tree.locate followsLast path = .ok spot) :
    ∃ home left, tree.walk followsLast left home [piece] = .ok spot := by
  obtain ⟨pieces, split⟩ := List.getLast?_eq_some_iff.mp last
  rw [locate_eq] at there
  cases fault : pathFault? path with
  | some fault => simp [fault] at there
  | none =>
    simp only [fault, split] at there
    rcases tree.walk_append followsLast linkLimit (tree.startOf path) pieces
      (List.cons_ne_nil piece []) with ⟨home, left, -, walked⟩ | ⟨fault, -, walked⟩
    · exact ⟨home, left, walked.symm.trans there⟩
    · rw [walked] at there
      cases there

theorem isName_of_walk {tree : FileTree} {followsLast : Bool} {links : Nat} {directory : Names}
    {piece : String} (full : piece ≠ "") (here : piece ≠ ".") (up : piece ≠ "..") {spot : Spot}
    (there : tree.walk followsLast links directory [piece] = .ok spot) : IsName piece := by
  refine ⟨full, here, up, Nat.not_lt.mp fun long => ?_⟩
  rw [walk_long _ _ _ _ full here up long] at there
  cases there

/-- The directory that the last piece of a path is looked up in. -/
def wayIn (tree : FileTree) (path : String) : Except Fault Names :=
  match pathFault? path with
  | some fault => .error fault
  | none =>
    (tree.walk true linkLimit (tree.startOf path) (piecesOf path).dropLast).bind Spot.enter

theorem pathFault?_ne_none {path : String} (h : path.utf8ByteSize ≥ pathLimit) :
    pathFault? path ≠ none := by
  unfold pathFault?
  rw [if_pos h]
  split
  · simp
  · split <;> simp

theorem short_of_wayIn {tree : FileTree} {path : String} {directory : Names}
    (h : tree.wayIn path = .ok directory) : path.utf8ByteSize < pathLimit := by
  rcases Nat.lt_or_ge path.utf8ByteSize pathLimit with short | long
  · exact short
  · cases fault : pathFault? path with
    | none => exact absurd fault (pathFault?_ne_none long)
    | some fault_ => simp [wayIn, fault] at h

theorem pathFault?_of_readText {tree : FileTree} {path text : String}
    (h : tree.readText path = .ok text) : pathFault? path = none := by
  cases fault : pathFault? path with
  | none => rfl
  | some fault_ =>
    have nowhere : tree.locate true path = .error fault_ := by rw [locate_eq, fault]
    rw [readText, resolve, nowhere] at h
    cases h

theorem short_of_readText {tree : FileTree} {path text : String}
    (h : tree.readText path = .ok text) : path.utf8ByteSize < pathLimit := by
  rcases Nat.lt_or_ge path.utf8ByteSize pathLimit with short | long
  · exact short
  · exact absurd (pathFault?_of_readText h) (pathFault?_ne_none long)

theorem readText_congr {tree : FileTree} {a b : String} (h : tree.locate true a = tree.locate true b) :
    tree.readText a = tree.readText b := by
  rw [readText, readText, resolve, resolve, h]

theorem isFile_congr {tree : FileTree} {a b : String} (h : tree.locate true a = tree.locate true b) :
    tree.isFile a = tree.isFile b := by
  rw [isFile, isFile, resolve, resolve, h]

def Lands (tree : FileTree) (path name : String) : Prop :=
  ∀ home, tree.wayIn path = .ok home → ∀ target, tree.item? (home ++ [name]) ≠ some (.link target)

theorem Unlinked.lands {tree : FileTree} {name : String} (unlinked : tree.Unlinked name)
    (path : String) : tree.Lands path name :=
  fun home _ target found => unlinked (home ++ [name]) target found (by simp)

theorem locate_eq_wayIn_of_lands {tree : FileTree} {path name : String}
    (last : (piecesOf path).getLast? = some name) (proper : IsName name) {followsLast : Bool}
    (lands : followsLast = true → tree.Lands path name) :
    tree.locate followsLast path =
      (tree.wayIn path).map fun directory => tree.spotAt (directory ++ [name]) := by
  obtain ⟨pieces, split⟩ := List.getLast?_eq_some_iff.mp last
  unfold Lands at lands
  rw [wayIn] at lands ⊢
  rw [locate_eq]
  cases fault : pathFault? path with
  | some fault => rfl
  | none =>
    simp only [fault] at lands ⊢
    rw [split, List.dropLast_concat] at lands ⊢
    exact walk_concat proper lands

theorem locate_eq_wayIn {tree : FileTree} {path name : String}
    (last : (piecesOf path).getLast? = some name) (proper : IsName name)
    (unlinked : tree.Unlinked name) (followsLast : Bool) :
    tree.locate followsLast path =
      (tree.wayIn path).map fun directory => tree.spotAt (directory ++ [name]) :=
  locate_eq_wayIn_of_lands last proper fun _ => unlinked.lands path

theorem locate_false_eq_wayIn (tree : FileTree) {path name : String}
    (last : (piecesOf path).getLast? = some name) (proper : IsName name) :
    tree.locate false path =
      (tree.wayIn path).map fun directory => tree.spotAt (directory ++ [name]) :=
  locate_eq_wayIn_of_lands last proper (by simp)

theorem wayIn_of_keeps {tree later : FileTree} (keeps : tree.Keeps later) {path : String}
    {directory : Names} (h : tree.wayIn path = .ok directory) :
    later.wayIn path = .ok directory := by
  have start : later.startOf path = tree.startOf path := by rw [startOf, startOf, keeps.place]
  unfold wayIn at h ⊢
  cases fault : pathFault? path with
  | some fault_ => simp [fault] at h
  | none =>
    simp only [fault] at h ⊢
    cases way : tree.walk true linkLimit (tree.startOf path) (piecesOf path).dropLast with
    | error fault_ =>
      rw [way] at h
      cases h
    | ok spot =>
      rw [way] at h
      obtain rfl := enter_eq_ok h
      rw [start, walk_of_keeps keeps way]
      rfl

section Named

variable {tree : FileTree} {path name : String}

section Lands

variable (last : (piecesOf path).getLast? = some name) (proper : IsName name)
  (lands : tree.Lands path name)

include last proper lands

theorem resolve_eq_ok_iff_of_lands {names : Names} {found : Item} :
    tree.resolve path = .ok (names, found) ↔
      ∃ home, tree.wayIn path = .ok home ∧ names = home ++ [name] ∧
        tree.item? names = some found := by
  rw [resolve, locate_eq_wayIn_of_lands last proper fun _ => lands]
  cases tree.wayIn path with
  | error fault =>
    constructor
    · intro h
      cases h
    · rintro ⟨home, h, -⟩
      cases h
  | ok home =>
    simp only [Except.map, spotAt]
    cases item : tree.item? (home ++ [name]) with
    | none =>
      constructor
      · intro h
        cases h
      · rintro ⟨_, same, rfl, there⟩
        obtain rfl := Except.ok.inj same
        rw [item] at there
        cases there
    | some other =>
      constructor
      · intro h
        obtain ⟨rfl, rfl⟩ := Prod.mk.inj (Except.ok.inj h)
        exact ⟨home, rfl, rfl, item⟩
      · rintro ⟨_, same, rfl, there⟩
        obtain rfl := Except.ok.inj same
        rw [item] at there
        obtain rfl := Option.some.inj there
        rfl

theorem isFile_iff_of_lands :
    tree.isFile path = true ↔
      ∃ home content, tree.wayIn path = .ok home ∧
        tree.item? (home ++ [name]) = some (.file content) := by
  constructor
  · intro h
    unfold isFile at h
    split at h
    · rename_i names content found
      obtain ⟨home, way, rfl, item⟩ := (resolve_eq_ok_iff_of_lands last proper lands).mp found
      exact ⟨home, content, way, item⟩
    · cases h
  · rintro ⟨home, content, way, item⟩
    have found := (resolve_eq_ok_iff_of_lands last proper lands).mpr ⟨home, way, rfl, item⟩
    simp [isFile, found]

theorem readText_eq_ok_iff_of_lands {text : String} :
    tree.readText path = .ok text ↔
      ∃ home, tree.wayIn path = .ok home ∧
        tree.item? (home ++ [name]) = some (.file (.text text)) := by
  constructor
  · intro h
    unfold readText at h
    cases found : tree.resolve path with
    | error fault =>
      rw [found] at h
      cases h
    | ok spot =>
      rw [found] at h
      obtain ⟨names, item⟩ := spot
      obtain ⟨home, way, rfl, there⟩ := (resolve_eq_ok_iff_of_lands last proper lands).mp found
      rcases item with (content | bytes) | _ | target
      · obtain rfl : content = text := Except.ok.inj h
        exact ⟨home, way, there⟩
      · cases h
      · cases h
      · cases h
  · rintro ⟨home, way, item⟩
    have found := (resolve_eq_ok_iff_of_lands last proper lands).mpr ⟨home, way, rfl, item⟩
    rw [readText, found]
    rfl

end Lands

section Unlinked

variable (last : (piecesOf path).getLast? = some name) (proper : IsName name)
  (unlinked : tree.Unlinked name)

include last proper unlinked

theorem resolve_eq_ok_iff {names : Names} {found : Item} :
    tree.resolve path = .ok (names, found) ↔
      ∃ home, tree.wayIn path = .ok home ∧ names = home ++ [name] ∧
        tree.item? names = some found :=
  resolve_eq_ok_iff_of_lands last proper (unlinked.lands path)

theorem isFile_iff :
    tree.isFile path = true ↔
      ∃ home content, tree.wayIn path = .ok home ∧
        tree.item? (home ++ [name]) = some (.file content) :=
  isFile_iff_of_lands last proper (unlinked.lands path)

theorem readText_eq_ok_iff {text : String} :
    tree.readText path = .ok text ↔
      ∃ home, tree.wayIn path = .ok home ∧
        tree.item? (home ++ [name]) = some (.file (.text text)) :=
  readText_eq_ok_iff_of_lands last proper (unlinked.lands path)

end Unlinked

end Named

end Phrasebook.FileTree
