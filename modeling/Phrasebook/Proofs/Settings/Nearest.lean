import Mathlib.Data.List.Infix
import Phrasebook.Proofs.Files.Parent
import Phrasebook.Proofs.Settings.Discovery

/-!
The nearest settings file. The search goes from a directory upwards, part by part of its path. It ends with
the first directory that holds settings, or with the first that holds a repository and no settings.
-/

set_option autoImplicit false

namespace Phrasebook

namespace Path

theorem length_parts_of_parent? {path parent : String} (above : parent? path = some parent) :
    (parts parent).length < (parts path).length := by
  have some_ : parts path ≠ [] := by
    intro none
    rw [parent?_eq_none_iff.mpr (Or.inl none)] at above
    cases above
  rw [parts_parent? above, List.length_dropLast]
  exact Nat.sub_lt (List.length_pos_iff.mpr some_) Nat.one_pos

def upwards (path : String) : List String :=
  match _above : parent? path with
  | none => [path]
  | some parent => path :: upwards parent
termination_by (parts path).length
decreasing_by exact length_parts_of_parent? ‹_›

theorem upwards_of_top {path : String} (top : parent? path = none) : upwards path = [path] := by
  rw [upwards]
  split
  · rfl
  · rename_i parent above
    rw [top] at above
    cases above

theorem upwards_of_parent? {path parent : String} (above : parent? path = some parent) :
    upwards path = path :: upwards parent := by
  rw [upwards]
  split
  · rename_i top
    rw [above] at top
    cases top
  · rename_i other found
    rw [above] at found
    rw [Option.some.inj found]

theorem map_parts_upwards {path : String} (absolute : isAbsolute path.toList = true) :
    (upwards path).map parts = (parts path).inits.tail.reverse := by
  rw [isAbsolute_eq, beq_iff_eq] at absolute
  induction path using upwards.induct with
  | case1 path top =>
    rcases parent?_eq_none_iff.mp top with none | root
    · rw [none] at absolute
      cases absolute
    · rw [upwards_of_top top, List.map_singleton, root]
      rfl
  | case2 path parent above ih =>
    have notTop := mt parent?_eq_none_iff.mpr (Option.ne_none_iff_exists'.mpr ⟨parent, above⟩)
    rw [not_or] at notTop
    obtain ⟨outer, last, split⟩ := (List.eq_nil_or_concat' (parts path)).resolve_left notTop.1
    have shorter : parts parent = outer := by rw [parts_parent? above, split, List.dropLast_concat]
    obtain ⟨rest, first⟩ : ∃ rest, outer = .root :: rest := by
      rw [← List.head?_eq_some_iff]
      cases outer with
      | nil =>
        rw [split] at absolute notTop
        obtain rfl : last = .root := Option.some.inj absolute
        exact absurd rfl notTop.2
      | cons part rest => rwa [split] at absolute
    have starts := ih (by rw [shorter, first]; rfl)
    have full : outer.inits ≠ [] := List.ne_nil_of_mem ((List.mem_inits [] outer).mpr List.nil_prefix)
    rw [upwards_of_parent? above, List.map_cons, starts, shorter, split, List.inits_append,
      List.tail_append_of_ne_nil full]
    simp

end Path

namespace Settings

open FileTree (IsName pathFault? piecesOf)

/-- Whether a directory holds something with a name. A link counts as what it leads to. -/
def Holds (tree : FileTree) (directory name : String) : Prop :=
  tree.isPresent (Path.join directory name) = true

theorem holds_iff {tree : FileTree} {directory name : String} {names : Names} (proper : IsName name)
    (inside : '/' ∉ name.toList) (sound : pathFault? (Path.join directory name) = none)
    (here : tree.descend (tree.startOf directory) (piecesOf directory) = some names)
    (solid : ∀ target, tree.item? (names ++ [name]) ≠ some (.link target)) :
    Holds tree directory name ↔ (tree.item? (names ++ [name])).isSome = true := by
  have way := FileTree.locate_join (Path.isAbsolute_of_not_mem inside) sound here true
  rw [FileTree.piecesOf_of_not_mem inside] at way
  rw [Holds, FileTree.isPresent, FileTree.resolve, way]
  cases found : tree.item? (names ++ [name]) with
  | none =>
    rw [FileTree.walk_free proper found]
    exact iff_of_false Bool.false_ne_true Bool.false_ne_true
  | some item =>
    cases item with
    | file content =>
      rw [FileTree.walk_file proper found]
      exact iff_of_true rfl rfl
    | directory =>
      rw [FileTree.walk_directory proper [] found, FileTree.walk_nil]
      exact iff_of_true rfl rfl
    | link target => exact absurd found (solid target)

/-- A settings file in one of some directories. None before it holds another one, or a repository. -/
def IsNearest (tree : FileTree) (directories : List String) (path : String) : Prop :=
  ∃ nearer directory farther, directories = nearer ++ directory :: farther ∧
    path = Path.join directory fileName ∧ Holds tree directory fileName ∧
      ∀ other ∈ nearer, ¬Holds tree other fileName ∧ ¬Holds tree other repositoryMark

variable {tree : FileTree}

theorem not_isNearest_nil {path : String} : ¬IsNearest tree [] path := by
  rintro ⟨nearer, directory, farther, split, -⟩
  simp at split

theorem isNearest_cons_iff {directory path : String} {outer : List String} :
    IsNearest tree (directory :: outer) path ↔
      Holds tree directory fileName ∧ path = Path.join directory fileName ∨
        ¬Holds tree directory fileName ∧ ¬Holds tree directory repositoryMark ∧
          IsNearest tree outer path := by
  constructor
  · rintro ⟨nearer, found, farther, split, named, holds, free⟩
    cases nearer with
    | nil =>
      obtain ⟨rfl, rfl⟩ := List.cons.inj split
      exact Or.inl ⟨holds, named⟩
    | cons first nearer =>
      obtain ⟨rfl, rfl⟩ := List.cons.inj split
      obtain ⟨absent, unmarked⟩ := free directory List.mem_cons_self
      exact Or.inr ⟨absent, unmarked, nearer, found, farther, rfl, named, holds,
        fun other inside => free other (List.mem_cons_of_mem _ inside)⟩
  · rintro (⟨holds, named⟩ | ⟨absent, unmarked, nearer, found, farther, rfl, named, holds, free⟩)
    · exact ⟨[], directory, outer, rfl, named, holds, by simp⟩
    · refine ⟨directory :: nearer, found, farther, rfl, named, holds, fun other inside => ?_⟩
      rcases List.mem_cons.mp inside with rfl | inside
      · exact ⟨absent, unmarked⟩
      · exact free other inside

theorem forall_not_isNearest_iff {directories : List String} :
    (∀ path, ¬IsNearest tree directories path) ↔
      ∀ nearer directory farther, directories = nearer ++ directory :: farther →
        Holds tree directory fileName → ∃ other ∈ nearer, Holds tree other repositoryMark := by
  constructor
  · intro none nearer
    induction nearer generalizing directories with
    | nil =>
      rintro directory farther rfl holds
      exact absurd (isNearest_cons_iff.mpr (Or.inl ⟨holds, rfl⟩)) (none _)
    | cons first nearer ih =>
      rintro directory farther rfl holds
      by_cases marked : Holds tree first repositoryMark
      · exact ⟨first, List.mem_cons_self, marked⟩
      · have absent : ¬Holds tree first fileName := fun there =>
          none _ (isNearest_cons_iff.mpr (Or.inl ⟨there, rfl⟩))
        obtain ⟨other, inside, found⟩ := ih
          (fun path nearest => none path (isNearest_cons_iff.mpr (Or.inr ⟨absent, marked, nearest⟩)))
          directory farther rfl holds
        exact ⟨other, List.mem_cons_of_mem _ inside, found⟩
  · rintro marked path ⟨nearer, directory, farther, split, -, holds, free⟩
    obtain ⟨other, inside, found⟩ := marked nearer directory farther split holds
    exact (free other inside).2 found

private theorem findWithin_step {count : Nat} {directory path : String} {outer : List String}
    (above : ¬Holds tree directory fileName → ¬Holds tree directory repositoryMark →
      (findWithin tree count directory = some path ↔ IsNearest tree outer path)) :
    findWithin tree count directory = some path ↔ IsNearest tree (directory :: outer) path := by
  rw [isNearest_cons_iff]
  by_cases there : Holds tree directory fileName
  · simp [findWithin_of_isPresent there, there, eq_comm]
  · by_cases marked : Holds tree directory repositoryMark
    · simp [findWithin_of_marked there marked, there, marked]
    · simp [above there marked, there, marked]

/-- A search that may go up as far as there are parts finds the nearest file. -/
theorem findWithin_eq_some_iff {count : Nat} {start path : String}
    (enough : (Path.parts start).length ≤ count) :
    findWithin tree count start = some path ↔ IsNearest tree (Path.upwards start) path := by
  induction start using Path.upwards.induct generalizing count with
  | case1 start top =>
    rw [Path.upwards_of_top top]
    refine findWithin_step fun absent unmarked => ?_
    rw [findWithin_of_top absent unmarked top]
    exact iff_of_false (by simp) not_isNearest_nil
  | case2 start parent above ih =>
    have shorter := Path.length_parts_of_parent? above
    obtain ⟨count, rfl⟩ := Nat.exists_eq_add_one_of_ne_zero (by omega : count ≠ 0)
    rw [Path.upwards_of_parent? above]
    refine findWithin_step fun absent unmarked => ?_
    rw [findWithin_of_parent? absent unmarked above]
    exact ih (by omega)

theorem find?_eq_some_iff {start path : String} :
    find? tree start = some path ↔ IsNearest tree (Path.upwards start) path :=
  findWithin_eq_some_iff le_rfl

/-- The search from a directory finds the file of the nearest directory on the way to the root that holds
one, unless one before it holds a repository, and else nothing. It ends before it may go no further. -/
theorem find?_nearest {start : String} (absolute : Path.isAbsolute start.toList = true)
    (tree : FileTree) :
    (Path.upwards start).map Path.parts = (Path.parts start).inits.tail.reverse ∧
      (∀ path, find? tree start = some path ↔ IsNearest tree (Path.upwards start) path) ∧
      (find? tree start = none ↔ ∀ nearer directory farther,
        Path.upwards start = nearer ++ directory :: farther → Holds tree directory fileName →
          ∃ other ∈ nearer, Holds tree other repositoryMark) ∧
      ∀ count, (Path.parts start).length ≤ count → findWithin tree count start = find? tree start := by
  refine ⟨Path.map_parts_upwards absolute, fun path => find?_eq_some_iff, ?_, fun count enough => ?_⟩
  · rw [← forall_not_isNearest_iff, Option.eq_none_iff_forall_ne_some]
    exact forall_congr' fun path => not_congr find?_eq_some_iff
  · refine Option.ext fun path => ?_
    rw [findWithin_eq_some_iff enough, find?_eq_some_iff]

def nestedTree : FileTree where
  items := [(["w"], .directory), (["w", ".lingorc.json"], .file (.text "")),
    (["w", ".git"], .directory), (["w", "a"], .directory), (["w", "b"], .directory),
    (["w", "b", ".git"], .directory)]

private theorem holds_nested {directory name : String} (settled : name = fileName ∨ name = repositoryMark)
    {names : Names} (sound : pathFault? (Path.join directory name) = none)
    (here : nestedTree.descend (nestedTree.startOf directory) (piecesOf directory) = some names) :
    Holds nestedTree directory name ↔ (nestedTree.item? (names ++ [name])).isSome = true := by
  have unlinked : nestedTree.Unlinked name := FileTree.unlinked_of_items (by simp [nestedTree]) _
  refine holds_iff ?_ ?_ sound here fun target linked => unlinked _ target linked (by simp)
  · rcases settled with rfl | rfl <;> decide
  · rcases settled with rfl | rfl <;> decide

theorem find?_nearest_of_nested :
    (Path.isAbsolute "/w/a".toList = true ∧ find? nestedTree "/w/a" = some "/w/.lingorc.json") ∧
      Path.isAbsolute "/w/b".toList = true ∧ find? nestedTree "/w/b" = none := by
  have absolute : Path.isAbsolute "/w/a".toList = true ∧ Path.isAbsolute "/w/b".toList = true := by
    decide
  have outer : Path.upwards "/w" = ["/w", "/"] := by
    rw [Path.upwards_of_parent? (by decide : Path.parent? "/w" = some "/"),
      Path.upwards_of_top (by decide)]
  have first : Path.upwards "/w/a" = ["/w/a"] ++ "/w" :: ["/"] := by
    rw [Path.upwards_of_parent? (by decide : Path.parent? "/w/a" = some "/w"), outer]
    rfl
  have second : Path.upwards "/w/b" = "/w/b" :: ["/w", "/"] := by
    rw [Path.upwards_of_parent? (by decide : Path.parent? "/w/b" = some "/w"), outer]
  have settled : Holds nestedTree "/w" fileName :=
    (holds_nested (Or.inl rfl) (by decide) (by decide : _ = some ["w"])).mpr (by decide)
  have bare : ¬Holds nestedTree "/w/a" fileName ∧ ¬Holds nestedTree "/w/a" repositoryMark :=
    ⟨mt (holds_nested (Or.inl rfl) (by decide) (by decide : _ = some ["w", "a"])).mp (by decide),
      mt (holds_nested (Or.inr rfl) (by decide) (by decide : _ = some ["w", "a"])).mp (by decide)⟩
  have unsettled : ¬Holds nestedTree "/w/b" fileName :=
    mt (holds_nested (Or.inl rfl) (by decide) (by decide : _ = some ["w", "b"])).mp (by decide)
  have marked : Holds nestedTree "/w/b" repositoryMark :=
    (holds_nested (Or.inr rfl) (by decide) (by decide : _ = some ["w", "b"])).mpr (by decide)
  obtain ⟨-, found, -⟩ := find?_nearest absolute.1 nestedTree
  obtain ⟨-, -, lost, -⟩ := find?_nearest absolute.2 nestedTree
  refine ⟨⟨absolute.1, (found _).mpr ⟨_, _, _, first, by decide, settled, by simpa using bare⟩⟩,
    absolute.2, lost.mpr fun nearer directory farther split holds => ?_⟩
  rw [second] at split
  cases nearer with
  | nil =>
    obtain rfl : "/w/b" = directory := (List.cons.inj split).1
    exact absurd holds unsettled
  | cons other nearer =>
    obtain rfl : "/w/b" = other := (List.cons.inj split).1
    exact ⟨_, List.mem_cons_self, marked⟩

end Settings

end Phrasebook
