import Phrasebook.Proofs.Files.Walk
import Phrasebook.Proofs.Text.Blank

/-!
Paths by their pieces and parts.
-/

set_option autoImplicit false

namespace Phrasebook

namespace FileTree

theorem piecesOf_append (start rest : String) :
    piecesOf (start ++ "/" ++ rest) = piecesOf start ++ piecesOf rest := by
  have cut : Text.splitAt (· == '/') (start.toList ++ '/' :: rest.toList) =
      Text.splitAt (· == '/') start.toList ++ Text.splitAt (· == '/') rest.toList :=
    Text.splitAt_append _ _ (by decide)
  simp only [piecesOf, String.toList_append]
  rw [List.append_assoc]
  change List.map _ (Text.splitAt _ (start.toList ++ '/' :: rest.toList)) = _
  rw [cut, List.map_append]

theorem splitAt_of_not_mem {name : String} (h : '/' ∉ name.toList) :
    Text.splitAt (· == '/') name.toList = [name.toList] := by
  refine Text.splitAt_of_forall fun c hc => ?_
  rw [beq_eq_false_iff_ne]
  rintro rfl
  exact h hc

theorem not_mem_of_mem_piecesOf {path piece : String} (member : piece ∈ piecesOf path) :
    '/' ∉ piece.toList := by
  obtain ⟨chars, there, rfl⟩ := List.mem_map.mp member
  intro inside
  rw [String.toList_ofList] at inside
  simpa using (Text.mem_splitAt there).1 '/' inside

theorem piecesOf_of_not_mem {name : String} (h : '/' ∉ name.toList) : piecesOf name = [name] := by
  simp [piecesOf, splitAt_of_not_mem h]

theorem getLast?_piecesOf_append {name : String} (h : '/' ∉ name.toList) (base : String) :
    (piecesOf (base ++ "/" ++ name)).getLast? = some name := by
  rw [piecesOf_append, piecesOf_of_not_mem h, List.getLast?_concat]

end FileTree

namespace Path

theorem isAbsolute_of_not_mem {name : String} (h : '/' ∉ name.toList) :
    isAbsolute name.toList = false := by
  rw [isAbsolute, beq_eq_false_iff_ne]
  exact fun first => h (List.mem_of_head? first)

theorem join_cases (base : String) {path : String} (relative : isAbsolute path.toList = false) :
    base = "" ∧ join base path = path ∨
      (∃ start, base = start ++ "/" ∧ join base path = start ++ "/" ++ path) ∨
      base ≠ "" ∧ join base path = base ++ "/" ++ path := by
  unfold join
  by_cases empty : base = ""
  · exact Or.inl ⟨empty, by simp [empty]⟩
  right
  rw [if_neg (by simp [relative, empty])]
  by_cases closed : base.toList.getLast? = some '/'
  · left
    obtain ⟨start, split⟩ := List.getLast?_eq_some_iff.mp closed
    have whole : base = String.ofList start ++ "/" := by
      rw [← String.toList_inj]
      simp [split]
    refine ⟨String.ofList start, whole, ?_⟩
    rw [if_pos (by simp [closed]), ← whole]
  · exact Or.inr ⟨empty, by rw [if_neg (by simp [closed])]⟩

end Path

namespace FileTree

theorem piecesOf_join {name : String} (h : '/' ∉ name.toList) (base : String) :
    (piecesOf (Path.join base name)).getLast? = some name := by
  rcases Path.join_cases base (Path.isAbsolute_of_not_mem h) with
    ⟨-, joined⟩ | ⟨start, -, joined⟩ | ⟨-, joined⟩
  · rw [joined, piecesOf_of_not_mem h]
    rfl
  · rw [joined, getLast?_piecesOf_append h]
  · rw [joined, getLast?_piecesOf_append h]

/-- A path that leads to anything but a directory ends with a name: any other piece would leave the way in
a directory. -/
theorem exists_name_of_locate {tree : FileTree} {path : String} {followsLast : Bool} {spot : Spot}
    (there : tree.locate followsLast path = .ok spot)
    (solid : ∀ names, spot ≠ .item names .directory) :
    ∃ name, (piecesOf path).getLast? = some name ∧ IsName name := by
  have pieces : piecesOf path ≠ [] := by simp [piecesOf, Text.splitAt_ne_nil]
  obtain ⟨piece, last⟩ := Option.ne_none_iff_exists'.mp (mt List.getLast?_eq_none_iff.mp pieces)
  obtain ⟨home, left, walked⟩ := exists_walk_last last there
  refine ⟨piece, last, ?_⟩
  by_cases void : piece = "" ∨ piece = "."
  · rw [walk_void _ _ _ _ void, walk_nil] at walked
    exact absurd (Except.ok.inj walked).symm (solid home)
  by_cases up : piece = ".."
  · rw [up, walk_up, walk_nil] at walked
    exact absurd (Except.ok.inj walked).symm (solid _)
  rw [not_or] at void
  exact isName_of_walk void.1 void.2 up walked

end FileTree

namespace Path

def headParts (path : List Char) : List Part :=
  match (splitHead path).1 with
  | ['/'] => [Part.root]
  | ['.'] => [Part.here]
  | _ => []

theorem parts_eq (path : String) :
    parts path = headParts path.toList ++
      (Text.splitAt (· == '/') path.toList).filterMap partOf? := by
  have rest : (pieces path.toList).filterMap partOf? =
      (Text.splitAt (· == '/') path.toList).filterMap partOf? := by
    unfold pieces
    fun_cases splitHead path.toList with
    | case1 rest => simp [Text.splitAt, partOf?, isVoid]
    | case2 => simp [Text.splitAt, partOf?, isVoid]
    | case3 rest => simp [Text.splitAt, partOf?, isVoid]
    | case4 => rfl
  rw [parts, rest]
  rfl

theorem fileName?_of_solid {path name : String} (full : name ≠ "") (here : name ≠ ".")
    (up : name ≠ "..") (last : (FileTree.piecesOf path).getLast? = some name) :
    fileName? path = some name := by
  obtain ⟨piece, found, spelled⟩ : ∃ piece,
      (Text.splitAt (· == '/') path.toList).getLast? = some piece ∧ String.ofList piece = name := by
    simpa [FileTree.piecesOf, List.getLast?_map] using last
  obtain ⟨others, split⟩ := List.getLast?_eq_some_iff.mp found
  have part : partOf? piece = some (.name name) := by
    have full : piece ≠ [] := fun h => full (by simp [← spelled, h])
    have here : piece ≠ ['.'] := fun h => here (by simp [← spelled, h])
    have up : piece ≠ ['.', '.'] := fun h => up (by simp [← spelled, h])
    simp [partOf?, isVoid, full, here, up, spelled]
  rw [fileName?, parts_eq, split, List.filterMap_append]
  simp [part, List.getLast?_append]

theorem fileName?_of_getLast? {path name : String} (proper : FileTree.IsName name)
    (last : (FileTree.piecesOf path).getLast? = some name) : fileName? path = some name :=
  fileName?_of_solid proper.full proper.here proper.up last

/-- The piece that a part stands for on a way. -/
def Part.step? : Part → Option String
  | .root => none
  | .here => none
  | .up => some ".."
  | .name text => some text

/-- Whether a piece leads anywhere. -/
def isSolid (piece : String) : Bool := piece != "" && piece != "."

theorem isSolid_ofList (piece : List Char) : isSolid (String.ofList piece) = !isVoid piece := by
  have empty : String.ofList piece = "" ↔ piece = [] := by
    rw [← String.toList_inj]
    simp
  have here : String.ofList piece = "." ↔ piece = ['.'] := by
    rw [← String.toList_inj]
    simp
  rw [Bool.eq_iff_iff]
  simp [isSolid, isVoid, empty, here]

private theorem filter_isSolid (pieces : List (List Char)) :
    (pieces.map String.ofList).filter isSolid =
      (pieces.filterMap partOf?).filterMap Part.step? := by
  induction pieces with
  | nil => rfl
  | cons piece pieces ih =>
    rw [List.map_cons, List.filter_cons, isSolid_ofList, ih, List.filterMap_cons]
    by_cases void : isVoid piece = true
    · simp [partOf?, void]
    · by_cases up : piece = ['.', '.']
      · subst up
        rfl
      · simp [partOf?, void, up, Part.step?]

theorem filterMap_headParts (path : List Char) : (headParts path).filterMap Part.step? = [] := by
  unfold headParts
  split <;> rfl

theorem filter_piecesOf (path : String) :
    (FileTree.piecesOf path).filter isSolid = (parts path).filterMap Part.step? := by
  rw [parts_eq, List.filterMap_append, filterMap_headParts, List.nil_append]
  exact filter_isSolid _

theorem part_of_partOf? {piece : List Char} {part : Part} (h : partOf? piece = some part) :
    part ≠ .root ∧ part ≠ .here := by
  unfold partOf? at h
  split at h
  · cases h
  · split at h
    · obtain rfl := Option.some.inj h
      exact ⟨by simp, by simp⟩
    · obtain rfl := Option.some.inj h
      exact ⟨by simp, by simp⟩

private theorem headParts_cases (path : List Char) :
    path.head? = some '/' ∧ headParts path = [.root] ∨
      path.head? = some '.' ∧ headParts path = [.here] ∨
      path.head? ≠ some '/' ∧ headParts path = [] ∧ path ≠ ['.'] ∧
        ∀ more, path ≠ '.' :: '/' :: more := by
  unfold headParts
  fun_cases splitHead path with
  | case1 rest => simp
  | case2 => simp
  | case3 rest => simp
  | case4 path absolute here below =>
    refine Or.inr (Or.inr ⟨?_, rfl, here, below⟩)
    intro h
    obtain ⟨rest, split⟩ := List.head?_eq_some_iff.mp h
    exact absolute rest split

theorem isAbsolute_eq (path : String) :
    isAbsolute path.toList = ((parts path).head? == some .root) := by
  rw [parts_eq, isAbsolute]
  rcases headParts_cases path.toList with ⟨first, head⟩ | ⟨first, head⟩ | ⟨first, head, -⟩
  · simp [first, head]
  · simp [first, head]
  · have named : ((Text.splitAt (· == '/') path.toList).filterMap partOf?).head? ≠ some .root := by
      intro h
      obtain ⟨piece, -, part⟩ := List.mem_filterMap.mp (List.mem_of_head? h)
      exact (part_of_partOf? part).1 rfl
    rw [head, List.nil_append, beq_eq_false_iff_ne.mpr first, beq_eq_false_iff_ne.mpr named]

private theorem exists_part {c : Char} {rest : List Char} (slash : c ≠ '/')
    (here : c :: rest ≠ ['.']) (below : ∀ more, c :: rest ≠ '.' :: '/' :: more) :
    (Text.splitAt (· == '/') (c :: rest)).filterMap partOf? ≠ [] := by
  obtain ⟨piece, pieces, split⟩ := List.exists_cons_of_ne_nil
    (Text.splitAt_ne_nil (· == '/') rest)
  have whole : Text.splitAt (· == '/') (c :: rest) = (c :: piece) :: pieces := by
    simp [Text.splitAt, slash, split]
  have solid : isVoid (c :: piece) = false := by
    by_contra void
    have alone : c = '.' ∧ piece = [] := by simpa [isVoid] using void
    obtain ⟨rfl, rfl⟩ := alone
    cases rest with
    | nil => exact here rfl
    | cons d more =>
      by_cases cut : d = '/'
      · exact below more (by rw [cut])
      · obtain ⟨next, others, apart⟩ := List.exists_cons_of_ne_nil
          (Text.splitAt_ne_nil (· == '/') more)
        simp [Text.splitAt, cut, apart] at split
  obtain ⟨part, found⟩ : ∃ part, partOf? (c :: piece) = some part := by
    simp only [partOf?, solid, Bool.false_eq_true, if_false]
    split
    · exact ⟨_, rfl⟩
    · exact ⟨_, rfl⟩
  rw [whole, List.filterMap_cons_some found]
  simp

theorem isEmpty_eq (path : String) : path.isEmpty = (parts path).isEmpty := by
  have bare : path.isEmpty = path.toList.isEmpty := by
    rw [Bool.eq_iff_iff]
    simp
  rw [parts_eq, bare]
  rcases headParts_cases path.toList with ⟨first, head⟩ | ⟨first, head⟩ | ⟨first, head, here, below⟩
  · obtain ⟨rest, split⟩ := List.head?_eq_some_iff.mp first
    rw [head, split]
    rfl
  · obtain ⟨rest, split⟩ := List.head?_eq_some_iff.mp first
    rw [head, split]
    rfl
  · rw [head, List.nil_append]
    cases chars : path.toList with
    | nil => rfl
    | cons c rest =>
      rw [chars] at first here below
      have full := exists_part (by simpa using first) here below
      rw [List.isEmpty_eq_false_iff.mpr full]
      rfl

theorem ne_empty_of_parts_eq {a b : String} (same : parts a = parts b) (full : b ≠ "") : a ≠ "" := by
  have equal : a.isEmpty = b.isEmpty := by rw [isEmpty_eq, isEmpty_eq, same]
  rintro rfl
  exact full (String.isEmpty_iff.mp equal.symm)

def Part.holds (c : Char) : Part → Bool
  | .name text => text.toList.contains c
  | _ => false

theorem contains_eq {c : Char} (slash : c ≠ '/') (point : c ≠ '.') (path : String) :
    path.toList.contains c = (parts path).any (Part.holds c) := by
  rw [Bool.eq_iff_iff, List.contains_iff_mem, List.any_eq_true]
  have inHead : ∀ part ∈ headParts path.toList, Part.holds c part = false := by
    rcases headParts_cases path.toList with ⟨-, head⟩ | ⟨-, head⟩ | ⟨-, head, -⟩ <;>
      simp [head, Part.holds]
  rw [parts_eq]
  constructor
  · intro h
    obtain ⟨piece, hp, hm⟩ := Text.exists_mem_splitAt (· == '/') h (by simpa using slash)
    have solid : isVoid piece = false := by
      by_contra void
      have leftover : piece = [] ∨ piece = ['.'] := by
        simpa [isVoid, or_iff_not_imp_left] using void
      rcases leftover with rfl | rfl
      · cases hm
      · exact point (by simpa using hm)
    have name : piece ≠ ['.', '.'] := by
      rintro rfl
      exact point (by simpa using hm)
    refine ⟨.name (String.ofList piece), List.mem_append_right _ ?_, by simpa [Part.holds] using hm⟩
    exact List.mem_filterMap.mpr ⟨piece, hp, by simp [partOf?, solid, name]⟩
  · rintro ⟨part, member, holds⟩
    rcases List.mem_append.mp member with head | rest
    · rw [inHead part head] at holds
      cases holds
    · obtain ⟨piece, hp, found⟩ := List.mem_filterMap.mp rest
      unfold partOf? at found
      split at found
      · cases found
      · split at found
        · obtain rfl := Option.some.inj found
          cases holds
        · obtain rfl := Option.some.inj found
          have hm : c ∈ piece := by simpa [Part.holds] using holds
          exact (Text.mem_splitAt hp).2 c hm

end Path

namespace Path

private theorem headParts_append (start rest : List Char) (full : start ≠ []) :
    headParts (start ++ '/' :: rest) = headParts start := by
  match start with
  | [] => exact absurd rfl full
  | ['.'] => rfl
  | '/' :: _ => rfl
  | '.' :: '/' :: _ => rfl
  | c :: more =>
    by_cases root : c = '/'
    · subst root
      rfl
    · by_cases here : c = '.'
      · subst here
        cases more with
        | nil => rfl
        | cons d more =>
          by_cases below : d = '/'
          · subst below
            rfl
          · simp [headParts, splitHead, below]
      · simp [headParts, splitHead, root, here]

private theorem partOf?_name {name : String} (proper : FileTree.IsName name) :
    partOf? name.toList = some (.name name) := by
  have full : name.toList ≠ [] := fun h => proper.full (by simpa using h)
  have here : name.toList ≠ ['.'] := fun h => proper.here (by
    rw [← String.toList_inj, h]
    rfl)
  have up : name.toList ≠ ['.', '.'] := fun h => proper.up (by
    rw [← String.toList_inj, h]
    rfl)
  simp [partOf?, isVoid, full, here, up]

/-- The parts of a path that stands behind a slash. -/
def partsBehind (path : String) : List Part :=
  (Text.splitAt (· == '/') path.toList).filterMap partOf?

theorem partsBehind_of_isName {name : String} (proper : FileTree.IsName name)
    (inside : '/' ∉ name.toList) : partsBehind name = [.name name] := by
  rw [partsBehind, FileTree.splitAt_of_not_mem inside,
    List.filterMap_cons_some (partOf?_name proper), List.filterMap_nil]

theorem parts_of_isName {name : String} (proper : FileTree.IsName name)
    (inside : '/' ∉ name.toList) : parts name = [.name name] := by
  have bare : headParts name.toList = [] := by
    unfold headParts
    generalize spelled : name.toList = chars at inside
    fun_cases splitHead chars with
    | case1 rest => simp at inside
    | case2 => exact absurd (String.toList_inj.mp spelled) proper.here
    | case3 rest => simp at inside
    | case4 => rfl
  have behind := partsBehind_of_isName proper inside
  rw [parts_eq, bare, List.nil_append]
  exact behind

theorem parts_append_behind {base : String} (full : base ≠ "") (path : String) :
    parts (base ++ "/" ++ path) = parts base ++ partsBehind path := by
  have chars : (base ++ "/" ++ path).toList = base.toList ++ '/' :: path.toList := by
    simp [String.toList_append]
  rw [parts_eq, parts_eq, chars, headParts_append _ _ (by simpa using full),
    Text.splitAt_append _ _ (by decide), List.filterMap_append, List.append_assoc, partsBehind]

theorem parts_root_append (path : String) : parts ("/" ++ path) = .root :: partsBehind path := by
  have chars : ("/" ++ path).toList = [] ++ '/' :: path.toList := by simp [String.toList_append]
  rw [parts_eq, chars, Text.splitAt_append _ _ (by decide), List.filterMap_append]
  rfl

theorem parts_append_slash {start : String} (full : start ≠ "") :
    parts (start ++ "/") = parts start := by
  have bare := parts_append_behind full ""
  rw [String.append_empty] at bare
  rw [bare]
  exact List.append_nil _

theorem parts_append {name : String} (proper : FileTree.IsName name)
    (inside : '/' ∉ name.toList) {base : String} (full : base ≠ "") :
    parts (base ++ "/" ++ name) = parts base ++ [.name name] := by
  rw [parts_append_behind full, partsBehind_of_isName proper inside]

/-- A relative path that is joined to another one adds its parts, without a point at its start. -/
theorem parts_join_of_relative {path : String} (relative : isAbsolute path.toList = false)
    {base : String} (full : base ≠ "") : parts (join base path) = parts base ++ partsBehind path := by
  rcases join_cases base relative with ⟨empty, -⟩ | ⟨start, rfl, joined⟩ | ⟨-, joined⟩
  · exact absurd empty full
  · rw [joined]
    by_cases root : start = ""
    · subst root
      rw [String.empty_append, parts_root_append]
      rfl
    · rw [parts_append_behind root, parts_append_slash root]
  · rw [joined, parts_append_behind full]

theorem join_append {name other : String} (proper : FileTree.IsName name)
    (inside : '/' ∉ name.toList) (relative : isAbsolute other.toList = false) (base : String) :
    join (base ++ "/" ++ name) other = base ++ "/" ++ name ++ "/" ++ other := by
  have opened : (base ++ "/" ++ name).toList.getLast? ≠ some '/' := by
    rw [String.toList_append, List.getLast?_append_of_ne_nil _ (by simpa using proper.full)]
    exact fun last => inside (List.mem_of_getLast? last)
  unfold join
  rw [if_neg (by simp [relative]), if_neg (by simpa using opened)]

theorem join_ne_empty {base path : String} (full : path ≠ "") : join base path ≠ "" := by
  unfold join
  split
  · exact full
  · split <;> simp [full]

theorem parts_join {name : String} (proper : FileTree.IsName name) (inside : '/' ∉ name.toList)
    {base : String} (full : base ≠ "") : parts (join base name) = parts base ++ [.name name] := by
  rw [parts_join_of_relative (isAbsolute_of_not_mem inside) full, partsBehind_of_isName proper inside]

end Path

namespace FileTree

/-- Pieces that lead nowhere, or whose last one leads somewhere. -/
def Ends (pieces : List String) : Prop :=
  pieces.filter Path.isSolid = [] ∨
    ∃ last, pieces.getLast? = some last ∧ Path.isSolid last = true

theorem IsName.isSolid {name : String} (proper : IsName name) : Path.isSolid name = true := by
  simp [Path.isSolid, proper.full, proper.here]

theorem ends_of_getLast? {pieces : List String} {name : String} (proper : IsName name)
    (last : pieces.getLast? = some name) : Ends pieces :=
  Or.inr ⟨name, last, proper.isSolid⟩

private theorem Ends.tail {piece : String} {rest : List String} (h : Ends (piece :: rest)) :
    Ends rest := by
  rcases h with void | ⟨last, found, solid⟩
  · left
    rw [List.filter_cons] at void
    split at void
    · cases void
    · exact void
  · cases rest with
    | nil => exact Or.inl rfl
    | cons next more =>
      rw [List.getLast?_cons_cons] at found
      exact Or.inr ⟨last, found, solid⟩

private theorem Ends.last {piece : String} {rest : List String} (h : Ends (piece :: rest))
    (solid : Path.isSolid piece = true) (more : rest ≠ []) :
    ∃ last, rest.getLast? = some last ∧ Path.isSolid last = true := by
  rcases h with void | ⟨last, found, lastSolid⟩
  · rw [List.filter_cons_of_pos solid] at void
    cases void
  · rw [List.getLast?_cons_of_ne_nil more] at found
    exact ⟨last, found, lastSolid⟩

private theorem getLast?_filter {pieces : List String} {last : String}
    (found : pieces.getLast? = some last) (solid : Path.isSolid last = true) :
    (pieces.filter Path.isSolid).getLast? = some last := by
  obtain ⟨others, rfl⟩ := List.getLast?_eq_some_iff.mp found
  simp [solid]

private theorem walk_filter_of (tree : FileTree) (followsLast : Bool) (links : Nat)
    (below : ∀ fewer, links = fewer + 1 → ∀ directory pieces, Ends pieces →
      tree.walk followsLast fewer directory pieces =
        tree.walk followsLast fewer directory (pieces.filter Path.isSolid))
    (directory : Names) {pieces : List String} (ends : Ends pieces) :
    tree.walk followsLast links directory pieces =
      tree.walk followsLast links directory (pieces.filter Path.isSolid) := by
  induction pieces generalizing directory with
  | nil => rfl
  | cons piece rest ih =>
    by_cases solid : Path.isSolid piece = true
    swap
    · have void : piece = "" ∨ piece = "." := by
        simpa [Path.isSolid, or_iff_not_imp_left] using solid
      rw [walk_void _ _ _ _ void, List.filter_cons_of_neg solid]
      exact ih directory ends.tail
    rw [List.filter_cons_of_pos solid]
    have parts : piece ≠ "" ∧ piece ≠ "." := by simpa [Path.isSolid] using solid
    by_cases up : piece = ".."
    · subst up
      rw [walk_up, walk_up]
      exact ih directory.dropLast ends.tail
    by_cases long : piece.utf8ByteSize > nameLimit
    · rw [walk_long _ _ _ _ parts.1 parts.2 up long, walk_long _ _ _ _ parts.1 parts.2 up long]
    have name : IsName piece := ⟨parts.1, parts.2, up, by omega⟩
    by_cases alone : rest = []
    · subst alone
      rfl
    obtain ⟨last, found, lastSolid⟩ := ends.last solid alone
    have foundToo := getLast?_filter found lastSolid
    have more : rest.filter Path.isSolid ≠ [] := by
      intro h
      rw [h] at foundToo
      cases foundToo
    cases item : tree.item? (directory ++ [piece]) with
    | none => rw [walk_missing name alone item, walk_missing name more item]
    | some there =>
      cases there with
      | file content =>
        rw [walk_through_file name alone item, walk_through_file name more item]
      | directory =>
        rw [walk_directory name _ item, walk_directory name _ item]
        exact ih _ ends.tail
      | link target =>
        cases links with
        | zero => rw [walk_many_links name (Or.inl alone) item, walk_many_links name (Or.inl more) item]
        | succ fewer =>
          -- The target goes before both rests, and all its pieces are followed by one that leads on.
          have left : Ends (piecesOf target ++ rest) :=
            Or.inr ⟨last, by simp [List.getLast?_append, found], lastSolid⟩
          have right : Ends (piecesOf target ++ rest.filter Path.isSolid) :=
            Or.inr ⟨last, by simp [List.getLast?_append, foundToo], lastSolid⟩
          rw [walk_link name (Or.inl alone) item, walk_link name (Or.inl more) item,
            below fewer rfl _ _ left, below fewer rfl _ _ right]
          simp

theorem walk_filter (tree : FileTree) (followsLast : Bool) (links : Nat) (directory : Names)
    {pieces : List String} (ends : Ends pieces) :
    tree.walk followsLast links directory pieces =
      tree.walk followsLast links directory (pieces.filter Path.isSolid) := by
  induction links generalizing directory pieces with
  | zero => exact walk_filter_of tree followsLast 0 (by simp) directory ends
  | succ links ih =>
    refine walk_filter_of tree followsLast (links + 1) ?_ directory ends
    intro fewer same directory pieces ends
    obtain rfl : links = fewer := by omega
    exact ih directory ends

/-- Paths with the same parts lead to the same spot, unless one of them is too long. -/
theorem locate_congr {a b : String} (parts : Path.parts a = Path.parts b)
    (endsA : Ends (piecesOf a)) (endsB : Ends (piecesOf b))
    (shortA : a.utf8ByteSize < pathLimit) (shortB : b.utf8ByteSize < pathLimit) (tree : FileTree)
    (followsLast : Bool) : tree.locate followsLast a = tree.locate followsLast b := by
  have fault : pathFault? a = pathFault? b := by
    unfold pathFault?
    rw [Path.contains_eq (by decide) (by decide), Path.contains_eq (by decide) (by decide),
      Path.isEmpty_eq, Path.isEmpty_eq, parts, if_neg (by omega : ¬a.utf8ByteSize ≥ pathLimit),
      if_neg (by omega : ¬b.utf8ByteSize ≥ pathLimit)]
  have start : tree.startOf a = tree.startOf b := by
    rw [startOf, startOf, Path.isAbsolute_eq, Path.isAbsolute_eq, parts]
  rw [locate_eq, locate_eq, fault, start, walk_filter _ _ _ _ endsA, walk_filter _ _ _ _ endsB,
    Path.filter_piecesOf, Path.filter_piecesOf, parts]

end FileTree

end Phrasebook
