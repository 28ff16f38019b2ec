import Phrasebook.Proofs.Files.Change
import Phrasebook.Proofs.Files.Path

/-!
Parents of paths, by their parts.
-/

set_option autoImplicit false

namespace Phrasebook

namespace Path

open FileTree (piecesOf)

private theorem dropVoidEnd_isPrefix (found : List (List Char)) : dropVoidEnd found <+: found := by
  have ending := List.dropWhile_suffix isVoid (l := found.reverse)
  rw [← List.reverse_prefix] at ending
  simpa [dropVoidEnd] using ending

private theorem isVoid_of_getLast? {found : List (List Char)} {piece : List Char}
    (h : (dropVoidEnd found).getLast? = some piece) : isVoid piece = false := by
  rw [dropVoidEnd, List.getLast?_reverse] at h
  have first := List.head?_dropWhile_not isVoid found.reverse
  rw [h] at first
  simpa using first

private theorem filterMap_dropVoidEnd (found : List (List Char)) :
    (dropVoidEnd found).filterMap partOf? = found.filterMap partOf? := by
  induction found using List.reverseRecOn with
  | nil => rfl
  | append_singleton found piece ih =>
    by_cases void : isVoid piece = true
    · have dropped : dropVoidEnd (found ++ [piece]) = dropVoidEnd found := by
        simp [dropVoidEnd, void]
      rw [dropped, ih, List.filterMap_append]
      simp [partOf?, void]
    · have kept : dropVoidEnd (found ++ [piece]) = found ++ [piece] := by
        simp [dropVoidEnd, void]
      rw [kept]

theorem splitHead_append (chars : List Char) :
    (splitHead chars).1 ++ (splitHead chars).2 = chars := by
  fun_cases splitHead chars <;> rfl

private theorem splitHead_of_isPrefix {chars start : List Char} (h : start <+: (splitHead chars).2)
    (solid : start ≠ ['.']) :
    splitHead ((splitHead chars).1 ++ start) = ((splitHead chars).1, start) := by
  obtain ⟨rest, cut⟩ := h
  fun_cases splitHead chars with
  | case1 => rfl
  | case2 =>
    obtain rfl : start = [] := (List.append_eq_nil_iff.mp cut).1
    rfl
  | case3 more =>
    cases start with
    | nil => rfl
    | cons c start =>
      obtain rfl : c = '/' := (List.cons.inj cut).1
      rfl
  | case4 chars absolute here below =>
    rw [splitHead.eq_4 chars absolute here below] at cut
    rw [List.nil_append]
    fun_cases splitHead start with
    | case1 more => exact absurd cut.symm (absolute _)
    | case2 => exact absurd rfl solid
    | case3 more => exact absurd cut.symm (below _)
    | case4 => rfl

private def outerPieces (chars : List Char) : List (List Char) :=
  dropVoidEnd (dropVoidEnd (pieces chars)).dropLast

private theorem outerPieces_isPrefix (chars : List Char) : outerPieces chars <+: pieces chars :=
  (dropVoidEnd_isPrefix _).trans ((List.dropLast_prefix _).trans (dropVoidEnd_isPrefix _))

private theorem spelling_of_parent? {path parent : String} (h : parent? path = some parent) :
    dropVoidEnd (pieces path.toList) = [] ∧ (splitHead path.toList).1 = ['.'] ∧ parent = "" ∨
      dropVoidEnd (pieces path.toList) ≠ [] ∧ parent.toList =
        (splitHead path.toList).1 ++ Text.joinWith ['/'] (outerPieces path.toList) := by
  unfold parent? at h
  simp only at h
  split at h
  · rename_i bare
    split at h
    · rename_i here
      exact Or.inl ⟨bare, by simpa using here, (Option.some.inj h).symm⟩
    · cases h
  · rename_i full
    refine Or.inr ⟨full, ?_⟩
    rw [← Option.some.inj h, String.toList_ofList]
    rfl

private theorem splitAt_outerPieces {chars : List Char} (full : outerPieces chars ≠ []) :
    Text.splitAt (· == '/') (Text.joinWith ['/'] (outerPieces chars)) = outerPieces chars := by
  refine Text.splitAt_joinWith (by decide) (fun piece hp => ?_) full
  exact (Text.mem_splitAt ((outerPieces_isPrefix chars).subset hp)).1

private theorem joinWith_outerPieces_isPrefix (chars : List Char) :
    Text.joinWith ['/'] (outerPieces chars) <+: (splitHead chars).2 := by
  have start := Text.joinWith_isPrefix ['/'] (outerPieces_isPrefix chars)
  rwa [pieces, Text.joinWith_splitAt] at start

private theorem joinWith_outerPieces_ne (chars : List Char) :
    Text.joinWith ['/'] (outerPieces chars) ≠ ['.'] := by
  intro here
  have full : outerPieces chars ≠ [] := by
    intro bare
    rw [bare] at here
    cases here
  have again := splitAt_outerPieces full
  rw [here] at again
  have last : (outerPieces chars).getLast? = some ['.'] := by
    rw [← again]
    rfl
  cases isVoid_of_getLast? last

section Outer

variable {path parent : String}
  (spelled : parent.toList =
    (splitHead path.toList).1 ++ Text.joinWith ['/'] (outerPieces path.toList))

include spelled

private theorem splitHead_outer :
    splitHead parent.toList =
      ((splitHead path.toList).1, Text.joinWith ['/'] (outerPieces path.toList)) := by
  rw [spelled]
  exact splitHead_of_isPrefix (joinWith_outerPieces_isPrefix _) (joinWith_outerPieces_ne _)

private theorem headParts_outer : headParts parent.toList = headParts path.toList := by
  rw [headParts, splitHead_outer spelled, headParts]

private theorem filterMap_outer :
    (pieces parent.toList).filterMap partOf? = (outerPieces path.toList).filterMap partOf? := by
  rw [pieces, splitHead_outer spelled]
  by_cases bare : outerPieces path.toList = []
  · simp [bare, Text.splitAt, partOf?, isVoid]
  · rw [splitAt_outerPieces bare]

end Outer

private theorem exists_last {chars : List Char} (full : dropVoidEnd (pieces chars) ≠ []) :
    ∃ inner last part, dropVoidEnd (pieces chars) = inner ++ [last] ∧ partOf? last = some part := by
  obtain ⟨last, found⟩ := Option.ne_none_iff_exists'.mp (mt List.getLast?_eq_none_iff.mp full)
  obtain ⟨inner, split⟩ := List.getLast?_eq_some_iff.mp found
  have solid := isVoid_of_getLast? found
  by_cases up : last = ['.', '.']
  · exact ⟨inner, last, .up, split, by simp [partOf?, up, isVoid]⟩
  · exact ⟨inner, last, .name (String.ofList last), split, by simp [partOf?, solid, up]⟩

private theorem filterMap_outerPieces {chars : List Char}
    (full : dropVoidEnd (pieces chars) ≠ []) :
    ∃ part, (pieces chars).filterMap partOf? = (outerPieces chars).filterMap partOf? ++ [part] := by
  obtain ⟨inner, last, part, split, found⟩ := exists_last full
  refine ⟨part, ?_⟩
  rw [outerPieces, filterMap_dropVoidEnd, ← filterMap_dropVoidEnd (pieces chars), split,
    List.dropLast_concat, List.filterMap_append, List.filterMap_cons_some found,
    List.filterMap_nil]

private theorem filterMap_pieces_of_eq_nil {chars : List Char}
    (bare : dropVoidEnd (pieces chars) = []) : (pieces chars).filterMap partOf? = [] := by
  rw [← filterMap_dropVoidEnd, bare]
  rfl

private theorem parts_eq_pieces (path : String) :
    parts path = headParts path.toList ++ (pieces path.toList).filterMap partOf? := rfl

/-- The parent of a path has all parts but the last one. -/
theorem parts_parent? {path parent : String} (h : parent? path = some parent) :
    parts parent = (parts path).dropLast := by
  rcases spelling_of_parent? h with ⟨bare, here, rfl⟩ | ⟨full, spelled⟩
  · rw [parts_eq_pieces path, filterMap_pieces_of_eq_nil bare, headParts, here]
    rfl
  · obtain ⟨part, split⟩ := filterMap_outerPieces full
    rw [parts_eq_pieces, parts_eq_pieces, headParts_outer spelled, filterMap_outer spelled, split,
      ← List.append_assoc, List.dropLast_concat]

theorem parent?_eq_none_iff {path : String} :
    parent? path = none ↔ parts path = [] ∨ parts path = [.root] := by
  by_cases bare : dropVoidEnd (pieces path.toList) = []
  · have all : parts path = headParts path.toList := by
      rw [parts_eq_pieces, filterMap_pieces_of_eq_nil bare, List.append_nil]
    unfold parent?
    simp only [bare]
    rw [all, headParts]
    fun_cases splitHead path.toList <;> simp
  · obtain ⟨part, split⟩ := filterMap_outerPieces bare
    have some_ : parent? path ≠ none := by
      unfold parent?
      simp
    have inside : part ∈ (pieces path.toList).filterMap partOf? := by simp [split]
    obtain ⟨piece, -, found⟩ := List.mem_filterMap.mp inside
    refine iff_of_false some_ ?_
    rw [parts_eq_pieces, split, ← List.append_assoc]
    rintro (none_ | root)
    · simp at none_
    · have last := congrArg List.getLast? root
      rw [List.getLast?_concat] at last
      exact (part_of_partOf? found).1 (Option.some.inj last)

theorem utf8ByteSize_parent? {path parent : String} (h : parent? path = some parent) :
    parent.utf8ByteSize ≤ path.utf8ByteSize := by
  rcases spelling_of_parent? h with ⟨-, -, rfl⟩ | ⟨-, spelled⟩
  · simp
  · obtain ⟨rest, cut⟩ := joinWith_outerPieces_isPrefix path.toList
    have whole : path = parent ++ String.ofList rest := by
      rw [← String.toList_inj, String.toList_append, spelled, String.toList_ofList,
        List.append_assoc, cut, splitHead_append]
    rw [whole, String.utf8ByteSize_append]
    omega

private theorem getLast?_pieces {chars piece : List Char} (solid : isVoid piece = false) :
    (pieces chars).getLast? = some piece ↔
      (Text.splitAt (· == '/') chars).getLast? = some piece := by
  unfold pieces
  fun_cases splitHead chars with
  | case1 rest =>
    simp [Text.splitAt, List.getLast?_cons_of_ne_nil (Text.splitAt_ne_nil _ rest)]
  | case2 =>
    have different : ∀ void : List Char, isVoid void = true → void ≠ piece := by
      rintro void isVoid rfl
      rw [isVoid] at solid
      cases solid
    simp [Text.splitAt, different [] rfl, different ['.'] rfl]
  | case3 rest =>
    simp [Text.splitAt, List.getLast?_cons_of_ne_nil (Text.splitAt_ne_nil _ rest)]
  | case4 => rfl

theorem ends_parent? {path parent : String} (h : parent? path = some parent) :
    FileTree.Ends (piecesOf parent) := by
  rcases spelling_of_parent? h with ⟨-, -, rfl⟩ | ⟨-, spelled⟩
  · exact Or.inl (by decide)
  by_cases full : outerPieces path.toList = []
  · left
    rw [filter_piecesOf, parts_eq_pieces, List.filterMap_append, filterMap_headParts,
      filterMap_outer spelled, full]
    rfl
  · obtain ⟨piece, last⟩ := Option.ne_none_iff_exists'.mp (mt List.getLast?_eq_none_iff.mp full)
    have solid := isVoid_of_getLast? last
    have all : pieces parent.toList = outerPieces path.toList := by
      rw [pieces, splitHead_outer spelled, splitAt_outerPieces full]
    have found := (getLast?_pieces solid).mp (all ▸ last)
    refine Or.inr ⟨String.ofList piece, ?_, by simp [isSolid_ofList, solid]⟩
    rw [piecesOf, List.getLast?_map, found]
    rfl

private theorem dropVoidEnd_concat {found : List (List Char)} {last : List Char}
    (solid : isVoid last = false) : dropVoidEnd (found ++ [last]) = found ++ [last] := by
  simp [dropVoidEnd, solid]

private theorem splitHead_append_slash {base : List Char} (full : base ≠ []) (rest : List Char) :
    splitHead (base ++ '/' :: rest) = ((splitHead base).1, (splitHead base).2 ++ '/' :: rest) := by
  fun_cases splitHead base with
  | case1 more => rfl
  | case2 => rfl
  | case3 more => rfl
  | case4 base absolute here below =>
    refine splitHead.eq_4 _ ?_ ?_ ?_
    · intro more h
      cases base with
      | nil => exact full rfl
      | cons c more => exact absolute more (by rw [(List.cons.inj h).1])
    · intro h
      cases base with
      | nil => exact full rfl
      | cons c more => simp at h
    · intro more h
      rcases base with _ | ⟨c, _ | ⟨d, more⟩⟩
      · exact full rfl
      · exact here (by rw [(List.cons.inj h).1])
      · exact below more (by rw [(List.cons.inj h).1, (List.cons.inj (List.cons.inj h).2).1])

theorem parent?_append {base last name : String}
    (ends : (piecesOf base).getLast? = some last) (solid : isSolid last = true)
    (proper : FileTree.IsName name) (inside : '/' ∉ name.toList) :
    parent? (base ++ "/" ++ name) = some base := by
  obtain ⟨piece, found, rfl⟩ : ∃ piece,
      (Text.splitAt (· == '/') base.toList).getLast? = some piece ∧ String.ofList piece = last := by
    simpa [piecesOf, List.getLast?_map] using ends
  rw [isSolid_ofList, Bool.not_eq_true'] at solid
  have full : base.toList ≠ [] := by
    intro bare
    rw [bare] at found
    obtain rfl : [] = piece := by simpa [Text.splitAt] using found
    cases solid
  have kept : dropVoidEnd (pieces base.toList) = pieces base.toList := by
    obtain ⟨others, split⟩ := List.getLast?_eq_some_iff.mp ((getLast?_pieces solid).mpr found)
    rw [split, dropVoidEnd_concat solid]
  have named : isVoid name.toList = false := by
    have spelled := isSolid_ofList name.toList
    rw [String.ofList_toList, proper.isSolid] at spelled
    exact Bool.not_eq_true' _ |>.mp spelled.symm
  have chars : (base ++ "/" ++ name).toList = base.toList ++ '/' :: name.toList := by
    simp [String.toList_append]
  have all : pieces (base ++ "/" ++ name).toList = pieces base.toList ++ [name.toList] := by
    rw [pieces, chars, splitHead_append_slash full, Text.splitAt_append _ _ (by decide),
      FileTree.splitAt_of_not_mem inside]
    rfl
  unfold parent?
  simp only [all, dropVoidEnd_concat named]
  split
  · rename_i bare
    simp at bare
  · rw [List.dropLast_concat, kept, chars, splitHead_append_slash full, pieces,
      Text.joinWith_splitAt, splitHead_append, String.ofList_toList]

end Path

end Phrasebook
