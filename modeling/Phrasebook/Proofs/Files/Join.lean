import Phrasebook.Proofs.Files.Directory
import Phrasebook.Proofs.Files.Path

/-!
Paths that are joined to a directory: they lead where they lead as seen from there, unless they are too
long.
-/

set_option autoImplicit false

namespace Phrasebook

namespace Path

private theorem isAbsolute_append {base : String} (full : base ≠ "") (rest : String) :
    isAbsolute (base ++ rest).toList = isAbsolute base.toList := by
  obtain ⟨c, chars, split⟩ := List.exists_cons_of_ne_nil (l := base.toList) (by simpa using full)
  simp [isAbsolute, String.toList_append, split]

theorem isAbsolute_join (base : String) {path : String}
    (relative : isAbsolute path.toList = false) :
    isAbsolute (join base path).toList = isAbsolute base.toList := by
  rcases join_cases base relative with ⟨rfl, joined⟩ | ⟨start, rfl, joined⟩ | ⟨full, joined⟩
  · rw [joined, relative]
    rfl
  · rw [joined, isAbsolute_append (by simp)]
  · rw [joined, String.append_assoc, isAbsolute_append full]

def opened (base : String) : String :=
  if base.isEmpty then "" else if base.toList.getLast? == some '/' then base else base ++ "/"

theorem join_eq (base : String) {path : String} (relative : isAbsolute path.toList = false) :
    join base path = opened base ++ path := by
  unfold join opened
  by_cases empty : base.isEmpty = true
  · rw [if_pos (by simp [empty]), if_pos empty, String.empty_append]
  · rw [if_neg (by simp [relative, empty]), if_neg empty]
    split <;> rfl

theorem join_of_isAbsolute (base : String) {path : String} (fromRoot : isAbsolute path.toList = true) :
    join base path = path := by
  rw [join, if_pos (by simp [fromRoot])]

theorem opened_append (start : String) {rest : String} (full : rest ≠ "") :
    opened (start ++ rest) = start ++ opened rest := by
  have last : (start ++ rest).toList.getLast? = rest.toList.getLast? := by
    rw [String.toList_append, List.getLast?_append_of_ne_nil _ (by simpa using full)]
  have whole : ¬(start ++ rest).isEmpty = true := by simp [full]
  have part : ¬rest.isEmpty = true := by simp [full]
  rw [opened, opened, last, if_neg whole, if_neg part]
  split
  · rfl
  · rw [String.append_assoc]

theorem utf8ByteSize_le_join (base path : String) :
    path.utf8ByteSize ≤ (join base path).utf8ByteSize := by
  cases fromRoot : isAbsolute path.toList with
  | true => rw [join_of_isAbsolute _ fromRoot]
  | false =>
    rw [join_eq _ fromRoot, String.utf8ByteSize_append]
    omega

theorem join_ne_empty_of_base {base : String} (full : base ≠ "") (path : String) :
    join base path ≠ "" := by
  by_cases empty : path = ""
  · subst empty
    rw [join_eq base rfl, String.append_empty, opened, if_neg (by simp [full])]
    split
    · exact full
    · simp
  · exact join_ne_empty empty

theorem join_join (base : String) {inner : String} (full : inner ≠ "") (path : String) :
    join (join base inner) path = join base (join inner path) := by
  cases fromRoot : isAbsolute path.toList with
  | true =>
    rw [join_of_isAbsolute _ fromRoot, join_of_isAbsolute _ fromRoot, join_of_isAbsolute _ fromRoot]
  | false =>
    have outer := isAbsolute_join inner fromRoot
    cases above : isAbsolute inner.toList with
    | true =>
      rw [above] at outer
      rw [join_of_isAbsolute _ above, join_of_isAbsolute _ outer]
    | false =>
      rw [above] at outer
      rw [join_eq _ fromRoot, join_eq base outer, join_eq inner fromRoot, join_eq base above,
        opened_append _ full, String.append_assoc]

end Path

namespace FileTree

variable {tree : FileTree} {base path : String}

theorem walk_join (relative : Path.isAbsolute path.toList = false) {start names : Names}
    (h : tree.descend start (piecesOf base) = some names) (followsLast : Bool) (links : Nat) :
    tree.walk followsLast links start (piecesOf (Path.join base path)) =
      tree.walk followsLast links names (piecesOf path) := by
  rcases Path.join_cases base relative with ⟨rfl, joined⟩ | ⟨outer, rfl, joined⟩ | ⟨-, joined⟩
  · obtain rfl : start = names := Option.some.inj h
    rw [joined]
  · have bare : tree.descend start (piecesOf outer) = some names := by
      have closed := piecesOf_append outer ""
      rw [String.append_empty] at closed
      rw [closed, descend_append] at h
      obtain ⟨inner, first, last⟩ := Option.bind_eq_some_iff.mp h
      rw [first, ← last]
      rfl
    rw [joined, piecesOf_append, walk_append_of_descend bare]
  · rw [joined, piecesOf_append, walk_append_of_descend h]

theorem getLast?_piecesOf_join (base path : String) :
    (piecesOf (Path.join base path)).getLast? = (piecesOf path).getLast? := by
  have pieces : piecesOf path ≠ [] := by simp [piecesOf, Text.splitAt_ne_nil]
  cases fromRoot : Path.isAbsolute path.toList with
  | true => rw [Path.join_of_isAbsolute _ fromRoot]
  | false =>
    rcases Path.join_cases base fromRoot with ⟨-, joined⟩ | ⟨start, -, joined⟩ | ⟨-, joined⟩
    · rw [joined]
    · rw [joined, piecesOf_append, List.getLast?_append_of_ne_nil _ pieces]
    · rw [joined, piecesOf_append, List.getLast?_append_of_ne_nil _ pieces]

theorem startOf_join (relative : Path.isAbsolute path.toList = false) :
    tree.startOf (Path.join base path) = tree.startOf base := by
  rw [startOf, startOf, Path.isAbsolute_join base relative]

theorem locate_join (relative : Path.isAbsolute path.toList = false) {names : Names}
    (sound : pathFault? (Path.join base path) = none)
    (h : tree.descend (tree.startOf base) (piecesOf base) = some names) (followsLast : Bool) :
    tree.locate followsLast (Path.join base path) =
      tree.walk followsLast linkLimit names (piecesOf path) := by
  rw [locate_eq, sound]
  simp only
  rw [startOf_join relative, walk_join relative h]

end FileTree

end Phrasebook
