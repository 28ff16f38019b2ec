import Phrasebook.Proofs.Files.Parent

/-!
Spellings of one path. What is done by the one comes to the same as what is done by the other.
-/

set_option autoImplicit false

namespace Phrasebook

namespace Path

/-- A path that leads where its parts lead. -/
structure IsTidy (path : String) : Prop where
  ends : FileTree.Ends (FileTree.piecesOf path)
  short : path.utf8ByteSize < FileTree.pathLimit

def Alike (a b : String) : Prop := a = b ∨ parts a = parts b ∧ IsTidy a ∧ IsTidy b

namespace Alike

variable {a b : String}

theorem parts_eq (alike : Alike a b) : parts a = parts b := by
  rcases alike with rfl | ⟨same, -⟩
  · rfl
  · exact same

theorem locate_eq (alike : Alike a b) (tree : FileTree) (followsLast : Bool) :
    tree.locate followsLast a = tree.locate followsLast b := by
  rcases alike with rfl | ⟨same, tidyA, tidyB⟩
  · rfl
  · exact FileTree.locate_congr same tidyA.ends tidyB.ends tidyA.short tidyB.short tree followsLast

private theorem isTidy_parent? {path parent : String} (tidy : IsTidy path)
    (h : parent? path = some parent) : IsTidy parent :=
  ⟨ends_parent? h, (utf8ByteSize_parent? h).trans_lt tidy.short⟩

theorem parent?_cases (alike : Alike a b) :
    parent? a = none ∧ parent? b = none ∨
      ∃ p q, parent? a = some p ∧ parent? b = some q ∧ Alike p q := by
  have bare : parent? a = none ↔ parent? b = none := by
    rw [parent?_eq_none_iff, parent?_eq_none_iff, alike.parts_eq]
  cases first : parent? a with
  | none => exact Or.inl ⟨rfl, bare.mp first⟩
  | some p =>
    obtain ⟨q, second⟩ := Option.ne_none_iff_exists'.mp fun none_ => by
      rw [bare.mpr none_] at first
      cases first
    refine Or.inr ⟨p, q, rfl, second, ?_⟩
    rcases alike with rfl | ⟨same, tidyA, tidyB⟩
    · exact Or.inl (Option.some.inj (first.symm.trans second))
    · refine Or.inr ⟨?_, isTidy_parent? tidyA first, isTidy_parent? tidyB second⟩
      rw [parts_parent? first, parts_parent? second, same]

end Alike

end Path

namespace FileTree

variable {a b : String} (tree : FileTree)

theorem isDirectory_congr (alike : Path.Alike a b) : tree.isDirectory a = tree.isDirectory b := by
  rw [isDirectory, isDirectory, resolve, resolve, alike.locate_eq]

theorem perform_write_congr (alike : Path.Alike a b) (content : Content) :
    tree.perform (Change.write a content) = tree.perform (Change.write b content) := by
  rw [perform_write, perform_write, alike.locate_eq]

theorem perform_remove_congr (alike : Path.Alike a b) :
    tree.perform (Change.remove a) = tree.perform (Change.remove b) := by
  rw [perform_remove, perform_remove, alike.locate_eq]

theorem perform_ensureDirectory_congr (alike : Path.Alike a b) :
    tree.perform (Change.ensureDirectory a) = tree.perform (Change.ensureDirectory b) := by
  rw [perform_ensureDirectory, perform_ensureDirectory, perform_makeDirectory,
    perform_makeDirectory, alike.locate_eq]
  cases tree.locate false b with
  | error fault => simp only [isDirectory_congr _ alike]
  | ok spot =>
    cases spot with
    | free names => rfl
    | item names found => simp only [isDirectory_congr _ alike]

theorem perform_makeFirst_congr {as bs : List String} (alike : List.Forall₂ Path.Alike as bs) :
    tree.perform (Change.makeFirst as) = tree.perform (Change.makeFirst bs) := by
  induction alike generalizing tree with
  | nil => rfl
  | @cons a b as bs first _ ih =>
    have empty : a.isEmpty = b.isEmpty := by
      rw [Path.isEmpty_eq, Path.isEmpty_eq, first.parts_eq]
    rw [perform_makeFirst_cons, perform_makeFirst_cons, empty, perform_ensureDirectory_congr _ first]
    simp only [ih, perform_ensureDirectory_congr _ first]

private theorem forall₂_go (count : Nat) (alike : Path.Alike a b) :
    List.Forall₂ Path.Alike (Change.withAncestors.go count a) (Change.withAncestors.go count b) := by
  induction count generalizing a b with
  | zero => exact .cons alike .nil
  | succ count ih =>
    unfold Change.withAncestors.go
    rcases alike.parent?_cases with ⟨first, second⟩ | ⟨p, q, first, second, outer⟩
    · rw [first, second]
      exact .cons alike .nil
    · rw [first, second]
      exact .cons alike (ih outer)

theorem perform_makeDirectories_congr (alike : Path.Alike a b) :
    tree.perform (Change.makeDirectories a) = tree.perform (Change.makeDirectories b) := by
  rw [Change.makeDirectories, Change.makeDirectories, Change.withAncestors, Change.withAncestors,
    alike.parts_eq]
  exact perform_makeFirst_congr tree (forall₂_go _ alike)

end FileTree

end Phrasebook
