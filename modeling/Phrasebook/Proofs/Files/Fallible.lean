import Phrasebook.Proofs.Files.Outline

/-!
Disks on which any change may fail. Directories are made one by one and a file is written bit by bit, so
a failure may come in between; what is moved or removed is so as a whole.
-/

set_option autoImplicit false

namespace Phrasebook

/-- A change that comes to what another one comes to, or fails and leaves one of some trees. -/
def Attempts (change ideal : Change Unit) (leaves : FileTree → FileTree → Prop) : Prop :=
  ∀ tree : FileTree, tree.perform change = tree.perform ideal ∨
    ∃ fault later, tree.perform change = (.error fault, later) ∧ leaves tree later

/-- A disk on which any change may fail. It has made some of the directories then, or has written anything
to the file, or has done nothing. -/
structure Disk.IsFallible (disk : Disk) : Prop where
  makeDirectories : ∀ path, Attempts (disk.makeDirectories path) (Change.makeDirectories path)
    fun tree later => tree.Grows later ∧
      later.Grows (tree.perform (Change.makeDirectories path)).2
  write : ∀ path content, Attempts (disk.write path content) (Change.write path content)
    fun tree later => later = tree ∨ ∃ part, later = (tree.perform (Change.write path part)).2
  rename : ∀ source target, Attempts (disk.rename source target) (Change.rename source target)
    fun tree later => later = tree
  remove : ∀ path, Attempts (disk.remove path) (Change.remove path) fun tree later => later = tree

def Disk.Removes (disk : Disk) (path : String) : Prop :=
  ∀ tree : FileTree, tree.perform (disk.remove path) = tree.perform (Change.remove path)

theorem Disk.isFallible_sound : Disk.sound.IsFallible where
  makeDirectories _ _ := Or.inl rfl
  write _ _ _ := Or.inl rfl
  rename _ _ _ := Or.inl rfl
  remove _ _ := Or.inl rfl

namespace FileTree

variable {tree : FileTree} {path : String} {names : Names}

private theorem ensureDirectory_cases (tree : FileTree) (path : String) :
    (∃ names, tree.locate false path = .ok (.free names) ∧
        tree.perform (Change.ensureDirectory path) = (.ok (), tree.put names .directory)) ∨
      (tree.perform (Change.ensureDirectory path)).2 = tree := by
  rw [perform_ensureDirectory, perform_makeDirectory]
  rcases located : tree.locate false path with fault | (⟨names, found⟩ | names)
  · exact Or.inr rfl
  · exact Or.inr rfl
  · exact Or.inl ⟨names, rfl, rfl⟩

private theorem keeps_ensureDirectory (tree : FileTree) (path : String) :
    tree.Keeps (tree.perform (Change.ensureDirectory path)).2 := by
  rcases ensureDirectory_cases tree path with ⟨names, located, done⟩ | same
  · rw [done]
    exact keeps_put (Or.inl (item?_of_locate_free located)) _
  · rw [same]
    exact Keeps.refl tree

private theorem item?_of_ensureDirectory
    (made : (tree.perform (Change.ensureDirectory path)).2.item? names = some .directory) :
    tree.item? names = some .directory ∨
      (tree.perform (Change.ensureDirectory path)).2.locate true path =
        .ok (.item names .directory) := by
  rcases ensureDirectory_cases tree path with ⟨new, located, done⟩ | same
  · have unused := item?_of_locate_free located
    have items := item?_put (ne_nil_of_item?_eq_none unused) tree .directory
    rw [done] at made ⊢
    by_cases here : names = new
    · subst here
      right
      exact locate_of_free (keeps_put (Or.inl unused) _) made (by simp) located
    · left
      rwa [items, if_neg here] at made
  · left
    rwa [same] at made

private theorem makeFirst_cases (tree : FileTree) (path : String) (outer : List String) :
    let after := (tree.perform (Change.makeFirst (path :: outer))).2
    let outside := (tree.perform (Change.makeFirst outer)).2
    after = tree ∨ after = (tree.perform (Change.ensureDirectory path)).2 ∨ after = outside ∨
      after = (outside.perform (Change.ensureDirectory path)).2 := by
  intro after outside
  have done := congrArg Prod.snd (perform_makeFirst_cons tree path outer)
  change after = _ at done
  by_cases empty : path.isEmpty = true
  · rw [if_pos empty] at done
    exact Or.inl done
  rw [if_neg empty] at done
  rcases ensured : tree.perform (Change.ensureDirectory path) with ⟨fault | _, first⟩
  · -- Nothing was made where the first directory could not be made.
    obtain rfl : first = tree := by
      rcases ensureDirectory_cases tree path with ⟨names, -, other⟩ | same
      · rw [ensured] at other
        cases other
      · rw [ensured] at same
        exact same
    simp only [ensured] at done
    split at done
    · exact Or.inl done
    · right; right
      rcases others : first.perform (Change.makeFirst outer) with ⟨_ | _, last⟩
      · rw [others] at done
        exact Or.inl (done.trans (by rw [show outside = last from congrArg Prod.snd others]))
      · rw [others] at done
        exact Or.inr (done.trans (by rw [show outside = last from congrArg Prod.snd others]))
  · rw [ensured] at done
    exact Or.inr (Or.inl done)

private theorem item?_of_makeFirst (paths : List String) (tree : FileTree)
    (made : (tree.perform (Change.makeFirst paths)).2.item? names = some .directory) :
    tree.item? names = some .directory ∨
      ∃ path ∈ paths, (tree.perform (Change.makeFirst paths)).2.locate true path =
        .ok (.item names .directory) := by
  induction paths generalizing tree with
  | nil => exact Or.inl made
  | cons path outer ih =>
    rcases makeFirst_cases tree path outer with same | same | same | same <;> rw [same] at made ⊢
    · exact Or.inl made
    · refine (item?_of_ensureDirectory made).imp_right fun leads => ?_
      exact ⟨path, List.mem_cons_self, leads⟩
    · refine (ih tree made).imp_right fun ⟨inner, member, leads⟩ => ?_
      exact ⟨inner, List.mem_cons_of_mem _ member, leads⟩
    · rcases item?_of_ensureDirectory made with before | leads
      · refine (ih tree before).imp_right fun ⟨inner, member, leads⟩ => ?_
        refine ⟨inner, List.mem_cons_of_mem _ member, ?_⟩
        exact locate_directory_of_keeps (keeps_ensureDirectory _ path) leads
      · exact Or.inr ⟨path, List.mem_cons_self, leads⟩

theorem exists_of_makeDirectories (free : tree.item? names = none)
    (made : (tree.perform (Change.makeDirectories path)).2.item? names = some .directory) :
    ∃ other ∈ Change.withAncestors path,
      (tree.perform (Change.makeDirectories path)).2.locate true other =
        .ok (.item names .directory) := by
  refine (item?_of_makeFirst _ tree made).resolve_left ?_
  rw [free]
  exact Option.some_ne_none _ |>.symm

end FileTree

end Phrasebook
