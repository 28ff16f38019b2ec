import Phrasebook.Proofs.Files.Outline
import Phrasebook.Proofs.Files.Way

/-!
Directories that are made again. Where that has failed it fails again, and nothing more is made; where
it has succeeded the directory is there.
-/

set_option autoImplicit false

namespace Phrasebook.FileTree

open Change (makeFirst ensureDirectory)

variable {tree last later : FileTree} {path : String}

theorem isDirectory_of_ensureDirectory
    (done : tree.perform (ensureDirectory path) = (.ok (), later)) :
    later.isDirectory path = true := by
  rw [perform_ensureDirectory, perform_makeDirectory] at done
  cases located : tree.locate false path with
  | error fault =>
    rw [located] at done
    simp only at done
    split at done
    · rename_i there
      obtain rfl : tree = later := congrArg Prod.snd done
      exact there
    · cases done
  | ok spot =>
    rw [located] at done
    cases spot with
    | item names found =>
      simp only at done
      split at done
      · rename_i there
        obtain rfl : tree = later := congrArg Prod.snd done
        exact there
      · cases done
    | free names =>
      have below := ne_nil_of_item?_eq_none (item?_of_locate_free located)
      obtain rfl : tree.put names .directory = later := congrArg Prod.snd done
      have keeps := keeps_put (Or.inl (item?_of_locate_free located)) .directory
      refine isDirectory_iff.mpr ⟨names, locate_of_free keeps ?_ (by simp) located⟩
      rw [item?_put below, if_pos rfl]

theorem isDirectory_of_makeFirst {outer : List String}
    (done : tree.perform (makeFirst (path :: outer)) = (.ok (), later)) :
    path = "" ∨ later.isDirectory path = true := by
  rw [perform_makeFirst_cons] at done
  by_cases empty : path.isEmpty = true
  · exact Or.inl (String.isEmpty_iff.mp empty)
  right
  rw [if_neg empty] at done
  rcases made : tree.perform (ensureDirectory path) with ⟨fault | _, last⟩
  · simp only [made] at done
    split at done
    · cases done
    · rcases others : last.perform (makeFirst outer) with ⟨_ | _, outerLast⟩
      · rw [others] at done
        cases done
      · rw [others] at done
        exact isDirectory_of_ensureDirectory done
  · rw [made] at done
    obtain rfl : last = later := congrArg Prod.snd done
    exact isDirectory_of_ensureDirectory made

theorem isDirectory_of_makeDirectories (full : path ≠ "")
    (done : tree.perform (Change.makeDirectories path) = (.ok (), later)) :
    later.isDirectory path = true := by
  obtain ⟨outer, first⟩ := exists_withAncestors path
  rw [Change.makeDirectories, first] at done
  exact (isDirectory_of_makeFirst done).resolve_left full

private theorem makeFirst_error_cases {outer : List String} {fault : Fault}
    (failed : tree.perform (makeFirst (path :: outer)) = (.error fault, last)) :
    path.isEmpty = false ∧
      (fault ≠ .notFound ∧ last.perform (ensureDirectory path) = (.error fault, last) ∨
        tree.perform (makeFirst outer) = (.error fault, last) ∨
        tree.perform (makeFirst outer) = (.ok (), last) ∧
          last.perform (ensureDirectory path) = (.error fault, last)) := by
  rw [perform_makeFirst_cons] at failed
  by_cases empty : path.isEmpty = true
  · rw [if_pos empty] at failed
    cases failed
  refine ⟨by simpa using empty, ?_⟩
  rw [if_neg empty] at failed
  rcases first : tree.perform (ensureDirectory path) with ⟨other | _, made⟩
  swap
  · rw [first] at failed
    cases failed
  obtain ⟨rfl, -⟩ := perform_ensureDirectory_of_leadsTo (fun _ => rfl) first
  simp only [first] at failed
  split at failed
  · rename_i inTheWay
    obtain ⟨faults, rfl⟩ := Prod.mk.inj failed
    obtain rfl := Except.error.inj faults
    exact Or.inl ⟨by simpa using inTheWay, first⟩
  · rcases others : made.perform (makeFirst outer) with ⟨outerFault | _, outerLast⟩
    · simp only [others] at failed
      exact Or.inr (Or.inl failed)
    · simp only [others] at failed
      obtain ⟨rfl, -⟩ := perform_ensureDirectory_of_leadsTo (fun _ => rfl) failed
      exact Or.inr (Or.inr ⟨rfl, failed⟩)

theorem perform_makeFirst_of_error {outer : List String} {fault : Fault}
    (full : path.isEmpty = false)
    (failed : later.perform (ensureDirectory path) = (.error fault, later))
    (still : fault = .notFound → ∃ result, later.perform (makeFirst outer) = (result, later)) :
    ∃ other, later.perform (makeFirst (path :: outer)) = (.error other, later) := by
  rw [perform_makeFirst_cons, full, if_neg Bool.false_ne_true, failed]
  by_cases missing : fault = .notFound
  · obtain ⟨result, others⟩ := still missing
    rw [missing] at failed ⊢
    cases result with
    | ok value => exact ⟨.notFound, by simp [others, failed]⟩
    | error other => exact ⟨other, by simp [others]⟩
  · exact ⟨fault, by simp [missing]⟩

private theorem perform_ensureDirectory_of_nowhere
    (nowhere : ∀ followsLast spot, last.locate followsLast path ≠ .ok spot)
    (same : ∀ followsLast, later.leadsTo followsLast path = last.leadsTo followsLast path) :
    ∃ fault, later.perform (ensureDirectory path) = (.error fault, later) := by
  cases located : last.locate false path with
  | ok spot => exact absurd located (nowhere false spot)
  | error fault =>
    have there := leadsTo_eq_error.mp ((same false).trans (leadsTo_eq_error.mpr located))
    have absent : later.isDirectory path = false := by
      rw [isDirectory_of_leadsTo (same true), ← Bool.not_eq_true, isDirectory_iff]
      rintro ⟨names, found⟩
      exact nowhere true _ found
    refine ⟨fault, ?_⟩
    rw [perform_ensureDirectory, perform_makeDirectory, there]
    simp [absent]

/-- An attempt to make directories has come to its end in a tree: another one changes nothing wherever
the paths lead to the same, and succeeds if this one has. -/
private def Settles (paths : List String) : Prop :=
  ∀ (tree last : FileTree) (result : Except Fault Unit),
    tree.perform (makeFirst paths) = (result, last) →
    ∀ later : FileTree, (∀ path ∈ paths, ∀ followsLast,
        later.leadsTo followsLast path = last.leadsTo followsLast path) →
      ∃ again, later.perform (makeFirst paths) = (again, later) ∧ again.isOk = result.isOk

private theorem settles_nil : Settles [] := by
  intro tree last result done later same
  obtain rfl : .ok () = result := congrArg Prod.fst done
  exact ⟨.ok (), rfl, rfl⟩

private def Depends (path : String) (outer : List String) : Prop :=
  ∀ (tree last : FileTree) (fault : Fault), tree.perform (makeFirst outer) = (.error fault, last) →
    ∀ followsLast spot, last.locate followsLast path ≠ .ok spot

private theorem settles_cons {outer : List String} (rest : Settles outer)
    (depends : Depends path outer) : Settles (path :: outer) := by
  intro tree last result done later same
  have here := fun followsLast => same path (by simp) followsLast
  have outside := fun other ho => same other (List.mem_cons_of_mem path ho)
  cases result with
  | ok value =>
    refine ⟨.ok (), perform_makeFirst_of_isDirectory ?_ outer, rfl⟩
    rcases isDirectory_of_makeFirst done with empty | there
    · exact Or.inl empty
    · exact Or.inr ((isDirectory_of_leadsTo (here true)).trans there)
  | error fault =>
    suffices fails : ∃ again, later.perform (makeFirst (path :: outer)) = (.error again, later) by
      obtain ⟨again, failed⟩ := fails
      exact ⟨.error again, failed, rfl⟩
    obtain ⟨full, ⟨known, first⟩ | others | ⟨others, itself⟩⟩ := makeFirst_error_cases done
    · obtain ⟨-, again⟩ := perform_ensureDirectory_of_leadsTo here first
      exact perform_makeFirst_of_error full again fun missing => absurd missing known
    · obtain ⟨again, still, -⟩ := rest _ _ _ others later outside
      obtain ⟨_, fails⟩ := perform_ensureDirectory_of_nowhere (depends _ _ _ others) here
      exact perform_makeFirst_of_error full fails fun _ => ⟨again, still⟩
    · obtain ⟨again, still, -⟩ := rest _ _ _ others later outside
      obtain ⟨-, fails⟩ := perform_ensureDirectory_of_leadsTo here itself
      exact perform_makeFirst_of_error full fails fun _ => ⟨again, still⟩

private theorem settles_go (count : Nat) (ends : Ends (piecesOf path)) :
    Settles (Change.withAncestors.go count path) := by
  have alone : Settles [path] := settles_cons settles_nil fun _ _ _ failed => by cases failed
  induction count generalizing path with
  | zero => exact alone
  | succ count ih =>
    unfold Change.withAncestors.go
    cases found : Path.parent? path with
    | none => exact alone
    | some parent =>
      have outerEnds := Path.ends_parent? found
      have outer := ih outerEnds (settles_cons settles_nil fun _ _ _ failed => by cases failed)
      refine settles_cons outer ?_
      intro tree last fault failed followsLast spot there
      -- The parent would be a directory, so that it would not have to be made.
      have inside : parent = "" ∨ last.isDirectory parent = true := by
        by_cases full : parent = ""
        · exact Or.inl full
        · exact Or.inr (isDirectory_parent? found full ends there)
      obtain ⟨again, still, fails⟩ := outer _ _ _ failed last fun _ _ _ => rfl
      obtain ⟨others, first⟩ := exists_withAncestors_go count parent
      rw [first, perform_makeFirst_of_isDirectory inside] at still
      obtain rfl := congrArg Prod.fst still
      cases fails

/-- Where directories could not be made, they cannot be made later, and nothing is made in the attempt,
if their paths lead to the same as they did after the first one. -/
theorem perform_makeDirectories_again (ends : Ends (piecesOf path)) {fault : Fault}
    (failed : tree.perform (Change.makeDirectories path) = (.error fault, last))
    (same : ∀ other ∈ Change.withAncestors path, ∀ followsLast,
      later.leadsTo followsLast other = last.leadsTo followsLast other) :
    ∃ again, later.perform (Change.makeDirectories path) = (.error again, later) := by
  obtain ⟨result, again, fails⟩ := settles_go _ ends _ _ _ failed later same
  cases result with
  | ok value => cases fails
  | error other => exact ⟨other, again⟩

end Phrasebook.FileTree
