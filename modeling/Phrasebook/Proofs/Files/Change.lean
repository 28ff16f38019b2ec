import Phrasebook.Proofs.Files.Walk

/-!
What changes of a tree come to. Directories and links are kept, and what else is there is named.
-/

set_option autoImplicit false

namespace Phrasebook

namespace FileTree

def perform {ε α : Type} (tree : FileTree) (step : ExceptT ε (StateM FileTree) α) :
    Except ε α × FileTree := step.run.run tree

section Perform

variable {ε α β : Type} (tree : FileTree)

@[simp] theorem perform_pure (value : α) :
    tree.perform (pure value : ExceptT ε (StateM FileTree) α) = (.ok value, tree) := rfl

@[simp] theorem perform_throw (error : ε) :
    tree.perform (throw error : ExceptT ε (StateM FileTree) α) = (.error error, tree) := rfl

theorem perform_bind (step : ExceptT ε (StateM FileTree) α)
    (next : α → ExceptT ε (StateM FileTree) β) :
    tree.perform (step >>= next) =
      match tree.perform step with
      | (.ok value, later) => later.perform (next value)
      | (.error error, later) => (.error error, later) := by
  simp only [perform, ExceptT.run_bind, StateT.run_bind]
  cases step.run.run tree with
  | mk result later => cases result <;> rfl

theorem perform_tryCatch (step : ExceptT ε (StateM FileTree) α)
    (handle : ε → ExceptT ε (StateM FileTree) α) :
    tree.perform (tryCatch step handle) =
      match tree.perform step with
      | (.ok value, later) => (.ok value, later)
      | (.error error, later) => later.perform (handle error) := by
  unfold perform
  change (match (step.run.run tree).1 with
    | .ok value => pure (.ok value)
    | .error error => (handle error).run : StateM FileTree (Except ε α)).run (step.run.run tree).2 = _
  cases step.run.run tree with
  | mk result later => cases result <;> rfl

@[simp] theorem perform_get :
    tree.perform (get : ExceptT ε (StateM FileTree) FileTree) = (.ok tree, tree) := rfl

@[simp] theorem perform_modify (change : FileTree → FileTree) :
    tree.perform (modify change : ExceptT ε (StateM FileTree) Unit) = (.ok (), change tree) := rfl

end Perform

@[simp] theorem perform_ask {α : Type} (tree : FileTree) (question : FileTree → α) :
    tree.perform (Change.ask question) = (.ok (question tree), tree) := rfl

@[simp] theorem perform_askOrFail {α : Type} (tree : FileTree)
    (question : FileTree → Except Fault α) :
    tree.perform (Change.askOrFail question) = (question tree, tree) := by
  simp only [Change.askOrFail, perform_bind, perform_get]
  cases question tree <;> rfl

@[simp] theorem perform_put (tree : FileTree) (names : Names) (item : Item) :
    tree.perform (Change.put names item) = (.ok (), tree.put names item) := rfl

theorem perform_makeDirectory (tree : FileTree) (path : String) :
    tree.perform (Change.makeDirectory path) =
      match tree.locate false path with
      | .ok (.free names) => (.ok (), tree.put names .directory)
      | .ok (.item _ _) => (.error .alreadyExists, tree)
      | .error fault => (.error fault, tree) := by
  simp only [Change.makeDirectory, perform_bind, perform_askOrFail]
  cases tree.locate false path with
  | error fault => rfl
  | ok spot => cases spot <;> rfl

theorem perform_ensureDirectory (tree : FileTree) (path : String) :
    tree.perform (Change.ensureDirectory path) =
      match tree.perform (Change.makeDirectory path) with
      | (.ok _, later) => (.ok (), later)
      | (.error fault, later) => (if later.isDirectory path then .ok () else .error fault, later) := by
  rw [Change.ensureDirectory, perform_tryCatch]
  cases tree.perform (Change.makeDirectory path) with
  | mk result later =>
    cases result with
    | ok value => rfl
    | error fault =>
      simp only [perform_bind, perform_ask]
      cases later.isDirectory path <;> rfl

theorem perform_makeFirst_cons (tree : FileTree) (path : String) (outer : List String) :
    tree.perform (Change.makeFirst (path :: outer)) =
      if path.isEmpty then (.ok (), tree)
      else
        match tree.perform (Change.ensureDirectory path) with
        | (.ok _, later) => (.ok (), later)
        | (.error fault, later) =>
          if fault != .notFound then (.error fault, later)
          else
            match later.perform (Change.makeFirst outer) with
            | (.ok _, last) => last.perform (Change.ensureDirectory path)
            | (.error fault, last) => (.error fault, last) := by
  rw [Change.makeFirst]
  by_cases empty : path.isEmpty = true
  · rw [if_pos empty, if_pos empty]
    rfl
  · rw [if_neg empty, if_neg empty, perform_tryCatch]
    rcases tree.perform (Change.ensureDirectory path) with ⟨_ | _, later⟩
    · rename_i fault
      by_cases other : (fault != .notFound) = true
      · simp only [other, if_true]
        rfl
      · simp only [other, Bool.false_eq_true, if_false]
        rw [perform_bind]
        rcases later.perform (Change.makeFirst outer) with ⟨_ | _, last⟩ <;> rfl
    · rfl

theorem perform_write (tree : FileTree) (path : String) (content : Content) :
    tree.perform (Change.write path content) =
      match tree.locate true path with
      | .ok (.free names) | .ok (.item names (.file _)) => (.ok (), tree.put names (.file content))
      | .ok (.item _ _) => (.error .isDirectory, tree)
      | .error fault => (.error fault, tree) := by
  simp only [Change.write, perform_bind, perform_askOrFail]
  cases tree.locate true path with
  | error fault => rfl
  | ok spot =>
    cases spot with
    | free names => rfl
    | item names found => cases found <;> rfl

theorem perform_remove (tree : FileTree) (path : String) :
    tree.perform (Change.remove path) =
      match tree.locate false path with
      | .ok (.free _) => (.error .notFound, tree)
      | .ok (.item _ .directory) => (.error .isDirectory, tree)
      | .ok (.item names _) => (.ok (), tree.erase names)
      | .error fault => (.error fault, tree) := by
  simp only [Change.remove, perform_bind, perform_askOrFail]
  cases tree.locate false path with
  | error fault => rfl
  | ok spot =>
    cases spot with
    | free names => rfl
    | item names found => cases found <;> rfl

theorem perform_rename (tree : FileTree) (source : String) {target name : String}
    (last : (piecesOf target).getLast? = some name) (full : name ≠ "") (here : name ≠ ".")
    (up : name ≠ "..") :
    tree.perform (Change.rename source target) =
      match tree.locate false source with
      | .ok (.free _) => (.error .notFound, tree)
      | .ok (.item old found) =>
        match tree.locate false target with
        | .ok (.item _ .directory) => (.error .isDirectory, tree)
        | .ok (.item new _) | .ok (.free new) =>
          (.ok (), if old = new then tree else (tree.erase old).put new found)
        | .error fault => (.error fault, tree)
      | .error fault => (.error fault, tree) := by
  have moved : ∀ old new found, tree.perform (Change.rename.move old new found) =
      (.ok (), if old = new then tree else (tree.erase old).put new found) := by
    intro old new found
    by_cases same : old = new <;> simp [Change.rename.move, same]
  simp only [Change.rename, perform_bind, perform_askOrFail]
  cases tree.locate false source with
  | error fault => rfl
  | ok spot =>
    cases spot with
    | free names => rfl
    | item old found =>
      simp only [last]
      rw [if_neg (by simp [here, up]), if_neg (by simp [full])]
      simp only [perform_bind, perform_askOrFail]
      cases tree.locate false target with
      | error fault => rfl
      | ok spot =>
        cases spot with
        | free names => exact moved old names found
        | item names other => cases other <;> first | rfl | exact moved old names found

def TakesFile (tree : FileTree) (names : Names) : Prop :=
  tree.item? names = none ∨ ∃ content, tree.item? names = some (.file content)

theorem TakesFile.below {tree : FileTree} {names : Names} (takes : tree.TakesFile names) :
    names ≠ [] := by
  rintro rfl
  rcases takes with h | ⟨content, h⟩ <;> cases h

private theorem keeps_of_elsewhere {tree later : FileTree} {names : Names}
    (takes : tree.TakesFile names) (place : later.place = tree.place)
    (elsewhere : ∀ other, other ≠ names → later.item? other = tree.item? other) :
    tree.Keeps later := by
  have away : ∀ other item, tree.item? other = some item → (∀ content, item ≠ .file content) →
      other ≠ names := by
    rintro other item h solid rfl
    rcases takes with free | ⟨content, file⟩
    · rw [free] at h
      cases h
    · rw [file] at h
      exact solid content (Option.some.inj h).symm
  refine ⟨place, ?_, ?_⟩
  · intro other h
    rw [elsewhere other (away other _ h (by simp)), h]
  · intro other target h
    rw [elsewhere other (away other _ h (by simp)), h]

theorem keeps_put {tree : FileTree} {names : Names} (takes : tree.TakesFile names)
    (item : Item) : tree.Keeps (tree.put names item) := by
  refine keeps_of_elsewhere takes rfl fun other different => ?_
  rw [item?_put takes.below, if_neg different]

theorem keeps_erase {tree : FileTree} {names : Names} (takes : tree.TakesFile names) :
    tree.Keeps (tree.erase names) := by
  refine keeps_of_elsewhere takes rfl fun other different => ?_
  rw [item?_erase takes.below, if_neg different]

/-- A later tree that has new directories, and all else as it is here. -/
structure Grows (tree later : FileTree) : Prop where
  place : later.place = tree.place
  items : ∀ names, later.item? names = tree.item? names ∨
    tree.item? names = none ∧ later.item? names = some .directory

theorem Grows.refl (tree : FileTree) : tree.Grows tree := ⟨rfl, fun _ => Or.inl rfl⟩

theorem Grows.trans {tree next later : FileTree} (first : tree.Grows next)
    (second : next.Grows later) : tree.Grows later := by
  refine ⟨second.place.trans first.place, fun names => ?_⟩
  rcases second.items names with same | ⟨free, made⟩
  · rw [same]
    exact first.items names
  · rcases first.items names with same | ⟨_, there⟩
    · exact Or.inr ⟨same ▸ free, made⟩
    · rw [there] at free
      cases free

theorem Grows.keeps {tree later : FileTree} (grows : tree.Grows later) : tree.Keeps later := by
  refine ⟨grows.place, ?_, ?_⟩
  · intro names h
    rcases grows.items names with same | ⟨free, _⟩
    · rw [same, h]
    · rw [h] at free
      cases free
  · intro names target h
    rcases grows.items names with same | ⟨free, _⟩
    · rw [same, h]
    · rw [h] at free
      cases free

theorem item?_of_locate_free {tree : FileTree} {followsLast : Bool} {path : String} {names : Names}
    (h : tree.locate followsLast path = .ok (.free names)) : tree.item? names = none :=
  stands_of_locate h

theorem ne_nil_of_item?_eq_none {tree : FileTree} {names : Names} (h : tree.item? names = none) :
    names ≠ [] := by
  rintro rfl
  cases h

private theorem grows_makeDirectory (tree : FileTree) (path : String) :
    tree.Grows (tree.perform (Change.makeDirectory path)).2 := by
  rw [perform_makeDirectory]
  cases located : tree.locate false path with
  | error fault => exact Grows.refl tree
  | ok spot =>
    cases spot with
    | item names found => exact Grows.refl tree
    | free names =>
      have free := item?_of_locate_free located
      refine ⟨rfl, fun other => ?_⟩
      change (tree.put names .directory).item? other = _ ∨ _ ∧
        (tree.put names .directory).item? other = _
      rw [item?_put (ne_nil_of_item?_eq_none free)]
      by_cases here : other = names
      · exact Or.inr ⟨here ▸ free, if_pos here⟩
      · exact Or.inl (if_neg here)

private theorem grows_ensureDirectory (tree : FileTree) (path : String) :
    tree.Grows (tree.perform (Change.ensureDirectory path)).2 := by
  have grows := grows_makeDirectory tree path
  rw [perform_ensureDirectory]
  rcases made : tree.perform (Change.makeDirectory path) with ⟨_ | _, later⟩
  · rwa [made] at grows
  · rwa [made] at grows

private theorem grows_makeFirst (tree : FileTree) (paths : List String) :
    tree.Grows (tree.perform (Change.makeFirst paths)).2 := by
  induction paths generalizing tree with
  | nil => exact Grows.refl tree
  | cons path outer ih =>
    have first := grows_ensureDirectory tree path
    rw [perform_makeFirst_cons]
    split
    · exact Grows.refl tree
    · rcases made : tree.perform (Change.ensureDirectory path) with ⟨fault | _, later⟩
      · rw [made] at first
        simp only
        split
        · exact first
        · have below := ih later
          rcases others : later.perform (Change.makeFirst outer) with ⟨_ | _, last⟩
          · rw [others] at below
            exact first.trans below
          · rw [others] at below
            exact first.trans (below.trans (grows_ensureDirectory last path))
      · rwa [made] at first

/-- Making directories adds directories and changes nothing else, even when it fails. -/
theorem grows_makeDirectories (tree : FileTree) (path : String) :
    tree.Grows (tree.perform (Change.makeDirectories path)).2 :=
  grows_makeFirst tree _

end FileTree

end Phrasebook
