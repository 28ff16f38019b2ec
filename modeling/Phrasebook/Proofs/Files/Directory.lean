import Phrasebook.Proofs.Files.Change

/-!
Directories that are there: they stay as long as a tree grows, they are not made again, and a way that
leads over nothing else can be computed.
-/

set_option autoImplicit false

namespace Phrasebook.FileTree

variable {tree : FileTree} {path : String}

theorem resolve_eq_ok {names : Names} {item : Item} :
    tree.resolve path = .ok (names, item) ↔ tree.locate true path = .ok (.item names item) := by
  unfold resolve
  rcases tree.locate true path with fault | (⟨other, found⟩ | other)
  · simp [bind, Except.bind]
  · simp [bind, Except.bind, pure, Except.pure]
  · simp [bind, Except.bind, throw, throwThe, MonadExceptOf.throw]

theorem readText_eq_ok {text : String} :
    tree.readText path = .ok text ↔ ∃ names, tree.resolve path = .ok (names, .file (.text text)) := by
  unfold readText
  rcases tree.resolve path with fault | ⟨names, (spelled | bytes) | _ | target⟩
  all_goals simp [bind, Except.bind, pure, Except.pure, throw, throwThe, MonadExceptOf.throw]

theorem isDirectory_iff_resolve :
    tree.isDirectory path = true ↔ ∃ names, tree.resolve path = .ok (names, .directory) := by
  unfold isDirectory
  rcases tree.resolve path with fault | ⟨names, content | _ | target⟩ <;> simp

theorem isDirectory_iff :
    tree.isDirectory path = true ↔ ∃ names, tree.locate true path = .ok (.item names .directory) := by
  simp only [isDirectory_iff_resolve, resolve_eq_ok]

theorem locate_directory_of_keeps {later : FileTree} (keeps : tree.Keeps later) {followsLast : Bool}
    {names : Names} (h : tree.locate followsLast path = .ok (.item names .directory)) :
    later.locate followsLast path = .ok (.item names .directory) := by
  rw [locate_eq] at h ⊢
  cases fault : pathFault? path with
  | some fault => simp [fault] at h
  | none =>
    simp only [fault] at h ⊢
    have start : later.startOf path = tree.startOf path := by rw [startOf, startOf, keeps.place]
    rw [start]
    exact walk_of_keeps keeps h

theorem isDirectory_of_keeps {later : FileTree} (keeps : tree.Keeps later)
    (h : tree.isDirectory path = true) : later.isDirectory path = true := by
  rw [isDirectory_iff] at h ⊢
  obtain ⟨names, there⟩ := h
  exact ⟨names, locate_directory_of_keeps keeps there⟩

theorem walk_of_free {later : FileTree} (keeps : tree.Keeps later) {followsLast : Bool} {links : Nat}
    {directory names : Names} {pieces : List String} {found : Item}
    (taken : later.item? names = some found) (solid : ∀ target, found ≠ .link target)
    (h : tree.walk followsLast links directory pieces = .ok (.free names)) :
    later.walk true links directory pieces = .ok (.item names found) := by
  fun_induction tree.walk followsLast links directory pieces with
  | case1 => cases h
  | case2 links directory piece rest void ih =>
    rw [walk_void _ _ _ _ (by simpa using void)]
    exact ih h
  | case3 links directory piece rest named up ih =>
    obtain rfl : piece = ".." := by simpa using up
    rw [walk_up]
    exact ih h
  | case4 => cases h
  | case5 links directory piece rest named notUp short below absent alone =>
    obtain rfl := List.isEmpty_iff.mp alone
    obtain rfl := Spot.free.inj (Except.ok.inj h)
    have name := isName_of_not named notUp short
    cases found with
    | file content => exact walk_file name taken
    | directory => rw [walk_directory name [] taken, walk_nil]
    | link target => exact absurd rfl (solid target)
  | case6 => cases h
  | case7 links directory piece rest named notUp short below there ih =>
    rw [walk_directory (isName_of_not named notUp short) rest (keeps.directories _ there)]
    exact ih h
  | case8 => cases h
  | case9 => cases h
  | case10 => cases h
  | case11 => cases h
  | case12 directory piece rest named notUp short below target there followed links start ih =>
    rw [walk_link (isName_of_not named notUp short) (Or.inr rfl) (keeps.links _ _ there)]
    exact ih h

theorem locate_of_free {later : FileTree} (keeps : tree.Keeps later) {followsLast : Bool}
    {names : Names} {found : Item} (taken : later.item? names = some found)
    (solid : ∀ target, found ≠ .link target)
    (h : tree.locate followsLast path = .ok (.free names)) :
    later.locate true path = .ok (.item names found) := by
  rw [locate_eq] at h ⊢
  cases fault : pathFault? path with
  | some fault => simp [fault] at h
  | none =>
    simp only [fault] at h ⊢
    have start : later.startOf path = tree.startOf path := by rw [startOf, startOf, keeps.place]
    rw [start]
    exact walk_of_free keeps taken solid h

private theorem walk_file_of_keeps {later : FileTree} (keeps : tree.Keeps later) {links : Nat}
    {directory names : Names} {pieces : List String} {content : Content}
    (same : later.item? names = tree.item? names)
    (h : tree.walk true links directory pieces = .ok (.item names (.file content))) :
    later.walk true links directory pieces = .ok (.item names (.file content)) := by
  fun_induction tree.walk true links directory pieces with
  | case1 => cases h
  | case2 links directory piece rest void ih =>
    rw [walk_void _ _ _ _ (by simpa using void)]
    exact ih h
  | case3 links directory piece rest named up ih =>
    obtain rfl : piece = ".." := by simpa using up
    rw [walk_up]
    exact ih h
  | case4 => cases h
  | case5 => cases h
  | case6 => cases h
  | case7 links directory piece rest named notUp short below there ih =>
    rw [walk_directory (isName_of_not named notUp short) rest (keeps.directories _ there)]
    exact ih h
  | case8 links directory piece rest named notUp short below held there alone =>
    obtain rfl := List.isEmpty_iff.mp alone
    obtain ⟨rfl, file⟩ := Spot.item.inj (Except.ok.inj h)
    rw [walk_file (isName_of_not named notUp short) (same.trans there), ← file]
  | case9 => cases h
  | case10 links directory piece rest named notUp short below target there last =>
    simp at last
  | case11 => cases h
  | case12 directory piece rest named notUp short below target there followed links start ih =>
    rw [walk_link (isName_of_not named notUp short) (Or.inr rfl) (keeps.links _ _ there)]
    exact ih h

theorem locate_file_of_keeps {later : FileTree} (keeps : tree.Keeps later) {names : Names}
    {content : Content} (same : later.item? names = tree.item? names)
    (h : tree.locate true path = .ok (.item names (.file content))) :
    later.locate true path = .ok (.item names (.file content)) := by
  rw [locate_eq] at h ⊢
  cases fault : pathFault? path with
  | some fault => simp [fault] at h
  | none =>
    simp only [fault] at h ⊢
    have start : later.startOf path = tree.startOf path := by rw [startOf, startOf, keeps.place]
    rw [start]
    exact walk_file_of_keeps keeps same h

private theorem walk_false_of_directory {links : Nat} {directory : Names} {pieces : List String}
    {names : Names} (h : tree.walk true links directory pieces = .ok (.item names .directory)) :
    tree.walk false links directory pieces = .ok (.item names .directory) ∨
      ∃ other target, tree.walk false links directory pieces = .ok (.item other (.link target)) ∧
        tree.item? other = some (.link target) := by
  fun_induction tree.walk true links directory pieces with
  | case1 links directory =>
    rw [walk_nil]
    exact Or.inl h
  | case2 links directory piece rest void ih =>
    rw [walk_void _ _ _ _ (by simpa using void)]
    exact ih h
  | case3 links directory piece rest solid up ih =>
    obtain rfl : piece = ".." := by simpa using up
    rw [walk_up]
    exact ih h
  | case4 => cases h
  | case5 => simp at h
  | case6 => cases h
  | case7 links directory piece rest solid notUp short below found ih =>
    rw [walk_directory (isName_of_not solid notUp short) rest found]
    exact ih h
  | case8 => simp at h
  | case9 => cases h
  | case10 => simp at h
  | case11 => cases h
  | case12 directory piece rest solid notUp short below target found followed links start ih =>
    have name := isName_of_not solid notUp short
    by_cases alone : rest = []
    · subst alone
      exact Or.inr ⟨_, target, walk_last_link name found, found⟩
    · rw [walk_link name (Or.inl alone) found]
      exact ih h

theorem locate_false_of_directory {names : Names}
    (h : tree.locate true path = .ok (.item names .directory)) :
    tree.locate false path = .ok (.item names .directory) ∨
      ∃ other target, tree.locate false path = .ok (.item other (.link target)) ∧
        tree.item? other = some (.link target) := by
  rw [locate_eq] at h ⊢
  cases fault : pathFault? path with
  | some fault => simp [fault] at h
  | none =>
    rw [fault] at h
    exact walk_false_of_directory h

theorem perform_ensureDirectory_of_isDirectory (h : tree.isDirectory path = true) :
    tree.perform (Change.ensureDirectory path) = (.ok (), tree) := by
  obtain ⟨names, there⟩ := isDirectory_iff.mp h
  rw [perform_ensureDirectory, perform_makeDirectory]
  rcases locate_false_of_directory there with located | ⟨other, target, located, -⟩
  · simp [located, h]
  · simp [located, h]

theorem perform_ensureDirectory_of_error {fault : Fault}
    (nowhere : ∀ followsLast, tree.locate followsLast path = .error fault) :
    tree.perform (Change.ensureDirectory path) = (.error fault, tree) := by
  have absent : tree.isDirectory path = false := by
    rw [isDirectory, resolve, nowhere]
    rfl
  rw [perform_ensureDirectory, perform_makeDirectory, nowhere]
  simp only [absent, Bool.false_eq_true, if_false]

theorem perform_ensureDirectory_of_free {names : Names}
    (free : tree.locate false path = .ok (.free names)) :
    tree.perform (Change.ensureDirectory path) = (.ok (), tree.put names .directory) := by
  rw [perform_ensureDirectory, perform_makeDirectory, free]

theorem withAncestors_go_cases (count : Nat) (path : String) :
    Change.withAncestors.go count path = [path] ∨
      ∃ parent fewer, Path.parent? path = some parent ∧
        Change.withAncestors.go count path = path :: Change.withAncestors.go fewer parent := by
  cases count with
  | zero => exact Or.inl rfl
  | succ count =>
    rw [Change.withAncestors.go]
    cases Path.parent? path with
    | none => exact Or.inl rfl
    | some parent => exact Or.inr ⟨parent, count, rfl, rfl⟩

theorem exists_withAncestors_go (count : Nat) (path : String) :
    ∃ outer, Change.withAncestors.go count path = path :: outer := by
  rcases withAncestors_go_cases count path with alone | ⟨parent, fewer, -, below⟩
  · exact ⟨[], alone⟩
  · exact ⟨_, below⟩

theorem exists_withAncestors (path : String) :
    ∃ outer, Change.withAncestors path = path :: outer :=
  exists_withAncestors_go _ path

theorem self_mem_withAncestors (path : String) : path ∈ Change.withAncestors path := by
  obtain ⟨outer, first⟩ := exists_withAncestors path
  simp [first]

theorem perform_makeFirst_of_isDirectory (there : path = "" ∨ tree.isDirectory path = true)
    (outer : List String) : tree.perform (Change.makeFirst (path :: outer)) = (.ok (), tree) := by
  rw [perform_makeFirst_cons]
  rcases there with rfl | there
  · rfl
  · rw [perform_ensureDirectory_of_isDirectory there]
    split <;> rfl

theorem perform_makeFirst_outer
    (above : ∀ parent, Path.parent? path = some parent → parent = "" ∨ tree.isDirectory parent = true)
    {count : Nat} {outer : List String} (first : Change.withAncestors.go count path = path :: outer) :
    tree.perform (Change.makeFirst outer) = (.ok (), tree) := by
  rcases withAncestors_go_cases count path with alone | ⟨parent, fewer, found, below⟩
  · obtain rfl : [] = outer := (List.cons.inj (alone.symm.trans first)).2
    rfl
  · obtain rfl := (List.cons.inj (below.symm.trans first)).2
    obtain ⟨others, go⟩ := exists_withAncestors_go fewer parent
    rw [go]
    exact perform_makeFirst_of_isDirectory (above parent found) others

theorem perform_makeDirectories_of_isDirectory (h : tree.isDirectory path = true) :
    tree.perform (Change.makeDirectories path) = (.ok (), tree) := by
  obtain ⟨outer, first⟩ := exists_withAncestors path
  rw [Change.makeDirectories, first, perform_makeFirst_of_isDirectory (Or.inr h)]

theorem perform_makeFirst_of_fault {fault : Fault} (h : pathFault? path = some fault)
    (known : fault ≠ .notFound) (full : path ≠ "") (outer : List String) :
    tree.perform (Change.makeFirst (path :: outer)) = (.error fault, tree) := by
  have nowhere : ∀ followsLast, tree.locate followsLast path = .error fault := by
    intro followsLast
    rw [locate_eq, h]
  rw [perform_makeFirst_cons, perform_ensureDirectory_of_error nowhere]
  simp [full, known]

theorem perform_makeDirectories_of_fault {fault : Fault} (h : pathFault? path = some fault)
    (known : fault ≠ .notFound) (full : path ≠ "") :
    tree.perform (Change.makeDirectories path) = (.error fault, tree) := by
  obtain ⟨outer, first⟩ := exists_withAncestors path
  rw [Change.makeDirectories, first, perform_makeFirst_of_fault h known full]

def descend (tree : FileTree) : Names → List String → Option Names
  | names, [] => some names
  | names, piece :: rest =>
    if piece == "" || piece == "." then descend tree names rest
    else if piece == ".." then descend tree names.dropLast rest
    else if piece.utf8ByteSize > nameLimit then none
    else if tree.item? (names ++ [piece]) = some .directory then
      descend tree (names ++ [piece]) rest
    else none

theorem walk_append_of_descend {start names : Names} {pieces : List String}
    (h : tree.descend start pieces = some names) (followsLast : Bool) (links : Nat)
    (more : List String) :
    tree.walk followsLast links start (pieces ++ more) = tree.walk followsLast links names more := by
  fun_induction descend tree start pieces with
  | case1 start => rw [List.nil_append, Option.some.inj h]
  | case2 start piece rest void ih =>
    rw [List.cons_append, walk_void _ _ _ _ (by simpa using void)]
    exact ih h
  | case3 start piece rest solid up ih =>
    obtain rfl : piece = ".." := by simpa using up
    rw [List.cons_append, walk_up]
    exact ih h
  | case4 => cases h
  | case5 start piece rest solid notUp short found ih =>
    rw [List.cons_append, walk_directory (isName_of_not solid notUp short) (rest ++ more) found]
    exact ih h
  | case6 => cases h

theorem walk_of_descend {start names : Names} {pieces : List String}
    (h : tree.descend start pieces = some names) (followsLast : Bool) (links : Nat) :
    tree.walk followsLast links start pieces = .ok (.item names .directory) := by
  rw [← List.append_nil pieces, walk_append_of_descend h, walk_nil]

theorem descend_append (tree : FileTree) (start : Names) (pieces more : List String) :
    tree.descend start (pieces ++ more) =
      (tree.descend start pieces).bind fun names => tree.descend names more := by
  fun_induction descend tree start pieces with
  | case1 start => rfl
  | case2 start piece rest void ih => rw [List.cons_append, descend, if_pos void, ih]
  | case3 start piece rest solid up ih =>
    rw [List.cons_append, descend, if_neg solid, if_pos up, ih]
  | case4 start piece rest solid notUp long =>
    rw [List.cons_append, descend, if_neg solid, if_neg notUp, if_pos long]
    rfl
  | case5 start piece rest solid notUp short found ih =>
    rw [List.cons_append, descend, if_neg solid, if_neg notUp, if_neg short, if_pos found, ih]
  | case6 start piece rest solid notUp short absent =>
    rw [List.cons_append, descend, if_neg solid, if_neg notUp, if_neg short, if_neg absent]
    rfl

theorem wayIn_of_descend {names : Names} (sound : pathFault? path = none)
    (h : tree.descend (tree.startOf path) (piecesOf path).dropLast = some names) :
    tree.wayIn path = .ok names := by
  rw [wayIn, sound]
  simp only
  rw [walk_of_descend h]
  rfl

theorem isDirectory_of_descend {names : Names} (sound : pathFault? path = none)
    (h : tree.descend (tree.startOf path) (piecesOf path) = some names) :
    tree.isDirectory path = true := by
  rw [isDirectory_iff, locate_eq, sound]
  exact ⟨names, walk_of_descend h true linkLimit⟩

theorem resolve_of_descend {names : Names} (sound : pathFault? path = none)
    (h : tree.descend (tree.startOf path) (piecesOf path) = some names) :
    tree.resolve path = .ok (names, .directory) := by
  rw [resolve, locate_eq, sound]
  simp only
  rw [walk_of_descend h]
  rfl

theorem unlinked_of_forall {name : String} (h : ∀ entry ∈ tree.items, ∀ target,
    entry.2 = .link target → entry.1.getLast? ≠ some name) : tree.Unlinked name := by
  intro names target there
  unfold item? at there
  split at there
  · simp at there
  · obtain ⟨entry, found, linked⟩ := Option.map_eq_some_iff.mp there
    have same : entry.1 = names := by simpa using List.find?_some found
    rw [← same]
    exact h entry (List.mem_of_find?_eq_some found) target linked

theorem unlinked_of_items (h : ∀ entry ∈ tree.items, ∀ target, entry.2 ≠ .link target)
    (name : String) : tree.Unlinked name :=
  unlinked_of_forall fun entry member target linked => absurd linked (h entry member target)

end Phrasebook.FileTree
