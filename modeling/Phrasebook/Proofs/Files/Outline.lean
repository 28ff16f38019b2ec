import Phrasebook.Proofs.Files.Directory

/-!
Outlines of trees: all that is there but the texts. They decide where paths lead, and so whether a
change succeeds.
-/

set_option autoImplicit false

namespace Phrasebook

def Item.outline : Item → Item
  | .file (.text _) => .file (.text "")
  | item => item

namespace FileTree

def Spot.outline : Spot → Spot
  | .item names found => .item names found.outline
  | .free names => .free names

def Spot.names : Spot → Names
  | .item names _ => names
  | .free names => names

def leadsTo (tree : FileTree) (followsLast : Bool) (path : String) : Except Fault Spot :=
  (tree.locate followsLast path).map Spot.outline

/-- Trees that differ in texts only. -/
structure SameOutline (a b : FileTree) : Prop where
  place : a.place = b.place
  items : ∀ names, (a.item? names).map Item.outline = (b.item? names).map Item.outline

theorem SameOutline.refl (tree : FileTree) : SameOutline tree tree := ⟨rfl, fun _ => rfl⟩

end FileTree

namespace Item

@[simp] theorem outline_eq_directory {item : Item} : item.outline = .directory ↔ item = .directory := by
  rcases item with (_ | _) | _ | _ <;> simp [outline]

@[simp] theorem outline_eq_link {item : Item} {target : String} :
    item.outline = .link target ↔ item = .link target := by
  rcases item with (_ | _) | _ | _ <;> simp [outline]

@[simp] theorem outline_eq_raw {item : Item} {bytes : List UInt8} :
    item.outline = .file (.raw bytes) ↔ item = .file (.raw bytes) := by
  rcases item with (_ | _) | _ | _ <;> simp [outline]

theorem outline_eq_text {item : Item} {text : String} (same : item.outline = .file (.text text)) :
    ∃ other, item = .file (.text other) := by
  rcases item with (other | _) | _ | _
  · exact ⟨other, rfl⟩
  · cases same
  · cases same
  · cases same

theorem exists_file_of_outline {a b : Item} (same : a.outline = b.outline) {content : Content}
    (file : a = .file content) : ∃ other, b = .file other := by
  subst file
  rcases content with text | bytes
  · obtain ⟨other, there⟩ := outline_eq_text same.symm
    exact ⟨.text other, there⟩
  · exact ⟨.raw bytes, outline_eq_raw.mp same.symm⟩

end Item

namespace FileTree

namespace SameOutline

variable {a b : FileTree} (same : SameOutline a b) {names : Names}

include same

theorem item?_none (found : a.item? names = none) : b.item? names = none := by
  have there := same.items names
  rw [found] at there
  exact Option.map_eq_none_iff.mp there.symm

theorem exists_item {item : Item} (found : a.item? names = some item) :
    ∃ other, b.item? names = some other ∧ item.outline = other.outline := by
  have there := same.items names
  rw [found] at there
  obtain ⟨other, here, outline⟩ := Option.map_eq_some_iff.mp there.symm
  exact ⟨other, here, outline.symm⟩

theorem item?_directory (found : a.item? names = some .directory) :
    b.item? names = some .directory := by
  obtain ⟨other, there, outline⟩ := same.exists_item found
  rw [there, Item.outline_eq_directory.mp outline.symm]

theorem item?_link {target : String} (found : a.item? names = some (.link target)) :
    b.item? names = some (.link target) := by
  obtain ⟨other, there, outline⟩ := same.exists_item found
  rw [there, Item.outline_eq_link.mp outline.symm]

theorem walk (followsLast : Bool) (links : Nat) (directory : Names) (pieces : List String) :
    (a.walk followsLast links directory pieces).map Spot.outline =
      (b.walk followsLast links directory pieces).map Spot.outline := by
  fun_induction a.walk followsLast links directory pieces with
  | case1 links directory => rw [walk_nil]
  | case2 links directory piece rest void ih =>
    rw [walk_void _ _ _ _ (by simpa using void)]
    exact ih
  | case3 links directory piece rest solid up ih =>
    obtain rfl : piece = ".." := by simpa using up
    rw [walk_up]
    exact ih
  | case4 links directory piece rest solid up long =>
    simp only [Bool.or_eq_true, beq_iff_eq, not_or] at solid
    rw [walk_long _ _ _ _ solid.1 solid.2 (by simpa using up) long]
  | case5 links directory piece rest solid notUp short names found alone =>
    obtain rfl := List.isEmpty_iff.mp alone
    rw [walk_free (isName_of_not solid notUp short) (same.item?_none found)]
  | case6 links directory piece rest solid notUp short names found more =>
    rw [walk_missing (isName_of_not solid notUp short) (by simpa using more) (same.item?_none found)]
  | case7 links directory piece rest solid notUp short names found ih =>
    rw [walk_directory (isName_of_not solid notUp short) rest (same.item?_directory found)]
    exact ih
  | case8 links directory piece rest solid notUp short names content found alone =>
    obtain rfl := List.isEmpty_iff.mp alone
    obtain ⟨item, there, outline⟩ := same.exists_item found
    obtain ⟨other, rfl⟩ := Item.exists_file_of_outline outline rfl
    rw [walk_file (isName_of_not solid notUp short) there]
    simp only [Except.map, Spot.outline, outline]
    rfl
  | case9 links directory piece rest solid notUp short names content found more =>
    obtain ⟨item, there, outline⟩ := same.exists_item found
    obtain ⟨other, rfl⟩ := Item.exists_file_of_outline outline rfl
    rw [walk_through_file (isName_of_not solid notUp short) (by simpa using more) there]
  | case10 links directory piece rest solid notUp short names target found last =>
    obtain ⟨alone, stays⟩ := Bool.and_eq_true_iff.mp last
    obtain rfl := List.isEmpty_iff.mp alone
    obtain rfl : followsLast = false := by simpa using stays
    rw [walk_last_link (isName_of_not solid notUp short) (same.item?_link found)]
  | case11 directory piece rest solid notUp short names target found followed =>
    rw [walk_many_links (isName_of_not solid notUp short) (goesOn_of_not followed)
      (same.item?_link found)]
  | case12 directory piece rest solid notUp short names target found followed links start ih =>
    rw [walk_link (isName_of_not solid notUp short) (goesOn_of_not followed)
      (same.item?_link found)]
    exact ih

theorem leadsTo (followsLast : Bool) (path : String) :
    a.leadsTo followsLast path = b.leadsTo followsLast path := by
  have start : a.startOf path = b.startOf path := by rw [startOf, startOf, same.place]
  rw [FileTree.leadsTo, FileTree.leadsTo, locate_eq, locate_eq, start]
  cases pathFault? path with
  | some fault => rfl
  | none => exact same.walk followsLast linkLimit _ _

end SameOutline

section LeadsTo

variable {tree later : FileTree} {followsLast : Bool} {path : String}

theorem leadsTo_eq_error {fault : Fault} :
    tree.leadsTo followsLast path = .error fault ↔ tree.locate followsLast path = .error fault := by
  unfold leadsTo
  cases tree.locate followsLast path <;> simp [Except.map]

theorem leadsTo_eq_free {names : Names} :
    tree.leadsTo followsLast path = .ok (.free names) ↔
      tree.locate followsLast path = .ok (.free names) := by
  unfold leadsTo
  rcases tree.locate followsLast path with _ | (_ | _) <;> simp [Except.map, Spot.outline]

theorem leadsTo_eq_item {names : Names} {item : Item} :
    tree.leadsTo followsLast path = .ok (.item names item) ↔
      ∃ found, tree.locate followsLast path = .ok (.item names found) ∧ found.outline = item := by
  unfold leadsTo
  rcases tree.locate followsLast path with _ | (_ | _) <;>
    simp [Except.map, Spot.outline, and_assoc]

theorem isFile_iff_locate :
    tree.isFile path = true ↔
      ∃ names content, tree.locate true path = .ok (.item names (.file content)) := by
  unfold isFile resolve
  rcases tree.locate true path with fault | (⟨names, content | _ | target⟩ | names)
  · exact iff_of_false Bool.false_ne_true (by simp)
  · exact iff_of_true rfl ⟨names, content, rfl⟩
  · exact iff_of_false Bool.false_ne_true (by simp)
  · exact iff_of_false Bool.false_ne_true (by simp)
  · exact iff_of_false Bool.false_ne_true (by simp)

theorem readText_of_locate_text {names : Names} {text : String}
    (located : tree.locate true path = .ok (.item names (.file (.text text)))) :
    tree.readText path = .ok text := by
  rw [readText, resolve, located]
  rfl

theorem readText_of_locate_raw {names : Names} {bytes : List UInt8}
    (located : tree.locate true path = .ok (.item names (.file (.raw bytes)))) :
    tree.readText path = .error .notText := by
  rw [readText, resolve, located]
  rfl

theorem isDirectory_iff_leadsTo :
    tree.isDirectory path = true ↔ ∃ names, tree.leadsTo true path = .ok (.item names .directory) := by
  simp [isDirectory_iff, leadsTo_eq_item]

theorem isDirectory_of_leadsTo (same : later.leadsTo true path = tree.leadsTo true path) :
    later.isDirectory path = tree.isDirectory path := by
  rw [Bool.eq_iff_iff, isDirectory_iff_leadsTo, isDirectory_iff_leadsTo, same]

theorem item?_of_locate {names : Names} {item : Item}
    (h : tree.locate followsLast path = .ok (.item names item)) (solid : item ≠ .directory) :
    tree.item? names = some item := by
  obtain ⟨there, -⟩ := (stands_of_locate h).resolve_left solid
  exact there

theorem perform_ensureDirectory_of_leadsTo (same : ∀ followsLast,
      later.leadsTo followsLast path = tree.leadsTo followsLast path) {fault : Fault} {made : FileTree}
    (failed : tree.perform (Change.ensureDirectory path) = (.error fault, made)) :
    made = tree ∧ later.perform (Change.ensureDirectory path) = (.error fault, later) := by
  rw [perform_ensureDirectory, perform_makeDirectory] at failed ⊢
  cases located : tree.locate false path with
  | error other =>
    have there := leadsTo_eq_error.mp ((same false).trans (leadsTo_eq_error.mpr located))
    rw [there]
    rw [located] at failed
    simp only [isDirectory_of_leadsTo (same true)] at failed ⊢
    split at failed
    · cases failed
    · rename_i absent
      obtain ⟨faults, kept⟩ := Prod.mk.inj failed
      exact ⟨kept.symm, by rw [if_neg absent, faults]⟩
  | ok spot =>
    rw [located] at failed
    cases spot with
    | free names => cases failed
    | item names found =>
      obtain ⟨other, there, -⟩ := leadsTo_eq_item.mp
        ((same false).trans (leadsTo_eq_item.mpr ⟨found, located, rfl⟩))
      rw [there]
      simp only [isDirectory_of_leadsTo (same true)] at failed ⊢
      split at failed
      · cases failed
      · rename_i absent
        obtain ⟨faults, kept⟩ := Prod.mk.inj failed
        exact ⟨kept.symm, by rw [if_neg absent, faults]⟩

theorem perform_write_of_leadsTo (same : later.leadsTo true path = tree.leadsTo true path)
    {content : Content} {fault : Fault} {made : FileTree}
    (failed : tree.perform (Change.write path content) = (.error fault, made)) :
    made = tree ∧ ∀ other, later.perform (Change.write path other) = (.error fault, later) := by
  rw [perform_write] at failed
  cases located : tree.locate true path with
  | error other =>
    have there := leadsTo_eq_error.mp (same.trans (leadsTo_eq_error.mpr located))
    rw [located] at failed
    obtain ⟨faults, rfl⟩ := Prod.mk.inj failed
    obtain rfl := Except.error.inj faults
    refine ⟨rfl, fun content => ?_⟩
    rw [perform_write, there]
  | ok spot =>
    rw [located] at failed
    cases spot with
    | free names => cases failed
    | item names found =>
      obtain ⟨other, there, outline⟩ := leadsTo_eq_item.mp
        (same.trans (leadsTo_eq_item.mpr ⟨found, located, rfl⟩))
      cases found with
      | file old => cases failed
      | directory =>
        obtain ⟨faults, rfl⟩ := Prod.mk.inj failed
        obtain rfl := Except.error.inj faults
        refine ⟨rfl, fun content => ?_⟩
        rw [perform_write, there, Item.outline_eq_directory.mp outline]
      | link target =>
        obtain ⟨faults, rfl⟩ := Prod.mk.inj failed
        obtain rfl := Except.error.inj faults
        refine ⟨rfl, fun content => ?_⟩
        rw [perform_write, there, Item.outline_eq_link.mp outline]

end LeadsTo

section Later

variable {tree later : FileTree} (keeps : tree.Keeps later)

include keeps

private theorem walk_of_outline {followsLast : Bool} {links : Nat} {directory : Names}
    {pieces : List String} {spot : Spot}
    (h : tree.walk followsLast links directory pieces = .ok spot)
    (same : (later.item? spot.names).map Item.outline = (tree.item? spot.names).map Item.outline) :
    (later.walk followsLast links directory pieces).map Spot.outline = .ok spot.outline := by
  fun_induction tree.walk followsLast links directory pieces with
  | case1 links directory =>
    obtain rfl := Except.ok.inj h
    rw [walk_nil]
    rfl
  | case2 links directory piece rest void ih =>
    rw [walk_void _ _ _ _ (by simpa using void)]
    exact ih h
  | case3 links directory piece rest solid up ih =>
    obtain rfl : piece = ".." := by simpa using up
    rw [walk_up]
    exact ih h
  | case4 => cases h
  | case5 links directory piece rest solid notUp short names found alone =>
    obtain rfl := List.isEmpty_iff.mp alone
    obtain rfl := Except.ok.inj h
    have free : later.item? names = none := by
      simpa [Spot.names, found] using same
    rw [walk_free (isName_of_not solid notUp short) free]
    rfl
  | case6 => cases h
  | case7 links directory piece rest solid notUp short names found ih =>
    rw [walk_directory (isName_of_not solid notUp short) rest (keeps.directories _ found)]
    exact ih h
  | case8 links directory piece rest solid notUp short names content found alone =>
    obtain rfl := List.isEmpty_iff.mp alone
    obtain rfl := Except.ok.inj h
    simp only [Spot.names, found] at same
    obtain ⟨item, there, outline⟩ := Option.map_eq_some_iff.mp same
    obtain ⟨other, rfl⟩ := Item.exists_file_of_outline outline.symm rfl
    rw [walk_file (isName_of_not solid notUp short) there]
    simp only [Except.map, Spot.outline, outline]
    rfl
  | case9 => cases h
  | case10 links directory piece rest solid notUp short names target found last =>
    obtain ⟨alone, stays⟩ := Bool.and_eq_true_iff.mp last
    obtain rfl := List.isEmpty_iff.mp alone
    obtain rfl : followsLast = false := by simpa using stays
    obtain rfl := Except.ok.inj h
    rw [walk_last_link (isName_of_not solid notUp short) (keeps.links _ _ found)]
    rfl
  | case11 => cases h
  | case12 directory piece rest solid notUp short names target found followed links start ih =>
    rw [walk_link (isName_of_not solid notUp short) (goesOn_of_not followed) (keeps.links _ _ found)]
    exact ih h

theorem leadsTo_of_keeps {followsLast : Bool} {path : String} {spot : Spot}
    (there : tree.locate followsLast path = .ok spot)
    (same : (later.item? spot.names).map Item.outline = (tree.item? spot.names).map Item.outline) :
    later.leadsTo followsLast path = tree.leadsTo followsLast path := by
  have start : later.startOf path = tree.startOf path := by rw [startOf, startOf, keeps.place]
  rw [leadsTo, leadsTo, there]
  rw [locate_eq] at there ⊢
  cases fault : pathFault? path with
  | some fault => simp [fault] at there
  | none =>
    rw [fault] at there
    simp only [start]
    exact walk_of_outline keeps there same

theorem leadsTo_of_isDirectory {path : String} (there : tree.isDirectory path = true)
    (followsLast : Bool) : later.leadsTo followsLast path = tree.leadsTo followsLast path := by
  obtain ⟨names, located⟩ := isDirectory_iff.mp there
  cases followsLast with
  | true => rw [leadsTo, leadsTo, located, locate_directory_of_keeps keeps located]
  | false =>
    rcases locate_false_of_directory located with mine | ⟨other, target, mine, linked⟩
    · rw [leadsTo, leadsTo, mine, locate_directory_of_keeps keeps mine]
    · refine leadsTo_of_keeps keeps mine ?_
      simp only [Spot.names]
      rw [linked, keeps.links _ _ linked]

end Later

end FileTree

end Phrasebook
