import Phrasebook.Proofs.Files.Join
import Phrasebook.Proofs.Files.Outline
import Phrasebook.Proofs.Settings.Printed
import Phrasebook.Settings.Discovery

/-!
The lookup of settings: the file in a directory comes before all files above it, and a file with written
settings is read as they are.
-/

set_option autoImplicit false

namespace Phrasebook.Settings

open FileTree (linkLimit piecesOf pathFault?)

theorem isAbsolute_fileName : Path.isAbsolute fileName.toList = false := by decide

section Search

variable {tree : FileTree} {directory : String}

theorem findWithin_of_isPresent (there : tree.isPresent (Path.join directory fileName) = true)
    (count : Nat) : findWithin tree count directory = some (Path.join directory fileName) := by
  delta findWithin
  cases count with
  | zero => exact if_pos there
  | succ count => exact if_pos there

variable (absent : ¬tree.isPresent (Path.join directory fileName) = true)

include absent

theorem findWithin_of_marked
    (marked : tree.isPresent (Path.join directory repositoryMark) = true) (count : Nat) :
    findWithin tree count directory = none := by
  delta findWithin
  cases count with
  | zero => exact (if_neg absent).trans (if_pos marked)
  | succ count => exact (if_neg absent).trans (if_pos marked)

variable (unmarked : ¬tree.isPresent (Path.join directory repositoryMark) = true)

include unmarked

theorem findWithin_of_parent? {parent : String} (above : Path.parent? directory = some parent)
    (count : Nat) : findWithin tree (count + 1) directory = findWithin tree count parent := by
  delta findWithin
  refine (if_neg absent).trans ((if_neg unmarked).trans ?_)
  rw [above]

theorem findWithin_of_top (top : Path.parent? directory = none) (count : Nat) :
    findWithin tree count directory = none := by
  delta findWithin
  cases count with
  | zero => exact (if_neg absent).trans (if_neg unmarked)
  | succ count =>
    refine (if_neg absent).trans ((if_neg unmarked).trans ?_)
    rw [top]

end Search

theorem load_of_isPresent {tree : FileTree} {directory : String}
    (there : tree.isPresent (Path.join directory fileName) = true) :
    load tree directory = (ofFile tree (Path.join directory fileName)).map
      fun settings => (settings, some (Path.join directory fileName)) := by
  rw [load, find?, findWithin_of_isPresent there]

theorem defect?_default : ({} : Settings).defect? = none := by
  decide +kernel

theorem ofFile_of_text {tree : FileTree} {path text : String} {settings : Settings}
    (read : tree.readText path = .ok text) (parsed : ofText text = .ok settings)
    (sound : settings.defect? = none) : ofFile tree path = .ok settings := by
  simp only [ofFile, read, parsed, sound]

theorem locate_fileName {tree : FileTree} {directory : String}
    (sound : pathFault? (Path.join directory fileName) = none)
    (here : tree.descend (tree.startOf directory) (piecesOf directory) = some tree.place) :
    tree.locate true (Path.join directory fileName) = tree.locate true fileName := by
  have bare : pathFault? fileName = none := by decide
  rw [FileTree.locate_join isAbsolute_fileName sound here, FileTree.locate_eq, bare]
  rfl

theorem load_of_locate {tree : FileTree} {names : Names} {settings : Settings}
    (usable : settings.defect? = none)
    (there : tree.locate true fileName = .ok (.item names (.file (.text settings.render))))
    {directory : String} (sound : pathFault? (Path.join directory fileName) = none)
    (here : tree.descend (tree.startOf directory) (piecesOf directory) = some tree.place) :
    load tree directory = .ok (settings, some (Path.join directory fileName)) := by
  rw [← locate_fileName sound here] at there
  have present : tree.isPresent (Path.join directory fileName) = true := by
    rw [FileTree.isPresent, FileTree.resolve, there]
    rfl
  have read := ofFile_of_text (FileTree.readText_of_locate_text there) (ofText_render settings) usable
  rw [load_of_isPresent present, read]
  rfl

theorem locate_of_write {tree later : FileTree} (absent : tree.isPresent fileName = false)
    {content : Content}
    (done : tree.perform (Change.write fileName content) = (.ok (), later)) :
    ∃ names, later.locate true fileName = .ok (.item names (.file content)) := by
  rw [FileTree.perform_write] at done
  cases located : tree.locate true fileName with
  | error fault =>
    rw [located] at done
    cases done
  | ok spot =>
    cases spot with
    | item names found =>
      rw [FileTree.isPresent, FileTree.resolve, located] at absent
      cases absent
    | free names =>
      rw [located] at done
      obtain rfl : tree.put names (.file content) = later := congrArg Prod.snd done
      have free := FileTree.item?_of_locate_free located
      have below := FileTree.ne_nil_of_item?_eq_none free
      refine ⟨names, FileTree.locate_of_free (FileTree.keeps_put (Or.inl free) _) ?_ (by simp) located⟩
      rw [FileTree.item?_put below, if_pos rfl]

end Phrasebook.Settings
