import Phrasebook.Files.Settled
import Phrasebook.Localization.Localizer

/-!
The localizers in use, one for each directory. A directory counts as the same on whatever way it is
reached and whether or not it existed when its localizer was made.
-/

set_option autoImplicit false

namespace Phrasebook

/-- The localizers in the order in which they were made. Their directories are all different, since
localizers come in through `acquire` alone. -/
structure Registry where
  localizers : List Localizer := []
  deriving DecidableEq, Repr

namespace Registry

def find? (registry : Registry) (directory : String) : Option Localizer :=
  registry.localizers.find? (Path.same ·.directory directory)

/-- The localizer for a path and the registry that holds it. One that is there is taken as it is;
otherwise it is made from what the directory has now. -/
def acquire (registry : Registry) (tree : FileTree) (name path : String) : Localizer × Registry :=
  let directory := tree.settled path
  match registry.find? directory with
  | some found => (found, registry)
  | none =>
    let made := ⟨name, directory, Texts.load tree directory⟩
    (made, ⟨registry.localizers ++ [made]⟩)

def acquireEvents (registry : Registry) (tree : FileTree) (name path : String) : List Log.Event :=
  let directory := tree.settled path
  match registry.find? directory with
  | some _ => []
  | none =>
    Log.debug .lookups "loading catalogs" [("name", name), ("dir", directory)] ::
      Texts.loadEvents tree directory

def reload (registry : Registry) (tree : FileTree) (directory : String) : Registry :=
  ⟨registry.localizers.map fun localizer =>
    if Path.same localizer.directory directory then localizer.reload tree else localizer⟩

def reloadAll (registry : Registry) (tree : FileTree) : Registry :=
  ⟨registry.localizers.map (Localizer.reload tree)⟩

def reloadAllEvents (registry : Registry) (tree : FileTree) : List Log.Event :=
  Log.info .lookups "reloading locales" [] ::
    registry.localizers.flatMap fun localizer => Texts.loadEvents tree localizer.directory

end Registry

end Phrasebook
