import Phrasebook.Files.Tree

/-!
The path that stands for a directory whether or not it exists yet: the nearest ancestor that exists is
taken without links, and the names that are missing follow.
-/

set_option autoImplicit false

namespace Phrasebook.FileTree

def absoluteParts (tree : FileTree) (path : String) : List Path.Part :=
  if Path.isAbsolute path.toList then Path.parts path
  else .root :: tree.place.map .name ++ (Path.parts path).filter (· != .here)

def endingOf (path : String) : String := if path.toList.getLast? == some '/' then "/" else ""

/-- The settled path of parts in reverse order; `none` if a part that is missing is no name. The
ending follows the first of them. -/
def settle? (tree : FileTree) (ending : String) : List Path.Part → Option String
  | [] => none
  | part :: outer =>
    match tree.canonical (Path.ofParts (part :: outer).reverse ++ ending) with
    | .ok found => some found
    | .error _ =>
      match part with
      | .name text => (settle? tree "" outer).map (Path.join · text)
      | _ => none

/-- The path that stands for a directory before and after it is made. A path with two points after a
missing name stays as it is seen from the root. -/
def settled (tree : FileTree) (path : String) : String :=
  if path.isEmpty then ""
  else
    let parts := tree.absoluteParts path
    let ending := endingOf path
    (tree.settle? ending parts.reverse).getD (Path.ofParts parts ++ ending)

end Phrasebook.FileTree
