/-!
Lists of pairs as maps from names.
-/

set_option autoImplicit false

namespace Phrasebook.Pairs

/-- Pairs with the value of a name replaced, or with a new pair at the end. -/
def put {α : Type} (name : String) (value : α) : List (String × α) → List (String × α)
  | [] => [(name, value)]
  | other :: rest => if other.1 = name then (name, value) :: rest else other :: put name value rest

end Phrasebook.Pairs
