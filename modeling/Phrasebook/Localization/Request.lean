import Phrasebook.Localization.Ambient

/-!
Requests that are answered in the locale of the user who makes them or of the guild they come from.
-/

set_option autoImplicit false

namespace Phrasebook

structure Request where
  user : Option String := none
  guild : Option String := none
  deriving DecidableEq, Repr

inductive Preference
  | user
  | guild
  deriving DecidableEq, Repr

namespace Request

def choice (request : Request) : Preference → Option String
  | .user => request.user
  | .guild => request.guild

/-- The locale to answer in: the one in effect where the request names none or an empty one. -/
def locale (request : Request) (preference : Preference) (ambient : Ambient) : String :=
  ((request.choice preference).filter (!·.isEmpty)).getD ambient.current

end Request

namespace Handling

/-- Does some work in the scope of the locale that the user of a request has chosen. -/
def localized {ε α : Type} {m : Type → Type} [Monad m] (request : Request)
    (work : Handling ε m α) : Handling ε m α := do
  let ambient ← getThe Ambient
  within (request.locale .user ambient) work

end Handling

end Phrasebook
