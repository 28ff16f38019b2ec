import Phrasebook.Locale

/-!
The locale in effect while something is handled. A handler runs in the scope of a locale, scopes nest,
and outside all scopes the default locale is in effect.
-/

set_option autoImplicit false

namespace Phrasebook

/-- The scopes that are still running, the innermost first, and the default locale. -/
structure Ambient where
  scopes : List String := []
  fallback : String := Locale.base
  deriving DecidableEq, Repr

namespace Ambient

def current (ambient : Ambient) : String := ambient.scopes.headD ambient.fallback

/-- Starts a scope. Its locale need not be recognized. -/
def enter (locale : String) (ambient : Ambient) : Ambient :=
  { ambient with scopes := locale :: ambient.scopes }

def leave (ambient : Ambient) : Ambient := { ambient with scopes := ambient.scopes.tail }

def setDefault (ambient : Ambient) (tag : String) : Except Locale.UnknownTag Ambient :=
  match Locale.validate tag with
  | .ok locale => .ok { ambient with fallback := locale }
  | .error unknown => .error unknown

end Ambient

/-- The work of a handler, which may break off with a reason of type `ε`. -/
abbrev Handling (ε : Type) (m : Type → Type) (α : Type) := ExceptT ε (StateT Ambient m) α

namespace Handling

variable {ε α : Type} {m : Type → Type} [Monad m]

/-- Does some work in the scope of a locale. The scope ends with the work, also when it breaks
off. -/
def within (locale : String) (work : Handling ε m α) : Handling ε m α := ExceptT.mk do
  modify (Ambient.enter locale)
  let result ← work.run
  modify Ambient.leave
  return result

end Handling

end Phrasebook
