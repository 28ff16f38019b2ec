import Phrasebook.Script.Grammar.Types

/-!
Patterns: those that declare names, and those that are first met as expressions and turn out to be
assigned to or to be the parameters of an arrow function.
-/

set_option autoImplicit false

namespace Phrasebook.Script.Grammar

/-- Where an expression turns out to be a pattern. -/
inductive PatternKind
  | declared
  | assigned
  | element
  deriving DecidableEq, Repr

def PatternKind.inner : PatternKind → PatternKind
  | .declared => .declared
  | .assigned => .element
  | .element => .element

/-- The pattern for an expression that is no object, no array and no assignment. What no value can be
given to is left out of the pattern. -/
private def simplePattern (kind : PatternKind) (node : Node) : Node :=
  match kind with
  | .assigned => node
  | .declared =>
    match node with
    | .name _ => node
    | .group .pattern _ => node
    | _ => Node.missing
  | .element =>
    match node with
    | .name _ => node
    | .member _ _ => node
    | .call _ _ _ => node
    | .text _ _ => node
    | .template _ _ _ => node
    | .paren _ => node
    | .classLike _ _ _ _ => node
    | .group form _ =>
      if [Form.property, .specialCall, .constant, .function, .typed, .instantiation,
          .pattern].contains form then node
      else Node.missing
    | _ => Node.missing

mutual

/-- The pattern that an expression stands for. A method or accessor in an object rules a pattern
out. -/
def toPattern? (kind : PatternKind) : Node → Option Node
  | .object properties => (toProperties? kind properties).map (.group .pattern)
  | .group .array items => (toItems? kind items).map (.group .pattern)
  | .group .assignment [target, value] => do
    return .group .pattern [← toPattern? kind target, value]
  | node => some (simplePattern kind node)

/-- The parts of an object pattern. What takes the rest of a declared one is a name. -/
def toProperties? (kind : PatternKind) : List Node → Option (List Node)
  | [] => some []
  | .pair name key value :: rest => do
    return .pair name key (← toPattern? kind.inner value) :: (← toProperties? kind rest)
  | .spread inner :: rest => do
    let inner ← if kind == .declared then some (simplePattern kind inner)
      else toPattern? kind.inner inner
    return .spread inner :: (← toProperties? kind rest)
  | .shorthand name :: rest => do return .shorthand name :: (← toProperties? kind rest)
  | .group .fallback nodes :: rest => do
    return .group .fallback nodes :: (← toProperties? kind rest)
  | _ :: _ => none

/-- The parts of an array pattern; only the last one may stand for several values. -/
def toItems? (kind : PatternKind) : List Node → Option (List Node)
  | [] => some []
  | [.spread inner] => do return [.spread (← toPattern? kind.inner inner)]
  | .spread _ :: rest => toItems? kind rest
  | item :: rest => do return (← toPattern? kind.inner item) :: (← toItems? kind rest)

end

variable (rules : Rules)

private def arrayBinding : Parse Node := do
  expectSign "["
  let found ← collect do
    if ← atSign "]" then return none
    if ← eatSign "," then return some Node.leaf
    let item ← if ← eatSign "..." then rules .binding
      else do
        let (pattern, value) ← bindingElement rules
        pure (joinValue pattern value)
    unless ← atSign "]" do expectSign ","
    return some item
  expectSign "]"
  return parts .pattern found

structure Key where
  /-- The name, unless it is a number, computed, or holds half of a surrogate pair. -/
  name : Option String
  isWord : Bool
  parts : List Node

def propertyKey : Parse Key := do
  match ← current with
  | .word name _ =>
    advance
    return ⟨some name, true, []⟩
  | .text value =>
    advance
    return ⟨value, false, []⟩
  | .number =>
    advance
    return ⟨none, false, []⟩
  | .bigNumber =>
    advance
    return ⟨none, false, []⟩
  | .sign "[" =>
    advance
    within ({ · with allowsIn := true }) do
      let first ← rules .assignment
      let others ← collect do
        if ← eatTypedSign "," then return some (← rules .assignment)
        return none
      expectSign "]"
      return ⟨none, false, first :: others⟩
  | _ => stuck

private def propertyBinding : Parse Node := do
  if ← eatSign "..." then return ← rules .binding
  let key ← propertyKey rules
  if ← eatSign ":" then
    let (pattern, value) ← bindingElement rules
    return parts .pattern (key.parts ++ [joinValue pattern value])
  unless key.isWord do stuck
  if ← eatSign "=" then
    return parts .pattern [← within ({ · with allowsIn := true }) (rules .assignment)]
  return Node.leaf

private def objectBinding : Parse Node := within ({ · with expectsColon := false }) do
  expectSign Token.openBrace
  let found ← commaList (atSign Token.closeBrace) (propertyBinding rules)
  expectSign Token.closeBrace
  return parts .pattern found

def bindingRule : Parse Node := do
  match ← current with
  | .word _ _ =>
    takeName
    return Node.leaf
  | .sign symbol =>
    if symbol == "[" then arrayBinding rules
    else if symbol == Token.openBrace then objectBinding rules
    else stuck
  | _ => stuck

end Phrasebook.Script.Grammar
