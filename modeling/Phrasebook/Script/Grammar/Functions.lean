import Phrasebook.Script.Grammar.Patterns

/-!
Functions: parameters, bodies, arrow functions, and the members of object literals.
-/

set_option autoImplicit false

namespace Phrasebook.Script.Grammar

variable (rules : Rules)

inductive FunctionUse
  | declared
  | exported
  | expression
  deriving DecidableEq, Repr

structure FunctionKind where
  generator : Bool := false
  asynchronous : Bool := false
  deriving DecidableEq, Repr

structure FunctionParts where
  parameters : List Parameter
  body : List Node
  generic : List Node
  result : List Node

def FunctionParts.bodyAndTypes (function : FunctionParts) : List Node :=
  function.body ++ function.generic ++ function.result

def FunctionParts.parameterNodes (function : FunctionParts) : List Node :=
  function.parameters.map Parameter.toNode

def functionBody : Parse (List Node) :=
  within ({ · with topLevel := false, inFunction := true, setsUpClass := false }) do
    if (← hasTypes) && !(← atSign Token.openBrace) then
      if ← eatEnd then return []
    return [← rules .block]

def functionTail (kind : FunctionKind) (given : Parse (List Parameter)) : Parse FunctionParts :=
  within ({ · with generator := kind.generator, asynchronous := kind.asynchronous }) do
    let generic ← typeParametersHere rules
    expectSign "("
    let parameters ← within ({ · with inParameters := true, inFunction := false }) given
    expectSign ")"
    let result ← resultTypeHere rules
    let body ← functionBody rules
    return { parameters, body, generic, result }

def methodParts (kind : FunctionKind) : Parse FunctionParts :=
  within ({ · with allowsParent := true }) (functionTail rules kind (formalParameters rules))

def methodTail (decorated key : List Node) (kind : FunctionKind) : Parse Node := do
  let function ← methodParts rules kind
  return .method decorated key function.parameterNodes function.bodyAndTypes

def functionAfterWord (found : List Node) (place : FunctionUse) (asynchronous : Bool) :
    Parse Node := do
  let generator ← eatSign "*"
  if place == .declared || (← current).isReference then takeName
  within ({ · with allowsParent := false, expectsColon := false }) do
    let function ← functionTail rules { generator, asynchronous } (formalParameters rules)
    if place == .expression && function.body.isEmpty then stuck
    return parts .function (function.parameterNodes ++ found ++ function.bodyAndTypes)

def arrowBody (asynchronous : Bool) : Parse Node :=
  within ({ · with generator := false, asynchronous, inFunction := true }) do
    if ← atSign Token.openBrace then rules .block else rules .assignment

def listedValue : Parse Node := within ({ · with allowsIn := true }) (rules .assignment)

/-- A reading accessor of an object: of its function, only the result type and the body count. -/
private def objectGetter (key : Key) : Parse Node := do
  let function ← methodParts rules {}
  return parts .accessor (key.parts ++ function.result ++ function.body)

/-- A writing accessor of an object: of its function, at most two parameters and the body count. -/
private def objectSetter (key : Key) : Parse Node := do
  let function ← methodParts rules {}
  return parts .accessor (key.parts ++ (function.parameters.take 2).map (·.node) ++ function.body)

private def specialProperty (word : String) : Parse Node := do
  let generator ← if word == "async" then eatSign "*" else pure false
  let key ← propertyKey rules
  if word == "get" then objectGetter rules key
  else if word == "set" then objectSetter rules key
  else methodTail rules [] key.parts { generator, asynchronous := true }

/-- Whether the value of a property is left out by mistake, which scripts with types tolerate. -/
private def lacksValue (key : Key) : Parse Bool := do
  if !(← hasTypes) then return false
  match ← current with
  | .word _ _ => return false
  | .text _ => return false
  | .number => return false
  | .sign symbol =>
    if symbol == Token.closeBrace && key.isWord then return false
    return !(["(", "[", ":", ",", "?", "=", "*", "<"].contains symbol)
  | _ => return true

/-- A property whose name is a plain word that is taken, where no value follows. -/
private def wordProperty (word : String) : Parse Node := do
  discard (eatSign "?")
  if ← eatSign "=" then return parts .fallback [← listedValue rules]
  if ← atAnySign [",", Token.closeBrace] then return .shorthand word
  if ["get", "set", "async"].contains word then specialProperty rules word else stuck

private def objectProperty : Parse Node := do
  if ← eatSign "..." then return .spread (← listedValue rules)
  if ← eatSign "*" then
    let key ← propertyKey rules
    return ← methodTail rules [] key.parts { generator := true }
  eatParameterModifier
  let key ← propertyKey rules
  if ← lacksValue key then return .pair key.name key.parts Node.missing
  if ← eatSign ":" then return .pair key.name key.parts (← listedValue rules)
  if (← atSign "(") || ((← hasTypes) && (← atSign "<")) then
    return ← methodTail rules [] key.parts {}
  match key.name with
  | some word => if key.isWord then wordProperty rules word else stuck
  | none => stuck

def objectRule : Parse Node := within ({ · with expectsColon := false }) do
  expectSign Token.openBrace
  let found ← commaList (atSign Token.closeBrace) (objectProperty rules)
  expectSign Token.closeBrace
  return .object found

def arrayLiteral : Parse Node := within ({ · with expectsColon := false }) do
  expectSign "["
  let found ← collect do
    if ← atSign "]" then return none
    if ← eatSign "," then return some Node.leaf
    let spread ← eatSign "..."
    let item ← listedValue rules
    unless ← atSign "]" do expectSign ","
    return some (if spread then .spread item else item)
  expectSign "]"
  return parts .array found

end Phrasebook.Script.Grammar
