import Phrasebook.Script.Grammar.Calls

/-!
Classes: their heads and their members.
-/

set_option autoImplicit false

namespace Phrasebook.Script.Grammar

variable (rules : Rules)

structure MemberHead where
  decorators : List Node
  isStatic : Bool := false
  isPlain : Bool := true
  isReadonly : Bool := false

private def accessModifiers : List String := ["public", "protected", "private"]

private def atMethod : Parse Bool := do
  return (← atSign "(") || ((← hasTypes) && (← atSign "<"))

/-- Whether a field ends or has a value or a type here; `atNewline` lets a new line end it. -/
private def atField (atNewline : Bool) : Parse Bool := do
  if (← hasTypes) && (← atAnySign ["!", ":"]) then return true
  if ← atAnySign ["=", Token.closeBrace] then return true
  if atNewline then atEnd else atSign ";"

private def memberKey : Parse Key := do
  match ← current with
  | .sign "#" =>
    takePrivateName
    return ⟨none, false, []⟩
  | _ => propertyKey rules

private def Key.isConstructor (key : Key) : Bool := key.name == some "constructor"

private def fieldTail (head : MemberHead) (key : Key) (optional : Bool) : Parse Node := do
  if key.isConstructor then stuck
  unless optional do discard (eatTypedSign "!")
  let type ← annotation rules
  let value ← if ← eatSign "=" then
      pure [← within ({ · with allowsIn := true }) (rules .assignment)]
    else pure []
  discard eatEnd
  return .field head.decorators key.parts (value ++ type)

private def methodOf (head : MemberHead) (key : Key) (kind : FunctionKind) : Parse Node :=
  methodTail rules head.decorators key.parts kind

/-- A parameter of a constructor. One that declares a member is a name or has a value. -/
private def constructorParameter : Parse Parameter := do
  let found ← decorators rules
  if ← eatSign "..." then
    let pattern ← rules .binding
    return { decorators := found, node := parts .pattern (pattern :: (← annotation rules)) }
  let access ← eatModifier accessModifiers
  let overrides ← eatModifier ["override"]
  let readonly ← eatModifier ["readonly"]
  let parameter ← formalParameter rules found
  if (access <|> overrides <|> readonly).isSome && !parameter.isName && !parameter.hasValue then stuck
  return parameter

/-- A constructor from its type parameters on, whose types do not count. -/
private def constructorTail (key : Key) : Parse Node := do
  discard (typeParametersHere rules)
  expectSign "("
  let parameters ← commaList (atSign ")") (constructorParameter rules)
  expectSign ")"
  discard <| annotation rules
  let body ← within ({ · with generator := false, asynchronous := false }) (functionBody rules)
  return .method [] key.parts (parameters.map Parameter.toNode) body

/-- A member whose name is read and followed by no parameters: a field, or an accessor or
asynchronous method that the name announces. -/
private def memberAfterKey (head : MemberHead) (key : Key) (optional : Bool) : Parse Node := do
  let starred := (← afterNewline) && (← atSign "*")
  let announces := key.isWord && (key.name == some "get" || key.name == some "set") &&
    !(← atField false) && !starred
  if !announces && (← atField true) then return ← fieldTail rules head key optional
  if key.isWord && key.name == some "async" && !(← afterNewline) then
    discard (eatModifier ["override"])
    let generator ← eatSign "*"
    let key ← memberKey rules
    if key.isConstructor then stuck
    discard (eatTypedSign "?")
    return ← methodOf rules head key { generator, asynchronous := true }
  if announces then return ← methodOf rules head (← memberKey rules) {}
  stuck

private def memberTail (head : MemberHead) : Parse Node := do
  if head.isPlain then
    if let some found ← indexSignature? rules then return parts .pattern found
  if ← eatSign "*" then return ← methodOf rules head (← memberKey rules) { generator := true }
  let key ← memberKey rules
  let optional ← eatTypedSign "?"
  if ← atMethod then
    if head.isReadonly then stuck
    if key.isConstructor then return ← constructorTail rules key
    return ← methodOf rules head key {}
  memberAfterKey rules head key optional

private def modifiedMember (head : MemberHead) : Parse Node := do
  let step : MemberHead → Parse (Option MemberHead) := fun head => do
    if (← atWord "static") && (← peek).1.isSign Token.openBrace then return none
    match ← eatModifier ["abstract", "readonly", "override", "static"] with
    | some "readonly" => return some { head with isReadonly := true }
    | some "static" => return some { head with isStatic := true }
    | some _ => return some { head with isPlain := false }
    | none => return none
  let head ← iterate step head
  if head.isStatic && (← atSign Token.openBrace) then
    return ← within ({ · with setsUpClass := true }) (rules .block)
  memberTail rules head

/-- The name that a word is when it turns out to be no modifier. -/
private def wordKey (word : String) : Key := ⟨some word, true, []⟩

/-- A member whose name is a word that is usually a modifier, if it is one; the word is taken. -/
private def memberNamed? (head : MemberHead) (word : String) (atNewline : Bool) :
    Parse (Option Node) := do
  if ← atMethod then return some (← methodOf rules head (wordKey word) {})
  let optional := (← hasTypes) && (← atSign "?")
  if optional || (← atField atNewline) then
    if optional then advance
    return some (← fieldTail rules head (wordKey word) optional)
  return none

private def accessorMember (head : MemberHead) : Parse Node := do
  if ← eatTypedWord "accessor" then
    if let some found ← memberNamed? rules head "accessor" true then return found
  modifiedMember rules head

private def staticMember (head : MemberHead) : Parse Node := do
  if ← eatWord "static" then
    if let some found ← memberNamed? rules head "static" false then return found
    return ← accessorMember rules { head with isStatic := true }
  accessorMember rules head

private def classMember : Parse Node := do
  let found ← decorators rules
  let declared ← eatTypedWord "declare"
  let access ← eatModifier accessModifiers
  let declaredLater ← if declared then pure false else eatTypedWord "declare"
  let head : MemberHead := { decorators := found, isPlain := access.isNone }
  if declared || declaredLater then
    if let some member ← memberNamed? rules head "declare" true then return member
  staticMember rules head

/-- The members of a class, in braces; the last brace may be missing at the end of the script. -/
private def classBody : Parse (List Node) := within ({ · with allowsParent := true }) do
  expectSign Token.openBrace
  let found ← collect do
    if (← atSign Token.closeBrace) || (← current) == .done then return none
    if ← eatSign ";" then return some Node.leaf
    return some (← classMember rules)
  unless (← current) == .done do expectSign Token.closeBrace
  return found

def heritageType : Parse (List Node) := do
  let start ← here
  let word ← takeWord
  let node ← links rules start true true (.expression (.name word))
  if ← atSign "<" then return node :: (← typeArguments rules)
  return [node]

def heritageTypes : Parse (List Node) := do
  let found ← commaList
    (return (← atSign Token.openBrace) || (← atAnyWord ["implements", "extends"])) (heritageType rules)
  return found.flatten

private def parentClass : Parse (Node × List Node) := do
  match ← rules .leftSide with
  | .group .instantiation (parent :: types) => return (parent, types)
  | parent =>
    let types ← if (← hasTypes) && (← atSign "<") then typeArguments rules else pure []
    return (parent, types)

/-- The parents of a class: at most one counts. -/
private def parentClass? : Parse (Option (Node × List Node)) := do
  unless ← eatWord "extends" do return none
  let first ← parentClass rules
  if ← eatTypedSign "," then discard (heritageTypes rules)
  if ← eatWord "extends" then discard (parentClass rules)
  return some first

/-- A class from its keyword on; `start` is the position of its first decorator or of the keyword,
and a declaration has a name. -/
def classTail (start : Nat) (found : List Node) (named : Bool) : Parse Node := do
  expectWord "class"
  if named || (← current).isReference then takeScopedName
  let generic ← typeParametersHere rules
  let early ← parentClass? rules
  let promised ← if ← eatTypedWord "implements" then heritageTypes rules else pure []
  if ← eatTypedWord "implements" then discard (heritageTypes rules)
  let late ← if ← eatTypedWord "extends" then some <$> parentClass rules else pure none
  let members ← classBody rules
  let rest := match early <|> late with
    | some (parent, types) => [parent] ++ generic ++ types ++ promised
    | none => generic ++ promised
  return .classLike start found members rest

end Phrasebook.Script.Grammar
