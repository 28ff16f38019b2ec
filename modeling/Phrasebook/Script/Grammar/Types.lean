import Phrasebook.Script.Grammar.Basic

/-!
Type annotations. A type has no value, so all that is kept of it are the expressions in it: computed
names of members and default values in the patterns of parameters.
-/

set_option autoImplicit false

namespace Phrasebook.Script.Grammar

variable (rules : Rules)

def typeParts : Parse (List Node) := return ungroup (← rules .type)

def annotation : Parse (List Node) := do
  if ← eatTypedSign ":" then typeParts rules else return []

/-- A name with further names after points. What follows the last point may be missing; keywords can
follow one only if `reservedToo` says so. -/
def entityName (reservedToo : Bool) : Parse Unit := do
  discard takeWord
  discard <| collect do
    unless ← eatSign "." do return none
    unless (← current).isAnyWord || (← atSign "#") do return none
    if reservedToo then discard takeWord else takeName
    return some ()

def modifierCanStand : Parse Bool := lookAhead do
  advance
  if ← afterNewline then return false
  match ← current with
  | .word _ _ => return true
  | .text _ => return true
  | .number => return true
  | .bigNumber => return true
  | .sign symbol => return ["[", Token.openBrace, "*", "...", "#"].contains symbol
  | _ => return false

def eatModifier (names : List String) : Parse (Option String) := do
  if !(← hasTypes) then return none
  match ← current with
  | .word name (some _) =>
    if names.contains name && (← modifierCanStand) then
      advance
      return some name
    return none
  | _ => return none

def parameterModifiers : List String := ["public", "protected", "private", "readonly"]

def eatParameterModifier : Parse Unit := do
  if (← hasTypes) && (← atAnyWord parameterModifiers) then
    let (next, _) ← peek
    if next.isAnyWord || next.isSign Token.openBrace || next.isSign "[" then
      discard (eatModifier parameterModifiers)

/-- Takes the bracket that closes types, unless an operator begins with it that counts here. -/
def closeAngle : Parse Unit := do
  let state ← get
  if state.inOperators && (Lexer.bracketSign? (← read).source (state.stop - 1)).isSome then stuck
  expectSign ">"

def typeArguments : Parse (List Node) := do
  expectSign "<"
  let found ← commaList (atSign ">") (typeParts rules)
  closeAngle
  return found.flatten

def typeArgumentsOfType : Parse (List Node) :=
  within ({ · with wholeOperators := false }) (typeArguments rules)

def typeArgumentsHere : Parse (List Node) := do
  if !(← afterNewline) && (← atSign "<") then typeArgumentsOfType rules else return []

/-- The words that can stand before the name of a type parameter, most of them in vain. -/
def typeParameterModifiers : List String :=
  ["public", "private", "protected", "readonly", "abstract", "const", "override", "in", "out"]

private def typeParameter : Parse (List Node) := do
  discard <| collect (eatModifier typeParameterModifiers)
  discard takeWord
  let bound ← if ← eatWord "extends" then typeParts rules else pure []
  let fallback ← if ← eatSign "=" then typeParts rules else pure []
  return bound ++ fallback

def typeParameters : Parse (List Node) := do
  expectSign "<"
  let found ← commaList (atSign ">") (typeParameter rules)
  closeAngle
  return found.flatten

def typeParametersHere : Parse (List Node) := do
  if (← hasTypes) && (← atSign "<") then typeParameters rules else return []

/-- The result type of a function after the given sign: a type, or a statement about a parameter. -/
def resultType (symbol : String) : Parse (List Node) := do
  expectSign symbol
  let asserts := (← atWord "asserts") && (← peek).1.isReference
  if asserts then advance
  let (next, newline) ← peek
  let states := (← current).isReference && next.isWord "is" && !newline
  unless asserts || states do return ← typeParts rules
  advance
  unless states do return []
  advance
  typeParts rules

def resultTypeHere : Parse (List Node) := do
  if (← hasTypes) && (← atSign ":") then resultType rules ":" else return []

structure Parameter where
  decorators : List Node := []
  node : Node
  isName : Bool := false
  hasValue : Bool := false

def Parameter.toNode (parameter : Parameter) : Node :=
  .group .pattern (parameter.decorators ++ [parameter.node])

private def valueHere : Parse (Option Node) := do
  if ← eatSign "=" then return some (← rules .assignment) else return none

def bindingElement : Parse (Node × Option Node) := do
  let pattern ← rules .binding
  return (pattern, ← within ({ · with allowsIn := true }) (valueHere rules))

def joinValue (pattern : Node) (value : Option Node) : Node :=
  .group .pattern (pattern :: value.toList)

/-- A parameter without its decorators: modifiers, pattern, type and default value. A value before the
type makes the type count for nothing. -/
def formalParameter (found : List Node) : Parse Parameter := do
  eatParameterModifier
  let plain := (← current).isAnyWord
  let (pattern, early) ← bindingElement rules
  let optional ← eatTypedSign "?"
  if optional && early.isSome && !(← read).ambient then stuck
  let type ← annotation rules
  let late ← valueHere rules
  let target := match early with
    | some _ => joinValue pattern early
    | none => parts .pattern (pattern :: type)
  return {
    decorators := found
    node := joinValue target late
    isName := plain && early.isNone && late.isNone
    hasValue := early.isSome || late.isSome }

private def restParameter (found : List Node) : Parse Parameter := do
  let pattern ← rules .binding
  let value ← valueHere rules
  let type ← annotation rules
  discard (eatTypedSign "?")
  return { decorators := found, node := parts .pattern (joinValue pattern value :: type) }

def decorators : Parse (List Node) := collect do
  if ← atSign "@" then return some (← rules .decorator)
  return none

def formalParameters : Parse (List Parameter) :=
  commaList (atSign ")") do
    let found ← decorators rules
    if ← eatSign "..." then restParameter rules found else formalParameter rules found

def signatureParameters : Parse (List Node) := do
  expectSign "("
  let found ← formalParameters rules
  if found.any (·.hasValue) then stuck
  expectSign ")"
  return found.map (·.node)

private def endMember : Parse Unit := do
  unless ← eatSign "," do expectEnd

/-- The name of a member of a type; a computed one holds an expression, and so may a quoted one. -/
private def memberName : Parse (List Node) := do
  match ← current with
  | .sign "[" =>
    advance
    let key ← rules .assignment
    expectSign "]"
    return [key]
  | .sign "#" =>
    takePrivateName
    return []
  | .text _ => return [← rules .member]
  | .number => return [← rules .member]
  | .bigNumber => return [← rules .member]
  | _ =>
    discard takeWord
    return []

private def opensIndex : Parse Bool := lookAhead do
  expectSign "["
  if (← current).isReference then
    advance
    atAnySign [":", ","]
  else return false

def indexSignature? : Parse (Option (List Node)) := do
  unless (← atSign "[") && (← opensIndex) do return none
  advance
  advance
  advance
  let key ← typeParts rules
  expectSign "]"
  let type ← annotation rules
  endMember
  return some (key ++ type)

private def callSignature : Parse (List Node) := do
  let generic ← typeParametersHere rules
  let given ← signatureParameters rules
  let result ← resultTypeHere rules
  endMember
  return given ++ result ++ generic

private def accessorSignature : Parse (List Node) := do
  let reads ← eatWord "get"
  unless reads do expectWord "set"
  let key ← memberName rules
  if reads then
    expectSign "("
    expectSign ")"
    let type ← annotation rules
    endMember
    return key ++ type
  match ← signatureParameters rules with
  | [] => stuck
  | first :: _ =>
    endMember
    return key ++ [first]

private def plainSignature (isReadonly : Bool) : Parse (List Node) := do
  let key ← memberName rules
  discard (eatSign "?")
  if ← atAnySign ["(", "<"] then
    if isReadonly then stuck
    return key ++ (← callSignature rules)
  let type ← annotation rules
  endMember
  return key ++ type

private def typeMember : Parse (List Node) := do
  if ← atAnySign ["(", "<"] then return ← callSignature rules
  if ← atWord "new" then
    let (next, _) ← peek
    if next.isSign "(" || next.isSign "<" then
      advance
      return ← callSignature rules
  let isReadonly := (← eatModifier ["readonly"]).isSome
  if let some found ← indexSignature? rules then return found
  unless isReadonly do
    if let some found ← attempt (some <$> accessorSignature rules) then return found
  plainSignature rules isReadonly

def typeMembers : Parse (List Node) := do
  expectSign Token.openBrace
  let found ← collect do
    if ← atSign Token.closeBrace then return none
    return some (← typeMember rules)
  expectSign Token.closeBrace
  return found.flatten

private def opensMapped : Parse Bool := lookAhead do
  advance
  if ← atAnySign ["+", "-"] then
    advance
    return ← atWord "readonly"
  discard (eatWord "readonly")
  unless ← eatSign "[" do return false
  unless (← current).isReference do return false
  advance
  atWord "in"

private def mappedType : Parse (List Node) := do
  expectSign Token.openBrace
  if ← atAnySign ["+", "-"] then
    advance
    expectWord "readonly"
  else discard (eatWord "readonly")
  expectSign "["
  discard takeWord
  expectWord "in"
  let keys ← typeParts rules
  let renamed ← if ← eatWord "as" then typeParts rules else pure []
  expectSign "]"
  if ← atAnySign ["+", "-"] then
    advance
    expectSign "?"
  else discard (eatSign "?")
  let values ← annotation rules
  expectEnd
  expectSign Token.closeBrace
  return keys ++ renamed ++ values

private def eatLabel : Parse Unit :=
  discard <| attempt do
    discard (eatSign "...")
    discard takeWord
    discard (eatSign "?")
    expectSign ":"
    return some ()

private inductive Presence
  | required
  | optional
  | rest
  deriving DecidableEq

private def tupleMember : Parse (Presence × List Node) := do
  eatLabel
  if ← eatSign "..." then return (.rest, ← typeParts rules)
  let found ← typeParts rules
  return (if ← eatSign "?" then .optional else .required, found)

/-- A tuple type, in which nothing required follows something optional. -/
private def tupleType : Parse (List Node) := do
  expectSign "["
  let found ← commaList (atSign "]") (tupleMember rules)
  expectSign "]"
  if (found.dropWhile (·.1 != .optional)).any (·.1 == .required) then stuck
  return found.flatMap (·.2)

private def templateType : Parse (List Node) := do
  let source := (← read).source
  let readChunk (start : Nat) : Parse Bool := do
    match Lexer.chunk? source (source.size + 1) start (some []) with
    | none => stuck
    | some chunk =>
      if chunk.codes.isNone then stuck
      modify ({ · with token := .sign "`", stop := chunk.stop })
      return chunk.isLast
  let finished ← readChunk (← get).stop
  let step : List Node × Bool → Parse (Option (List Node × Bool)) := fun (found, finished) => do
    if finished then return none
    advance
    let hole ← typeParts rules
    unless ← atSign Token.closeBrace do stuck
    return some (found ++ hole, ← readChunk (← get).stop)
  let (found, _) ← iterate step ([], finished)
  advance
  return found

private def importedTypeOptions : Parse Node := do
  expectSign Token.openBrace
  expectWord "with"
  expectSign ":"
  unless ← atSign Token.openBrace do stuck
  let found ← rules .object
  discard (eatSign ",")
  expectSign Token.closeBrace
  return found

/-- An imported type. Anything may stand in the place of the module's name. -/
private def importedType : Parse (List Node) := do
  expectWord "import"
  expectSign "("
  if (← current) == .invalid then stuck
  advance
  let asked ← if (← eatSign ",") && (← atSign Token.openBrace) then
      pure [← importedTypeOptions rules]
    else pure []
  expectSign ")"
  if ← eatSign "." then entityName false
  let generic ← if ← atSign "<" then typeArgumentsOfType rules else pure []
  return generic ++ asked

private def queriedType : Parse (List Node) := do
  expectWord "typeof"
  if ← atWord "import" then
    let found ← importedType rules
    return found ++ (← typeArgumentsHere rules)
  entityName true
  typeArgumentsHere rules

/-- The receiver as a type, or a statement about it. -/
private def receiverType (asserted : Bool) : Parse (List Node) := do
  expectWord "this"
  let states ← if asserted || !(← afterNewline) then eatWord "is" else pure false
  if states then typeParts rules else return []

def basicTypes : List String :=
  ["void", "null", "any", "boolean", "bigint", "never", "number", "object", "string", "symbol",
    "unknown", "undefined", "intrinsic"]

private def namedType : Parse (List Node) := do
  eatParameterModifier
  entityName true
  typeArgumentsHere rules

private def wordType (word : String) : Parse (List Node) := do
  if word == "import" then importedType rules
  else if word == "typeof" then queriedType rules
  else if word == "this" then receiverType rules false
  else if word == "true" || word == "false" then
    advance
    return []
  else if word == "asserts" && (← peek).1.isWord "this" then
    advance
    receiverType rules true
  else if basicTypes.contains word && !(← peek).1.isSign "." then
    advance
    return []
  else if word == "let" ||
      (Token.keywords.contains word && !(["void", "null", "break"].contains word)) then
    stuck
  else namedType rules

private def signType (symbol : String) : Parse (List Node) := do
  if symbol == "-" then
    advance
    if (← current) == .number || (← current) == .bigNumber then
      advance
      return []
    stuck
  else if symbol == Token.openBrace then
    if ← opensMapped then mappedType rules else typeMembers rules
  else if symbol == "[" then tupleType rules
  else if symbol == "(" then
    advance
    let found ← typeParts rules
    expectSign ")"
    return found
  else if symbol == "`" then templateType rules
  else stuck

private def innerType : Parse (List Node) := do
  match ← current with
  | .word _ (some word) => wordType rules word
  | .word _ none => namedType rules
  | .text _ => advance; return []
  | .number => advance; return []
  | .bigNumber => advance; return []
  | .sign symbol => signType rules symbol
  | _ => stuck

private def arrayType : Parse (List Node) := do
  let first ← innerType rules
  iterate (fun found => do
    if ← afterNewline then return none
    unless ← eatSign "[" do return none
    if ← eatSign "]" then return some found
    let index ← typeParts rules
    expectSign "]"
    return some (found ++ index)) first

private def inferredType : Parse (List Node) := do
  advance
  discard takeWord
  let bound ← attempt do
    expectWord "extends"
    let found ← rules .plainType
    if (← read).plainTypes || !(← atSign "?") then return some (ungroup found)
    return none
  return bound.getD []

private def operatorType : Parse (List Node) := do
  discard <| collect do
    if ← atAnyWord ["keyof", "unique", "readonly"] then
      advance
      return some ()
    return none
  if ← atWord "infer" then inferredType rules else arrayType rules

private def joinedTypes (symbol : String) (operand : Parse (List Node)) : Parse (List Node) := do
  discard (eatSign symbol)
  let first ← operand
  let others ← collect do
    if ← eatSign symbol then return some (← operand)
    return none
  return first ++ others.flatten

/-- Whether what follows a parenthesis can only be the parameters of a function type. -/
private def opensFunctionType : Parse Bool := lookAhead do
  expectSign "("
  if ← atAnySign [")", "..."] then return true
  eatParameterModifier
  if (← current).isAnyWord then advance
  else if ← atAnySign [Token.openBrace, "["] then discard (rules .binding)
  else return false
  if ← atAnySign [":", ",", "?", "="] then return true
  unless ← eatSign ")" do return false
  atSign "=>"

private def functionType : Parse (List Node) := do
  let generic ← typeParametersHere rules
  let given ← signatureParameters rules
  let result ← resultType rules "=>"
  return given ++ generic ++ result

def plainTypeRule : Parse Node := do
  if (← atSign "<") || ((← atSign "(") && (← opensFunctionType rules)) then
    return parts .typed (← functionType rules)
  if ← atWord "abstract" then
    if (← peek).1.isWord "new" then
      advance
      advance
      return parts .typed (← functionType rules)
  if ← eatWord "new" then return parts .typed (← functionType rules)
  return parts .typed (← joinedTypes "|" (joinedTypes "&" (operatorType rules)))

def typeRule : Parse Node := do
  let checked ← within ({ · with plainTypes := false }) (rules .plainType)
  if ← afterNewline then return checked
  unless ← eatWord "extends" do return checked
  let bound ← within ({ · with plainTypes := true }) (rules .plainType)
  expectSign "?"
  let whenTrue ← rules .type
  expectSign ":"
  let whenFalse ← rules .type
  return parts .typed ([checked, bound, whenTrue, whenFalse].flatMap ungroup)

end Phrasebook.Script.Grammar
