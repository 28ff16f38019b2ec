import Phrasebook.Script.Grammar.Functions

/-!
What follows an expression and makes a longer one of it: members, calls, tagged templates; and
decorators, which are built from these.
-/

set_option autoImplicit false

namespace Phrasebook.Script.Grammar

variable (rules : Rules)

def arguments : Parse (List Node) := within ({ · with expectsColon := false }) do
  expectSign "("
  let found ← commaList (atSign ")") do
    if ← eatSign "..." then return .spread (← listedValue rules)
    listedValue rules
  expectSign ")"
  return found

/-- The arguments of the module loader: a module, and what is asked of it. Without types no comma can
follow them. -/
private def loaderArguments : Parse (List Node) := do
  let found ← within ({ · with expectsColon := false }) do
    expectSign "("
    let found ← commaList (atSign ")") do
      let value ← if ← eatSign "..." then (.spread ·) <$> listedValue rules else listedValue rules
      if !(← hasTypes) && (← atSign ",") && (← peek).1.isSign ")" then stuck
      return value
    expectSign ")"
    return found
  unless [1, 2].contains found.length do stuck
  return found

/-- Reads a template chunk from a position and moves to its end, which counts as a backquote. -/
private def takeChunk (start : Nat) : Parse Lexer.Chunk := do
  let source := (← read).source
  match Lexer.chunk? source (source.size + 1) start (some []) with
  | none => stuck
  | some chunk =>
    modify ({ · with token := .sign "`", stop := chunk.stop })
    return chunk

/-- A template at its backquote. Malformed escapes are for tagged templates alone. -/
def templateLiteral (tagged : Bool) : Parse Node := do
  let start ← here
  let accept (chunk : Lexer.Chunk) : Parse Unit :=
    if chunk.codes.isNone && !tagged then stuck else pure ()
  let first ← takeChunk (← get).stop
  accept first
  let change : Context → Context := fun context =>
    { context with allowsIn := true, expectsColon := context.expectsColon && !tagged }
  let step : List Node × Bool → Parse (Option (List Node × Bool)) := fun (holes, finished) => do
    if finished then return none
    advance
    let hole ← within change (rules .expression)
    unless ← atSign Token.closeBrace do stuck
    let chunk ← takeChunk (← get).stop
    accept chunk
    return some (hole :: holes, chunk.isLast)
  let (holes, _) ← iterate step ([], first.isLast)
  advance
  return .template (first.codes.bind Lexer.ofCodes) start holes.reverse

/-- The signs that only begin an expression, or begin one as well as they join two. -/
def openingSigns : List String :=
  ["(", "[", Token.openBrace, "`", "!", "~", "+", "-", "++", "--", "#", "<", "/", "/="]

def atOpeningWord : Parse Bool := do
  if (← current).isReference then return true
  atAnyWord ["this", "super", "null", "true", "false", "function", "class", "new", "import", "delete",
    "void", "typeof", "await", "yield"]

/-- Whether type arguments can stand without a call after them: no expression may begin here. -/
private def endsInstantiation : Parse Bool := do
  match ← current with
  | .sign symbol =>
    if ["<", ">", "=", "+", "-", "(", "`"].contains symbol then return false
    return (← afterNewline) || symbol == "/" || !("@" :: openingSigns).contains symbol
  | .word _ _ => return (← afterNewline) || !(← atOpeningWord)
  | .done => return true
  | _ => afterNewline

def instantiation? : Parse (Option (List Node)) := do
  unless (← hasTypes) && (← atSign "<") do return none
  attempt do
    let given ← typeArguments rules
    if ← endsInstantiation then return some given
    return none

inductive Base
  | expression (node : Node)
  | parent
  | loader

private def Base.nodes : Base → List Node
  | .expression node => [node]
  | _ => []

/-- Whether a link to the base belongs to a chain that may end early. -/
private def Base.inChain (base : Base) (optional : Bool) : Bool :=
  match base with
  | .expression node => optional || node.isOptional
  | _ => optional

private def callOf (start : Nat) (base : Base) (optional : Bool) (given : List Node) : Parse Node := do
  if base.inChain optional then return parts .optional (base.nodes ++ given)
  match base with
  | .expression callee => return .call ⟨start, (← get).lastStop⟩ callee given
  | _ => return parts .specialCall given

private def argumentsOf (base : Base) : Parse (List Node) :=
  match base with
  | .loader => loaderArguments rules
  | _ => arguments rules

def withTypes (node : Node) (types : List Node) : Node :=
  if types.isEmpty then node else .group .typed (node :: types)

private def instantiated (node : Node) : Option (List Node) → Node
  | none => node
  | some types => parts .instantiation (node :: types)

private structure Step where
  base : Base
  continues : Bool

/-- A call or tagged template with type arguments, or an expression with such that an assignment or a
type follows. -/
private def genericLink? (start : Nat) (noCall : Bool) (base : Base) : Parse (Option Step) := attempt do
  let given ← typeArguments rules
  if !noCall && (← atSign "(") then
    let found ← argumentsOf rules base
    return some ⟨.expression (withTypes (← callOf start base false found) given), true⟩
  match base with
  | .expression node =>
    if ← atSign "`" then
      let template ← templateLiteral rules true
      return some ⟨.expression (parts .tagged ([node] ++ given ++ [template])), true⟩
    if (← atSign "=") || (← atAnyWord ["as", "satisfies"]) then
      return some ⟨.expression (parts .instantiation (node :: given)), false⟩
    return none
  | _ => return none

private def checkParent (base : Base) : Parse Unit := do
  match base with
  | .parent => unless (← hasTypes) || (← read).allowsParent do stuck
  | _ => pure ()

private def namedMember (base : Base) (optional : Bool) : Parse Node := do
  if ← atSign "#" then
    takePrivateName
    match base with
    | .expression _ => return parts (if base.inChain optional then .optional else .property) base.nodes
    | _ => stuck
  let name ← takeWord
  checkParent base
  if base.inChain optional then return parts .optional base.nodes
  match base with
  | .expression object => return .member object name
  | _ => return parts .property []

private def atPresenceMark : Parse Bool := do
  return (← hasTypes) && !(← afterNewline) && (← atSign "!")

/-- Takes the mark of a link that may end its chain early: a question mark and a point, which no digit
may follow. -/
private def eatChainMark : Parse Bool := do
  if (← atSign "?") && (← peek).1.isSign "." then
    advance
    advance
    return true
  return false

/-- A member, call or tagged template after a base that starts at the given position, where `types` are
type arguments in between. -/
private def plainLink? (start : Nat) (noCall noComputed : Bool) (base : Base)
    (types : Option (List Node)) : Parse (Option Step) := do
  let next (node : Node) : Option Step := some ⟨.expression node, true⟩
  let optional ← match base with
    | .expression _ => eatChainMark
    | _ => pure false
  if (← atSign "[") && (optional || !noComputed) then
    advance
    let key ← within ({ · with allowsIn := true }) (rules .expression)
    expectSign "]"
    checkParent base
    let form := if base.inChain optional then Form.optional else .property
    return next (instantiated (parts form (base.nodes ++ [key])) types)
  let isLoader := match base with
    | .loader => true
    | _ => false
  if (← atSign "(") && (optional || isLoader || !noCall) then
    let given ← argumentsOf rules base
    return next (withTypes (← callOf start base optional given) (types.getD []))
  if optional && (← hasTypes) && (← atSign "<") then
    let types ← typeArguments rules
    let given ← arguments rules
    return next (parts .optional (base.nodes ++ given ++ types))
  if optional then return next (instantiated (← namedMember base true) types)
  let pointed ← if isLoader then pure false else eatSign "."
  if pointed then return next (instantiated (← namedMember base false) types)
  match base with
  | .expression node =>
    if ← atSign "`" then return next (parts .tagged [node, ← templateLiteral rules true])
    return types.map fun _ => ⟨.expression (instantiated node types), false⟩
  | _ => stuck

private def link? (start : Nat) (noCall noComputed : Bool) (base : Base) : Parse (Option Step) := do
  if ← atPresenceMark then
    match base with
    | .expression node =>
      advance
      return some ⟨.expression (parts .nonNull [node]), true⟩
    | _ => stuck
  if (← hasTypes) && (← atSign "<") then
    if let some step ← genericLink? rules start noCall base then return some step
  plainLink? rules start noCall noComputed base (← instantiation? rules)

def links (start : Nat) (noCall noComputed : Bool) (base : Base) : Parse Node := do
  let advanceFrom : Step → Parse (Option Step) := fun step => do
    if step.continues then link? rules start noCall noComputed step.base else return none
  match (← iterate advanceFrom ⟨base, true⟩).base with
  | .expression node => return node
  | _ => stuck

private def decoratorCall (start : Nat) (expression : Node) : Parse Node := do
  let typed := (← hasTypes) && (← atSign "<")
  let types ← if typed then typeArguments rules else pure []
  if typed || (← atSign "(") then
    let given ← arguments rules
    return withTypes (.call ⟨start, (← get).lastStop⟩ expression given) types
  return expression

/-- The rule of decorators. A decorator is an expression in parentheses or a name with members and
calls; an expression may have arguments. -/
def decoratorRule : Parse Node := do
  let start ← here
  expectSign "@"
  let outer ← here
  if ← eatSign "(" then
    let inner ← here
    let expression ← rules .expression
    expectSign ")"
    return .decorator start (← decoratorCall rules inner expression)
  match ← current with
  | .word name _ =>
    takeName
    let expression ← links rules outer false true (.expression (.name name))
    return .decorator start (← decoratorCall rules outer expression)
  | _ => stuck

end Phrasebook.Script.Grammar
