import Phrasebook.Script.Grammar.Classes
import Phrasebook.Script.Grammar.Elements

/-!
Expressions: operands, operators, conditions and assignments. An expression in parentheses may turn
out to be the parameters of an arrow function.
-/

set_option autoImplicit false

namespace Phrasebook.Script.Grammar

variable (rules : Rules)

/-- The current sign; one that begins with an angle bracket is taken as long as it can be. -/
private def wholeSign : Parse String := do
  match ← current with
  | .sign symbol =>
    if symbol == "<" || symbol == ">" then
      return ((Lexer.bracketSign? (← read).source ((← get).stop - 1)).map (·.1)).getD symbol
    return symbol
  | _ => return ""

private def advancePast (symbol : String) : Parse Unit := do
  if ← atAnySign ["<", ">"] then
    modify fun state => { state with stop := state.stop - 1 + symbol.length }
  advance

def strength? (operator : String) : Option Nat :=
  if ["||", "??"].contains operator then some 1
  else if operator == "&&" then some 2
  else if operator == "|" then some 3
  else if operator == "^" then some 4
  else if operator == "&" then some 5
  else if ["==", "!=", "===", "!=="].contains operator then some 6
  else if ["<", ">", "<=", ">=", "in", "instanceof"].contains operator then some 7
  else if ["<<", ">>", ">>>"].contains operator then some 8
  else if ["+", "-"].contains operator then some 9
  else if ["*", "/", "%"].contains operator then some 10
  else if operator == "**" then some 11
  else none

private def typeStrength : Nat := 7

private def operator? : Parse (Option (String × Nat)) := do
  match ← current with
  | .sign _ =>
    let symbol ← wholeSign
    return (strength? symbol).map (symbol, ·)
  | .word _ (some name) =>
    if name == "instanceof" || (name == "in" && (← read).allowsIn) then
      return (strength? name).map (name, ·)
    return none
  | _ => return none

def atOperatorSign : Parse Bool := do
  match ← current with
  | .sign _ => return (← operator?).isSome
  | _ => return false

private def typedBy (node : Node) : Parse Node := do
  let narrows ← atWord "as"
  advance
  if narrows then
    if ← eatWord "const" then return parts .narrowed [node]
  return parts .typed (node :: (← typeParts rules))

/-- An operand on the left with the operators after it that bind more strongly than `strength`. -/
def operatorsAfter (strength : Nat) : Node → Parse Node :=
  iterate fun left => do
    let typed := (← hasTypes) && !(← afterNewline) && strength < typeStrength
    if typed && (← atAnyWord ["as", "satisfies"]) then return some (← typedBy rules left)
    match ← operator? with
    | none => return none
    | some (symbol, found) =>
      if found ≤ strength then return none
      if symbol == "**" && (left.hasForm .unary || left.hasForm .await) then stuck
      advancePast symbol
      let right ← rules (.operand (if symbol == "**" then found - 1 else found))
      return some (parts .binary [left, right])

/-- The rule of operands with operators. At the start of an expression the left operand of an
operator may be missing. -/
def operandRule (strength : Nat) : Parse Node := do
  let left ← try rules .unary catch _ =>
    if strength == 0 && (← operator?).isSome then pure Node.missing else stuck
  if left.hasForm .arrow then return left
  operatorsAfter rules strength left

private def compoundOperators : List String :=
  ["+=", "-=", "*=", "/=", "%=", "**=", "&=", "|=", "^=", "&&=", "||=", "??=", "<<=", ">>=", ">>>="]

private def assignmentAfter (target : Node) : Parse Node := do
  let symbol ← wholeSign
  if symbol == "=" then
    match toPattern? .assigned target with
    | none => stuck
    | some pattern =>
      unless pattern.hasForm .pattern || pattern.isTarget do stuck
      advance
      return parts .assignment [pattern, ← rules .assignment]
  else if compoundOperators.contains symbol then
    unless target.isTarget do stuck
    advancePast symbol
    return parts .compoundAssignment [target, ← rules .assignment]
  else return target

private def branches (test : Node) : Parse Node := do
  let whenTrue ← within
    ({ · with inConditional := true, expectsColon := true, allowsIn := true }) (rules .assignment)
  expectSign ":"
  let whenFalse ← within
    ({ · with inConditional := true, expectsColon := false }) (rules .assignment)
  return parts .conditional [test, whenTrue, whenFalse]

private def atYielded : Parse Bool := do
  if ← atEnd then return false
  match ← current with
  | .word _ _ => atOpeningWord
  | .sign symbol => return ("*" :: openingSigns).contains symbol
  | .number => return true
  | .bigNumber => return true
  | .text _ => return true
  | _ => return false

private def yielded : Parse Node := do
  expectWord "yield"
  let context ← read
  if context.inParameters && !context.inFunction then stuck
  unless ← atYielded do return parts .yield []
  discard (eatSign "*")
  return parts .yield [← rules .assignment]

private def opensArrow : Token → Bool
  | .sign symbol => symbol == "("
  | .word _ none => true
  | .word _ (some name) => Token.contextualWords.contains name || name == "yield"
  | _ => false

/-- An assignment, a conditional expression, or what one of these consists of. -/
private def plainAssignment : Parse Node := do
  if (← read).generator && (← atWord "yield") then return ← yielded rules
  let token ← current
  if token == .invalid then
    advance
    stuck
  let start ← here
  modify ({ · with arrowStart := if opensArrow token then some start else none })
  let left ← rules (.operand 0)
  if left.hasForm .arrow then return left
  if ← eatSign "?" then return ← branches rules left
  if [Form.binary, .unary, .update].any left.hasForm then return left
  assignmentAfter rules left

private def arrowNode (given : List Node) (body : Node) (generic result : List Node) : Node :=
  parts .arrow [parts .pattern given, body, parts .typed generic, parts .typed result]

/-- Whether a bracket can only open type parameters, even in scripts with elements. -/
private def opensTypeParameters : Parse Bool := lookAhead do
  expectSign "<"
  discard takeWord
  return (← atSign ",") || (← atWord "extends")

private def genericArrow? : Parse (Option Node) := attempt do
  let generic ← typeParameters rules
  match ← plainAssignment rules with
  | .group .arrow [given, body, _, result] =>
    return some (.group .arrow [given, body, parts .typed generic, result])
  | _ => return none

def assignmentRule : Parse Node := do
  if (← hasTypes) && (← atSign "<") then
    let elements ← hasElements
    if elements then
      if let some found ← attempt (some <$> plainAssignment rules) then return found
    let opens ← if elements then opensTypeParameters else pure (← peek).1.isAnyWord
    if opens then
      if let some found ← genericArrow? rules then return found
  plainAssignment rules

def expressionRule : Parse Node := do
  let first ← rules .assignment
  unless ← atSign "," do return first
  let others ← collect do
    if ← eatSign "," then return some (← rules .assignment)
    return none
  return parts .sequence (first :: others)

/-- What stands between commas in parentheses. -/
private structure Item where
  node : Node
  spread : Bool
  isParameter : Bool
  isName : Bool

private def Item.ofValue (node : Node) (spread : Bool) : Item :=
  let isName := match node with
    | .name _ => true
    | _ => false
  ⟨node, spread, false, isName⟩

/-- An item up to its question mark or type. In scripts with types the first operand of a condition
may as well be an optional parameter. -/
private def itemStart : Parse (Node × Bool) := do
  let token ← current
  let named := token.isReference || (token.isSign "..." && (← peek).1.isReference)
  let typed ← hasTypes
  let spread ← eatSign "..."
  unless typed && named do return (← rules .assignment, spread)
  let node ← rules (.operand 0)
  if spread || node.hasForm .arrow then return (node, spread)
  return (← assignmentAfter rules node, spread)

/-- An item with its type and default value, which only parameters have. -/
private def itemEnd (node : Node) (spread optional : Bool) : Parse Item := do
  unless optional || ((← hasTypes) && (← atSign ":")) do return .ofValue node spread
  match toPattern? .declared node with
  | none => stuck
  | some pattern =>
    let type ← if pattern.hasForm .missing then pure [] else annotation rules
    let value ← if ← eatSign "=" then pure [← rules .assignment] else pure []
    let bare := value.isEmpty
    return {
      node := parts .pattern (pattern :: type ++ value)
      spread := spread && bare
      isParameter := true
      isName := (Item.ofValue pattern false).isName && bare && !spread }

private def item : Parse Item := do
  let start ← here
  modify ({ · with arrowStart := some start })
  eatParameterModifier
  let (node, spread) ← itemStart rules
  if (← hasTypes) && (← atSign "?") then
    let (next, _) ← peek
    if [",", ":", ")", "="].any next.isSign then
      match node with
      | .name _ =>
        advance
        return ← itemEnd rules node spread true
      | _ => stuck
    if !spread then
      advance
      return ← itemEnd rules (← branches rules node) spread false
  itemEnd rules node spread false

/-- The parameters that items stand for. Only the last one may take several values. -/
private def toParameters? : List Item → Option (List Node)
  | [] => some []
  | [last] => do
    if last.isParameter then return [last.node]
    return [← toPattern? .declared last.node]
  | first :: rest => do
    if first.spread then toParameters? rest
    else if first.isParameter then return first.node :: (← toParameters? rest)
    else return (← toPattern? .declared first.node) :: (← toParameters? rest)

private def arrowOf (items : List Item) (result : List Node) (asynchronous : Bool) : Parse Node := do
  match toParameters? items with
  | none => stuck
  | some given => return arrowNode given (← arrowBody rules asynchronous) [] result

/-- The items in parentheses. An arrow among them makes one more item of those before it if the first
of them is a name, and counts for nothing otherwise. -/
private def items : Parse (List Item) := do
  expectSign "("
  let step : List Item × Bool → Parse (Option (List Item × Bool)) := fun (found, finished) => do
    if finished || (← atSign ")") then return none
    let found := found ++ [← item rules]
    let found ← if (← eatSign "=>") && (found.head?.map (·.isName)).getD false then
        pure (found ++ [.ofValue (← arrowOf rules found [] false) false])
      else pure found
    if ← eatSign "," then return some (found, false)
    return some (found, true)
  let (found, _) ← iterate step ([], false)
  expectSign ")"
  return found

/-- An arrow function from its arrow on. An operator after a body in braces takes it for an operand. -/
private def arrowAfter (items : List Item) (result : List Node) (asynchronous : Bool) : Parse Node := do
  expectSign "=>"
  let braced ← atSign Token.openBrace
  let arrow ← arrowOf rules items result asynchronous
  if braced && (← atOperatorSign) then operatorsAfter rules 0 arrow else return arrow

private def arrowInBranch? (items : List Item) (asynchronous : Bool) : Parse (Option Node) :=
  attempt do
    let result ← resultType rules ":"
    expectSign "=>"
    let arrow ← arrowOf rules items result asynchronous
    if (← read).expectsColon && !(← atSign ":") then return none
    return some arrow

private def arrowResult? : Parse (Option (List Node)) := attempt do
  let result ← resultType rules ":"
  if ← atSign "=>" then return some result else return none

private def parenthesized (items : List Item) : Parse Node := do
  if items.any (·.spread) then stuck
  match items.map (·.node) with
  | [] => stuck
  | [only] => return .paren only
  | nodes => return .paren (parts .sequence nodes)

/-- An expression in parentheses, an arrow function, or a call of the name `async`, whose position
is given in that case. -/
private def parentheses (canBeArrow : Bool) (asyncStart : Option Nat) : Parse Node := do
  let items ← within ({ · with allowsIn := true, expectsColon := false }) (items rules)
  let context ← read
  let colon := context.dialect.types && (← atSign ":")
  if colon && context.inConditional then
    if let some arrow ← arrowInBranch? rules items asyncStart.isSome then return arrow
  let result ← if colon && !context.expectsColon then arrowResult? rules else pure none
  if result.isSome || items.any (·.isParameter) || (← atSign "=>") then
    if (← afterNewline) || !canBeArrow then stuck
    return ← arrowAfter rules items (result.getD []) asyncStart.isSome
  match asyncStart with
  | some start =>
    let given := items.map fun found => if found.spread then .spread found.node else found.node
    return .call ⟨start, (← get).lastStop⟩ (.name "async") given
  | none => parenthesized items

private def regularExpression (symbol : String) : Parse Node := do
  match Lexer.regularExpression? (← read).source ((← get).stop - symbol.length) with
  | none => stuck
  | some stop =>
    modify ({ · with token := .number, stop })
    advance
    return Node.leaf

private def genericAsyncArrow? : Parse (Option Node) := attempt do
  advance
  let generic ← typeParameters rules
  expectSign "("
  let given ← formalParameters rules
  expectSign ")"
  let result ← resultTypeHere rules
  expectSign "=>"
  return some (arrowNode (given.map (·.node)) (← arrowBody rules true) generic result)

private def asyncFunction? (canBeArrow : Bool) : Parse (Option Node) := do
  let start ← here
  let (next, newline) ← peek
  if next.isWord "function" && !newline then
    advance
    advance
    return some (← functionAfterWord rules [] .expression true)
  if canBeArrow && (← hasTypes) && next.isSign "<" then
    if let some found ← genericAsyncArrow? rules then return some found
  if canBeArrow && next.isSign "(" && !newline then
    advance
    return some (← parentheses rules canBeArrow (some start))
  return none

private def arrowOfName (asynchronous : Bool) : Parse Node := do
  expectSign "=>"
  return arrowNode [Node.leaf] (← arrowBody rules asynchronous) [] []

private def reference (canBeArrow : Bool) (name : String) : Parse Node := do
  advance
  if !canBeArrow || (← afterNewline) then return .name name
  if name == "async" && (← current).isReference then
    if (← read).loopHead && (← atWord "of") && !(← peek).1.isSign "=>" then return .name name
    let joins ← atWord "as"
    takeName
    if joins && (← hasTypes) && !(← atSign "=>") then
      return parts .typed (.name name :: (← typeParts rules))
    return ← arrowOfName rules true
  if ← atSign "=>" then arrowOfName rules false else return .name name

private def wordOperand (token : Token) (name : String) (canBeArrow : Bool) : Parse Node := do
  if token.isWord "this" then
    advance
    return parts .receiver []
  if ["null", "true", "false"].any token.isWord then
    advance
    return Node.leaf
  if token.isWord "function" then
    advance
    return ← functionAfterWord rules [] .expression false
  if token.isWord "class" then return ← classTail rules (← here) [] false
  if token.isWord "async" then
    if let some found ← asyncFunction? rules canBeArrow then return found
  if token.isReference || token.isWord "let" then reference rules canBeArrow name else stuck

/-- A class after its decorators, which count for nothing before a name. -/
private def decorated : Parse Node := do
  let start ← here
  let found ← decorators rules
  if ← atWord "class" then return ← classTail rules start found false
  match ← current with
  | .word name _ =>
    if (← current).isReference || (← atWord "let") then reference rules false name else stuck
  | _ => stuck

private def primary : Parse Node := do
  let start ← here
  let canBeArrow := (← get).arrowStart == some start
  match ← current with
  | .number =>
    advance
    return Node.leaf
  | .bigNumber =>
    advance
    return Node.leaf
  | .text value =>
    advance
    return .text value start
  | .word name special => wordOperand rules (.word name special) name canBeArrow
  | .sign symbol =>
    if symbol == "[" then arrayLiteral rules
    else if symbol == Token.openBrace then rules .object
    else if symbol == "(" then parentheses rules canBeArrow none
    else if symbol == "`" then templateLiteral rules false
    else if symbol == "/" || symbol == "/=" then regularExpression symbol
    else if symbol == "@" then decorated rules
    else if symbol == "#" then
      advance
      discard takeWord
      return Node.leaf
    else stuck
  | _ => stuck

private def importExpression (noCall : Bool) : Parse Node := do
  let start ← here
  expectWord "import"
  if ← eatSign "." then
    let word ← takeWord
    if word == "meta" then links rules start noCall false (.expression Node.leaf)
    else if word == "defer" || word == "source" then links rules start noCall false .loader
    else stuck
  else links rules start noCall false .loader

/-- Type arguments that the arguments of a call follow, read under the given change. -/
private def callTypes (change : Context → Context) : Parse (List Node) := do
  unless (← hasTypes) && (← atSign "<") do return []
  let found ← attempt do
    let found ← within change (typeArguments rules)
    if ← atSign "(" then return some found else return none
  return found.getD []

/-- A new object, or the constructor that made the current one. Without arguments nothing can follow a
new object. -/
private def creation : Parse Node := do
  let start ← here
  expectWord "new"
  if ← eatSign "." then
    expectWord "target"
    return ← links rules start true false (.expression Node.leaf)
  let callee ← rules .member
  if callee.hasForm .arrow then return callee
  if callee.hasForm .optional then stuck
  let types ← callTypes rules ({ · with wholeOperators := false })
  unless ← atSign "(" do return parts .creation [callee]
  let given ← arguments rules
  links rules start true false (.expression (parts .creation (callee :: given ++ types)))

def memberRule : Parse Node := within ({ · with wholeOperators := true }) do
  let start ← here
  if ← atWord "new" then creation rules
  else if ← eatWord "super" then links rules start true false .parent
  else if ← atWord "import" then importExpression rules true
  else
    let object ← primary rules
    if object.hasForm .arrow then return object
    match ← instantiation? rules with
    | some types => links rules start true false (.expression (parts .instantiation (object :: types)))
    | none => links rules start true false (.expression object)

def leftSideRule : Parse Node := do
  let start ← here
  if (← hasElements) && (← atSign "<") then return ← rules (.element false)
  if ← eatWord "super" then return ← links rules start false false .parent
  if ← atWord "import" then return ← importExpression rules false
  let callee ← rules .member
  if callee.hasForm .arrow then return callee
  let types ← callTypes rules id
  unless ← atSign "(" do return callee
  let given ← arguments rules
  let span : Span := ⟨start, (← get).lastStop⟩
  let called : Node :=
    if callee.isOptional then parts .optional (callee :: given) else .call span callee given
  links rules start false false (.expression (withTypes called types))

private def typeAssertion : Parse Node := do
  expectSign "<"
  if ← eatWord "const" then
    expectSign ">"
    return parts .narrowed [← rules .unary]
  let types ← typeParts rules
  closeAngle
  return parts .typed ((← rules .unary) :: types)

/-- An awaited value, or outside of asynchronous functions the word as a name. -/
private def awaited : Parse Node := do
  advance
  if ← atSign "*" then stuck
  let bare := (← atEnd) || (← atAnySign [")", "]", ","])
  if bare && !(← read).asynchronous then return .name "await"
  return parts .await [← rules .unary]

def unaryRule : Parse Node := do
  if ← atSign "<" then
    if ← hasElements then return ← rules (.element false)
    if ← hasTypes then return ← typeAssertion rules
  if ← atAnySign ["++", "--"] then
    advance
    return parts .update [← rules .unary]
  if (← atAnySign ["+", "-", "~", "!"]) || (← atAnyWord ["delete", "void", "typeof"]) then
    advance
    let operand ← try rules .unary catch _ => pure Node.missing
    return parts .unary [operand]
  if ← atWord "await" then return ← awaited rules
  let operand ← rules .leftSide
  if operand.hasForm .arrow || (← afterNewline) then return operand
  if ← atAnySign ["++", "--"] then
    advance
    return parts .update [operand]
  return operand

end Phrasebook.Script.Grammar
