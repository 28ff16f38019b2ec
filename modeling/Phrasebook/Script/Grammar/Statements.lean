import Phrasebook.Script.Grammar.Expressions

/-!
Statements and declarations, those of types included.
-/

set_option autoImplicit false

namespace Phrasebook.Script.Grammar

variable (rules : Rules)

private def fullExpression : Parse Node := within ({ · with allowsIn := true }) (rules .expression)

/-- Statements in braces; the last brace may be missing at the end of the script. -/
private def bracedItems : Parse (List Node) := do
  expectSign Token.openBrace
  let found ← collect do
    if (← atSign Token.closeBrace) || (← current) == .done then return none
    return some (← rules .item)
  unless (← current) == .done do expectSign Token.closeBrace
  return found

def blockRule : Parse Node :=
  within ({ · with topLevel := false }) do return parts .statement (← bracedItems rules)

private inductive Scope
  | function
  | block
  | constant
  deriving DecidableEq

private def takeScope : Parse Scope := do
  if ← eatWord "const" then return .constant
  if ← eatWord "let" then return .block
  expectWord "var"
  return .function

/-- A declared variable with its type and value. Only a plain name may lack a value. -/
private def declarator (scope : Scope) (inHead : Bool) : Parse Node := do
  if scope != .function && (← atWord "let") then stuck
  let plain := (← current).isAnyWord
  let pattern ← rules .binding
  if plain then discard (eatTypedSign "!")
  let type ← annotation rules
  if inHead && (← atAnyWord ["in", "of"]) then return parts .pattern (pattern :: type)
  if ← eatSign "=" then return parts .pattern ([pattern] ++ type ++ [← rules .assignment])
  if !plain && !(← read).ambient && !(scope == .constant && !inHead) then stuck
  return parts .pattern (pattern :: type)

/-- Declared variables with commas between them; a semicolon may follow the last comma. -/
private def declarators (scope : Scope) (inHead : Bool) : Parse (List Node) := do
  let step : List Node × Bool → Parse (Option (List Node × Bool)) := fun (found, finished) => do
    if finished || (← atSign ";") then return none
    let next ← declarator rules scope inHead
    return some (next :: found, !(← eatSign ","))
  return (← iterate step ([], false)).1.reverse

/-- Moves on to where a statement can end, after something that does not belong there. -/
private def skipToEnd : Parse Unit := do
  try discard (rules .expression) catch _ => pure ()
  discard <| collect do
    if ← eatEnd then return none
    advance
    if (← current) == .invalid then return none
    return some ()

def variableDeclaration : Parse Node := do
  let scope ← takeScope
  let found ← within ({ · with allowsIn := true }) (declarators rules scope false)
  unless ← eatEnd do skipToEnd rules
  return parts .statement found

def letDeclares : Parse Bool := do
  match (← peek).1 with
  | .sign symbol => return symbol == "[" || symbol == Token.openBrace
  | next => return next.isDeclarable

private def usingDeclares : Parse Bool := do
  let (next, newline) ← peek
  return next.isReference && !newline

private def usingDeclaration : Parse Node := do
  advance
  let found ← declarators rules .function false
  expectEnd
  return parts .statement found

/-- What begins with the words `await using`: a declaration, or an awaited value after which anything can
follow. -/
private def awaitUsing : Parse Node := do
  advance
  if ← usingDeclares then return ← usingDeclaration rules
  let awaited := parts .await [← rules .unary]
  let found ← within ({ · with allowsIn := true }) (operatorsAfter rules 0 awaited)
  discard eatEnd
  return parts .statement [found]

/-- An interface after its keyword. What follows the types that it builds on is skipped if it names
more of them. -/
def interfaceTail : Parse Node := do
  discard takeWord
  let generic ← typeParametersHere rules
  let parents ← if ← eatWord "extends" then heritageTypes rules else pure []
  if ← atWord "extends" then
    discard <| collect do
      if (← current) == .done || (← atSign Token.openBrace) then return none
      advance
      return some ()
  let members ← typeMembers rules
  return parts .statement (generic ++ parents ++ members)

private def aliasTail : Parse Node := do
  discard takeWord
  let generic ← typeParametersHere rules
  expectSign "="
  let found ← typeParts rules
  expectEnd
  return parts .statement (generic ++ found)

/-- The name of a member of an enumeration. A computed one counts for nothing. -/
private def enumKey : Parse Unit := do
  match ← current with
  | .word _ _ => advance
  | .text _ => advance
  | .number => advance
  | .sign "[" =>
    advance
    discard (rules .expression)
    expectSign "]"
  | _ => stuck

/-- The value of a member of an enumeration. Two tokens that should be a comma and are none count as
one. -/
private def enumMember : Parse (List Node) := do
  enumKey rules
  if ← eatSign "=" then return [← rules .assignment]
  unless ← atAnySign [",", Token.closeBrace] do
    advance
    replaceBy ","
  return []

/-- An enumeration after its keyword. Commas between its members may be missing. -/
def enumTail : Parse Node := do
  discard takeWord
  expectSign Token.openBrace
  let found ← collect do
    if ← atSign Token.closeBrace then return none
    let found ← enumMember rules
    discard (eatSign ",")
    return some found
  expectSign Token.closeBrace
  return parts .statement found.flatten

private def namespaceBlock : Parse Node :=
  within ({ · with topLevel := true }) do return parts .statement (← bracedItems rules)

private def namespaceTail : Parse Node := do
  discard takeWord
  discard <| collect do
    if ← eatSign "." then return some (← takeWord)
    return none
  namespaceBlock rules

private def ambientModule : Parse Node := do
  match ← current with
  | .text _ => advance
  | _ => expectWord "global"
  if ← atSign Token.openBrace then namespaceBlock rules
  else
    expectEnd
    return parts .statement []

/-- The declaration that a word announces. `certain` says that the word is still the current token
and must be part of a declaration. -/
private def announced (start : Nat) (found : List Node) (word : String) (certain : Bool) :
    Parse (Option Node) := do
  let takes : Parse Unit := do if certain then advance
  let named : Parse Bool := return certain || (← current).isReference
  let sameLine : Parse Bool := return certain || !(← afterNewline)
  if word == "abstract" then
    if certain || ((← atWord "class") && !(← afterNewline)) then
      takes
      return some (← classTail rules start found true)
    return none
  if word == "enum" && (← named) then
    takes
    return some (← enumTail rules)
  if word == "interface" && (← named) then
    takes
    return some (← interfaceTail rules)
  if word == "module" && (← sameLine) then
    takes
    match ← current with
    | .text _ => return some (← ambientModule rules)
    | _ =>
      unless ← named do return none
      return some (← namespaceTail rules)
  if word == "namespace" && (← named) then
    takes
    return some (← namespaceTail rules)
  if word == "type" && (← named) && (← sameLine) then
    takes
    return some (← aliasTail rules)
  return none

def ambientDeclaration? (start : Nat) (found : List Node) : Parse (Option Node) :=
  within ({ · with ambient := true }) do
    if ← eatWord "function" then return some (← functionAfterWord rules found .declared false)
    if ← atWord "class" then return some (← classTail rules start found true)
    if (← atWord "const") && (← peek).1.isWord "enum" then
      advance
      advance
      return some (← enumTail rules)
    if ← atAnyWord ["const", "var", "let"] then return some (← variableDeclaration rules)
    if ← atWord "global" then return some (← ambientModule rules)
    match ← current with
    | .word name _ => announced rules start found name true
    | _ => return none

def exportedDeclaration? (start : Nat) (found : List Node) : Parse (Option Node) := do
  match ← current with
  | .word name _ => attempt (announced rules start found name true)
  | _ => return none

/-- The declaration that a name, which is taken already, turns out to announce. -/
private def declarationAfter? (start : Nat) (found : List Node) (name : String) :
    Parse (Option Node) := do
  let early ← if name == "declare" then ambientDeclaration? rules start found
    else if name == "global" && (← atSign Token.openBrace) then some <$> namespaceBlock rules
    else announced rules start found name false
  if early.isSome then return early
  if ["static", "abstract"].contains name then
    if ← eatWord "interface" then return some (← interfaceTail rules)
  return none

private def parenthesizedTest : Parse Node := do
  expectSign "("
  let test ← fullExpression rules
  expectSign ")"
  return test

private def body : Parse Node := rules (.statement false)

private def ifStatement : Parse Node := do
  advance
  let test ← parenthesizedTest rules
  let whenTrue ← body rules
  if ← eatWord "else" then return parts .statement [test, whenTrue, ← body rules]
  return parts .statement [test, whenTrue]

private def doStatement : Parse Node := do
  advance
  let repeated ← body rules
  expectWord "while"
  let test ← parenthesizedTest rules
  discard (eatSign ";")
  return .doWhile repeated test

private def whileStatement : Parse Node := do
  advance
  let test ← parenthesizedTest rules
  return parts .statement [test, ← body rules]

/-- A branch of a choice between values, and whether it is the branch for all others. -/
private def caseClause : Parse (Node × Bool) := do
  let others ← eatWord "default"
  let test ← if others then pure []
    else do
      expectWord "case"
      pure [← fullExpression rules]
  expectSign ":"
  let found ← collect do
    if (← atAnyWord ["case", "default"]) || (← atSign Token.closeBrace) then return none
    return some (← rules .item)
  return (parts .statement (test ++ found), others)

private def switchStatement : Parse Node := do
  advance
  let subject ← parenthesizedTest rules
  within ({ · with topLevel := false }) do
    expectSign Token.openBrace
    let clauses ← collect do
      if ← atAnyWord ["case", "default"] then return some (← caseClause rules)
      return none
    expectSign Token.closeBrace
    if clauses.countP (·.2) > 1 then stuck
    return parts .statement (subject :: clauses.map (·.1))

private def catchClause : Parse (List Node) := do
  unless ← eatWord "catch" do return []
  let caught ← if ← eatSign "(" then do
      let pattern ← rules .binding
      let type ← annotation rules
      expectSign ")"
      pure (pattern :: type)
    else pure []
  return caught ++ [← rules .block]

private def finallyClause : Parse (List Node) := do
  if ← eatWord "finally" then return [← rules .block]
  return []

private def tryStatement : Parse Node := do
  advance
  let guarded ← rules .block
  let caught ← catchClause rules
  return parts .statement (guarded :: caught ++ (← finallyClause rules))

/-- What should follow a block and follows none: it counts for nothing, as far as it can be read. -/
private def strayClause : Parse Node := do
  try discard (catchClause rules) catch _ => pure ()
  try discard (finallyClause rules) catch _ => pure ()
  return parts .statement []

private def returnStatement : Parse Node := do
  advance
  if ← eatEnd then return parts .statement []
  let value ← fullExpression rules
  expectEnd
  return parts .statement [value]

private def throwStatement : Parse Node := do
  advance
  if ← afterNewline then stuck
  let value ← fullExpression rules
  expectEnd
  return parts .statement [value]

private def jumpStatement : Parse Node := do
  advance
  unless ← eatEnd do
    takeName
    expectEnd
  return parts .statement []

private structure Head where
  nodes : List Node
  isEach : Bool := false

private def eachHead (target : Node) : Parse Head := do
  if ← eatWord "of" then
    return ⟨[target, ← listedValue rules], true⟩
  expectWord "in"
  return ⟨[target, ← fullExpression rules], false⟩

private def countingHead (first : List Node) : Parse Head := do
  let test ← if ← atSign ";" then pure [] else pure [← fullExpression rules]
  expectSign ";"
  let change ← if ← atSign ")" then pure [] else pure [← fullExpression rules]
  return ⟨first ++ test ++ change, false⟩

/-- Whether an expression is the beginning of a declaration that only scripts with types have. -/
private def beginsUsing : Node → Bool
  | .name "using" => true
  | .group .await [.name "using"] => true
  | _ => false

private def expressionHead : Parse Head := do
  let first ← within ({ · with allowsIn := false }) (rules .expression)
  if (← hasTypes) && beginsUsing first && (← current).isReference && !(← atWord "of") then
    takeName
    return ← eachHead rules Node.leaf
  if ← atAnyWord ["of", "in"] then
    match toPattern? .assigned first with
    | some pattern => return ← eachHead rules pattern
    | none => stuck
  expectSign ";"
  countingHead rules [first]

/-- Whether the values of a loop follow at once, where a declared variable should stand. -/
private def lacksVariable : Parse Bool := do
  unless (← hasTypes) && (← atAnyWord ["of", "in"]) do return false
  lookAhead do
    advance
    discard (rules .assignment)
    atSign ")"

private def declaringHead : Parse Head := do
  let scope ← takeScope
  let allowIn : Context → Context := fun context =>
    { context with allowsIn := context.allowsIn || scope != .function }
  let found ← if ← lacksVariable rules then pure []
    else within allowIn (declarators rules scope true)
  if ← atAnyWord ["of", "in"] then return ← eachHead rules (parts .statement found)
  expectSign ";"
  countingHead rules found

private def loopHead : Parse Head := within ({ · with loopHead := true }) do
  if (← atAnyWord ["const", "var"]) || ((← atWord "let") && (← letDeclares)) then
    declaringHead rules
  else if ← eatSign ";" then countingHead rules []
  else expressionHead rules

private def forStatement : Parse Node := do
  advance
  let waits ← eatWord "await"
  expectSign "("
  let head ← loopHead rules
  expectSign ")"
  if waits && !head.isEach then stuck
  return parts .statement (head.nodes ++ [← body rules])

private def keywordStatement? : Parse (Option Node) := do
  match ← current with
  | .word _ (some name) =>
    if name == "if" then return some (← ifStatement rules)
    if name == "for" then return some (← forStatement rules)
    if name == "return" then return some (← returnStatement rules)
    if name == "do" then return some (← doStatement rules)
    if name == "while" || name == "with" then return some (← whileStatement rules)
    if name == "switch" then return some (← switchStatement rules)
    if name == "try" then return some (← tryStatement rules)
    if name == "throw" then return some (← throwStatement rules)
    if name == "break" || name == "continue" then return some (← jumpStatement)
    if name == "catch" || name == "finally" then return some (← strayClause rules)
    if name == "debugger" then
      advance
      expectEnd
      return some (parts .statement [])
    return none
  | _ => return none

private def keywordDeclaration? (start : Nat) (found : List Node) : Parse (Option Node) := do
  let (next, newline) ← peek
  if ← eatWord "function" then return some (← functionAfterWord rules found .declared false)
  if ← atWord "class" then return some (← classTail rules start found true)
  if (← atWord "async") && next.isWord "function" && !newline then
    advance
    advance
    return some (← functionAfterWord rules found .declared true)
  unless ← hasTypes do return none
  if (← atWord "const") && next.isWord "enum" then
    advance
    advance
    return some (← enumTail rules)
  if next.isAnyWord && !newline then
    if ← eatWord "interface" then return some (← interfaceTail rules)
    if ← eatWord "enum" then return some (← enumTail rules)
    if ← eatWord "type" then return some (← aliasTail rules)
  return none

private def variableStatement? (declarations : Bool) : Parse (Option Node) := do
  if ← atWord "var" then return some (← variableDeclaration rules)
  unless declarations do return none
  if (← atWord "const") || ((← atWord "let") && (← letDeclares)) then
    return some (← variableDeclaration rules)
  if (← atWord "using") && (← usingDeclares) then return some (← usingDeclaration rules)
  if (← atWord "await") && (← peek).1.isWord "using" then return some (← awaitUsing rules)
  return none

/-- A statement that begins with an expression: the expression itself, a labelled statement, or a
declaration that a name announces. An operator can follow an arrow function here. -/
private def expressionStatement (start : Nat) (found : List Node) : Parse Node := do
  let expression ← fullExpression rules
  match expression with
  | .name text =>
    if ← eatSign ":" then return parts .statement [← body rules]
    if ← hasTypes then
      if let some declared ← declarationAfter? rules start found text then return declared
  | _ => pure ()
  if ← eatEnd then return parts .statement [expression]
  unless ← atOperatorSign do stuck
  return parts .statement [← operatorsAfter rules 0 expression]

/-- A statement that begins with an import as an expression, if it does; it may end anywhere. -/
private def importStatement? : Parse (Option Node) := do
  unless ← atWord "import" do return none
  let (next, _) ← peek
  unless next.isSign "(" || next.isSign "." do return none
  let expression ← rules .expression
  discard eatEnd
  return some (parts .statement [expression])

def statementTail (start : Nat) (found : List Node) (declarations : Bool) : Parse Node :=
  within ({ · with expectsColon := false }) do
    if let some expression ← importStatement? rules then return expression
    if let some statement ← keywordStatement? rules then return statement
    if let some declared ← keywordDeclaration? rules start found then return declared
    if let some declared ← variableStatement? rules declarations then return declared
    if ← atSign Token.openBrace then return ← rules .block
    if ← eatSign ";" then return parts .statement []
    expressionStatement rules start found

def statementRule (declarations : Bool) : Parse Node := do
  let start ← here
  statementTail rules start (← decorators rules) declarations

end Phrasebook.Script.Grammar
