import Phrasebook.Script.Grammar.Statements

/-!
Whole scripts: imports and exports, the items of a module, and the rules that call one another by name
tied together.
-/

set_option autoImplicit false

namespace Phrasebook.Script.Grammar

variable (rules : Rules)

private def atSomeWord : Parse Bool := return (← current).isAnyWord

private def atExportName : Parse Bool := do
  match ← current with
  | .text _ => return true
  | token => return token.isAnyWord

/-- The name of something exported: any word or a quoted string. The answer is the word. -/
private def exportName : Parse (Option String) := do
  match ← current with
  | .text _ =>
    advance
    return none
  | _ => return some (← takeWord)

/-- What follows the words `type as`, where each of these may be the name or say how it is meant. -/
private def afterTypeAs (takeOwn : Parse Unit) : Parse Unit := do
  unless ← atSomeWord do return
  let again ← atWord "as"
  takeOwn
  if again && (← atSomeWord) then takeOwn

/-- A name that is brought in or given out, possibly for types only and under another name. What is
brought in by a quoted name needs another one. -/
private def specifier (imported : Bool) : Parse Unit := do
  let takeOwn : Parse Unit := if imported then takeName else discard takeWord
  let first ← exportName
  let marked := (← hasTypes) && first == some "type" && (← atExportName)
  if marked then
    if ← eatWord "as" then return ← afterTypeAs takeOwn
  let name ← if marked then exportName else pure first
  if ← eatWord "as" then
    if imported then takeName else discard exportName
  else if imported && name.isNone then stuck

private def specifiers (imported : Bool) : Parse Unit := do
  expectSign Token.openBrace
  discard (commaList (atSign Token.closeBrace) (specifier imported))
  expectSign Token.closeBrace

private def moduleAttributes : Parse (List Node) := do
  unless (← hasTypes) && !(← afterNewline) do return []
  let asks ← if ← eatWord "with" then pure true else eatWord "assert"
  unless asks do return []
  return [← rules .object]

private def moduleText : Parse Node := do
  takeText
  let found ← moduleAttributes rules
  expectEnd
  return parts .statement found

private def fromModule : Parse Node := do
  expectWord "from"
  moduleText rules

private def importEquals : Parse Node := do
  expectSign "="
  if (← atWord "require") && (← peek).1.isSign "(" then
    advance
    expectSign "("
    takeText
    expectSign ")"
  else entityName false
  expectEnd
  return parts .statement []

/-- When an imported module runs. -/
private inductive Phase
  | usual
  | source
  | late
  deriving DecidableEq

private def importedParts (phase : Phase) : Parse Unit := do
  let takesAll ← if phase == .source then pure false else eatSign "*"
  if takesAll then
    expectWord "as"
    takeName
  else if phase == .usual && (← atSign Token.openBrace) then specifiers true

private def Phase.ofWord (word : String) : Phase :=
  if word == "source" then .source else if word == "defer" then .late else .usual

/-- The word that names the default of a module after `type`, if the word `type` does not. -/
private def typeDefault (word : String) : Parse String := do
  let from? ← atWord "from"
  let (next, _) ← peek
  if (← current).isReference && (!from? || next.isWord "from" || next.isSign "=") then takeWord
  else return word

/-- The rest of an import from the default of a module on, whose name is the given word or, if that
stands for the source of a module, may follow it. -/
private def importDefault (word : String) : Parse Node := do
  let mut phase := Phase.usual
  if word == "source" then
    if (← peek).1.isWord "from" || ((← current).isReference && !(← atWord "from")) then
      phase := .source
      takeName
  unless ← atWord "from" do expectSign ","
  importedParts phase
  fromModule rules

private def importAfterWord (first : String) : Parse Node := do
  let typed ← hasTypes
  let opensParts ← atAnySign [Token.openBrace, "*"]
  if typed && first == "type" && opensParts then
    importedParts .usual
    return ← fromModule rules
  let word ← if typed && first == "type" then typeDefault first else pure first
  if typed && (← atSign "=") then return ← importEquals
  if Phase.ofWord word != .usual && (← atAnySign [Token.openBrace, "*"]) then
    importedParts (.ofWord word)
    return ← fromModule rules
  importDefault rules word

private def importDeclaration : Parse Node := do
  expectWord "import"
  match ← current with
  | .text _ => moduleText rules
  | token =>
    if token.isReference then importAfterWord rules (← takeWord)
    else
      importedParts .usual
      fromModule rules

private def exportedDefault (found : List Node) : Parse Node := do
  let late ← decorators rules
  if !late.isEmpty && !found.isEmpty then stuck
  let found := found ++ late
  let start ← here
  let (next, newline) ← peek
  if ← hasTypes then
    if (← atWord "abstract") && next.isWord "class" && !newline then
      advance
      return ← classTail rules start found false
    if (← atWord "abstract") && next.isWord "interface" then advance
    if ← eatWord "interface" then return ← interfaceTail rules
  if ← atWord "class" then return ← classTail rules start found false
  if (← atWord "async") && next.isWord "function" && !newline then
    advance
    advance
    return ← functionAfterWord rules found .exported true
  if ← eatWord "function" then return ← functionAfterWord rules found .exported false
  let value ← listedValue rules
  expectEnd
  return parts .statement [value]

private def typedExport? (found : List Node) : Parse (Option Node) := do
  let start ← here
  if ← eatWord "declare" then
    if let some declared ← ambientDeclaration? rules start found then return some declared
  if let some declared ← exportedDeclaration? rules start found then return some declared
  if ← eatWord "import" then
    discard (eatWord "type")
    discard takeWord
    return some (← importEquals)
  if ← eatSign "=" then
    let value ← rules .expression
    expectEnd
    return some (parts .statement [value])
  if ← eatWord "as" then
    expectWord "namespace"
    takeName
    expectEnd
    return some (parts .statement [])
  return none

private def exportedNames : Parse Node := do
  if ← eatSign "*" then
    if ← eatWord "as" then discard exportName
    return ← fromModule rules
  specifiers false
  if ← atWord "from" then return ← fromModule rules
  discard eatEnd
  return parts .statement []

private def exportedPlain? (found : List Node) : Parse (Option Node) := do
  let start ← here
  let (next, newline) ← peek
  if ← atWord "class" then return some (← classTail rules start found true)
  if (← atWord "async") && next.isWord "function" && !newline then
    advance
    advance
    return some (← functionAfterWord rules found .declared true)
  if ← eatWord "function" then return some (← functionAfterWord rules found .declared false)
  if (← hasTypes) && (← atWord "const") && next.isWord "enum" then
    advance
    advance
    return some (← enumTail rules)
  if (← atAnyWord ["var", "const"]) || ((← atWord "let") && (← letDeclares)) then
    return some (← variableDeclaration rules)
  return none

private def exportDeclaration (found : List Node) : Parse Node := do
  expectWord "export"
  if ← hasTypes then
    if let some declared ← typedExport? rules found then return declared
  let typesOnly ← eatTypedWord "type"
  unless typesOnly do
    if ← eatWord "default" then return ← exportedDefault rules found
  let late ← decorators rules
  if !late.isEmpty && !found.isEmpty then stuck
  unless typesOnly do
    if let some declared ← exportedPlain? rules (found ++ late) then return declared
  exportedNames rules

/-- The rule of items: statements, and imports and exports where these are allowed. Without types a
decorator cannot stand before an export. -/
def itemRule : Parse Node := do
  let start ← here
  let found ← decorators rules
  if (← read).topLevel then
    if ← atWord "export" then
      if !found.isEmpty && !(← hasTypes) then stuck
      return ← exportDeclaration rules found
    if ← atWord "import" then
      let (next, _) ← peek
      unless next.isSign "(" || next.isSign "." do return ← importDeclaration rules
  statementTail rules start found true

private def apply : Rule → Parse Node
  | .expression => expressionRule rules
  | .assignment => assignmentRule rules
  | .unary => unaryRule rules
  | .operand strength => operandRule rules strength
  | .leftSide => leftSideRule rules
  | .member => memberRule rules
  | .element nested => elementRule rules nested
  | .object => objectRule rules
  | .decorator => decoratorRule rules
  | .binding => bindingRule rules
  | .type => typeRule rules
  | .plainType => plainTypeRule rules
  | .block => blockRule rules
  | .statement declarations => statementRule rules declarations
  | .item => itemRule rules

/-- All rules, calling one another at most `fuel` deep. -/
def run : Nat → Rules
  | 0, _ => stuck
  | fuel + 1, rule => apply (run fuel) rule

private def afterInterpreter (source : Source) : Nat :=
  if Lexer.startsAt source 0 ['#', '!'] then Lexer.skipWhile source (!Lexer.isLineEnd ·) 0 else 0

private def script : Parse Node := do
  let source := (← read).source
  beginAt (afterInterpreter source)
  let items ← collect do
    if (← current) == .done then return none
    return some (← run (40 * source.size + 100) .item)
  return parts .statement items

/-- The syntax tree of a script and its comments in order, if it is well formed. Rules call one
another less than forty times without taking a token in between. -/
def parse? (source : Source) (dialect : Dialect) : Option (Node × List Comment) :=
  match (script.run { source, dialect }).run.run {} with
  | (.ok node, state) => some (node, state.comments.reverse)
  | (.error _, _) => none

end Phrasebook.Script.Grammar
