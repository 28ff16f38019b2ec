import Phrasebook.Script.Lexer
import Phrasebook.Script.Node

/-!
Reading of scripts token by token: what a reader knows of its surroundings, where it stands, and the
steps that all grammar rules share. Rules that contain one another are called by name.
-/

set_option autoImplicit false

namespace Phrasebook.Script.Grammar

structure Context where
  source : Source
  dialect : Dialect
  topLevel : Bool := true
  generator : Bool := false
  asynchronous : Bool := false
  inParameters : Bool := false
  inFunction : Bool := false
  /-- Whether a block that sets up a class is being read. -/
  setsUpClass : Bool := false
  allowsParent : Bool := false
  allowsIn : Bool := false
  inConditional : Bool := false
  expectsColon : Bool := false
  ambient : Bool := false
  plainTypes : Bool := false
  /-- Whether angle brackets belong to the longest operators that begin with them, also at the end of
  types. -/
  wholeOperators : Bool := false
  loopHead : Bool := false

/-- Where a reader stands: at a token that it has not taken yet. -/
structure State where
  token : Token := .done
  start : Nat := 0
  stop : Nat := 0
  newline : Bool := true
  /-- Whether the token was met where brackets belong to whole operators. -/
  inOperators : Bool := false
  lastStop : Nat := 0
  comments : List Comment := []
  /-- Where the parameters of an arrow function may begin. -/
  arrowStart : Option Nat := none

/-- Reading fails without a value, but stays where it failed. -/
abbrev Parse := ReaderT Context (ExceptT Unit (StateM State))

def stuck {α : Type} : Parse α := throw ()

inductive Rule
  | expression
  | assignment
  | unary
  /-- An operand with the operators after it that bind tighter than the given strength. -/
  | operand (strength : Nat)
  | leftSide
  | member
  /-- An element; inside another one, text follows it. -/
  | element (nested : Bool)
  | object
  | decorator
  | binding
  | type
  | plainType
  | block
  /-- A statement; declarations are allowed in lists of statements only. -/
  | statement (declarations : Bool)
  | item

abbrev Rules := Rule → Parse Node

def current : Parse Token := return (← get).token

def afterNewline : Parse Bool := return (← get).newline

def here : Parse Nat := return (← get).start

def hasTypes : Parse Bool := return (← read).dialect.types

def hasElements : Parse Bool := return (← read).dialect.elements

/-- Moves on to the token that `scan` finds after the given blanks and comments. -/
private def arrive (scan : Source → Nat → Token × Nat) (found : Lexer.Trivia) : Parse Unit := do
  let context ← read
  let (token, stop) := scan context.source found.stop
  modify fun state => { state with
    token, stop
    inOperators := context.wholeOperators
    start := found.mark.getD found.stop
    newline := found.newline
    comments := found.comments
    lastStop := state.stop }

/-- Moves to the first token from a position on, as if a line ended right before it. -/
def beginAt (position : Nat) : Parse Unit := do
  let source := (← read).source
  arrive (Lexer.token false)
    (Lexer.trivia source false (source.size + 1) { stop := position, newline := true, comments := [] })

def advanceWith (scan : Source → Nat → Token × Nat) (skipsTrivia : Bool) : Parse Unit := do
  let source := (← read).source
  let state ← get
  let before : Lexer.Trivia := { stop := state.stop, newline := false, comments := state.comments }
  arrive scan <| if skipsTrivia then
      Lexer.trivia source state.token.holdsComment (source.size + 1) before
    else before

def advance : Parse Unit := advanceWith (Lexer.token true) true

def peek : Parse (Token × Bool) := do
  let source := (← read).source
  let before : Lexer.Trivia := { stop := (← get).stop, newline := false, comments := [] }
  let found := Lexer.trivia source false (source.size + 1) before
  return ((Lexer.token true source found.stop).1, found.newline)

def replaceBy (symbol : String) : Parse Unit :=
  modify ({ · with token := .sign symbol, newline := false })

def atSign (symbol : String) : Parse Bool := return (← current).isSign symbol

def atAnySign (symbols : List String) : Parse Bool := do
  match ← current with
  | .sign symbol => return symbols.contains symbol
  | _ => return false

def atWord (name : String) : Parse Bool := return (← current).isWord name

def atAnyWord (names : List String) : Parse Bool := do
  match ← current with
  | .word _ (some name) => return names.contains name
  | _ => return false

def eatSign (symbol : String) : Parse Bool := do
  if ← atSign symbol then
    advance
    return true
  return false

def eatWord (name : String) : Parse Bool := do
  if ← atWord name then
    advance
    return true
  return false

def eatTypedSign (symbol : String) : Parse Bool := do
  if ← hasTypes then eatSign symbol else return false

def eatTypedWord (name : String) : Parse Bool := do
  if ← hasTypes then eatWord name else return false

def expectSign (symbol : String) : Parse Unit := do
  unless ← eatSign symbol do stuck

def expectWord (name : String) : Parse Unit := do
  unless ← eatWord name do stuck

/-- Whether a statement can end here: at a semicolon, a closing brace, a new line or the end. -/
def atEnd : Parse Bool := do
  let state ← get
  return state.newline || state.token == .done || state.token.isSign ";" ||
    state.token.isSign Token.closeBrace

def eatEnd : Parse Bool := do
  if ← eatSign ";" then return true
  atEnd

def expectEnd : Parse Unit := do
  unless ← eatEnd do stuck

def takeWord : Parse String := do
  match ← current with
  | .word text _ =>
    advance
    return text
  | _ => stuck

def takePrivateName : Parse Unit := do
  expectSign "#"
  unless (← here) == (← get).lastStop do stuck
  discard takeWord

/-- Takes a word that is declared as a name. In scripts with types the receiver can be declared. -/
def takeName : Parse Unit := do
  let token ← current
  let receiver := (← hasTypes) && token.isWord "this"
  let blocked := token.isWord "await" && (← read).setsUpClass && !(← read).ambient
  if (token.isDeclarable && !blocked) || receiver then advance else stuck

/-- Takes a word that a variable or class is declared as, which cannot be the word `let`. -/
def takeScopedName : Parse Unit := do
  if ← atWord "let" then stuck
  takeName

def takeText : Parse Unit := do
  match ← current with
  | .text _ => advance
  | _ => stuck

def within {α : Type} (change : Context → Context) (parse : Parse α) : Parse α :=
  withReader change parse

/-- Reads as far as a value is found; otherwise nothing is taken. -/
def attempt {α : Type} (parse : Parse (Option α)) : Parse (Option α) := do
  let before ← get
  try
    match ← parse with
    | some value => return some value
    | none =>
      set before
      return none
  catch _ =>
    set before
    return none

/-- Whether a condition holds of what follows; nothing is taken. -/
def lookAhead (condition : Parse Bool) : Parse Bool := do
  let before ← get
  let holds ← try condition catch _ => pure false
  set before
  return holds

def iterate {α : Type} (step : α → Parse (Option α)) (first : α) : Parse α := do
  go ((← read).source.size + 2) first
where
  go : Nat → α → Parse α
    | 0, _ => stuck
    | fuel + 1, value => do
      match ← step value with
      | some next => go fuel next
      | none => return value

def collect {α : Type} (step : Parse (Option α)) : Parse (List α) := do
  let found ← iterate (fun items => return (← step).map (· :: items)) []
  return found.reverse

/-- Items with commas between them up to a closing token, which is not taken; a comma may follow the
last item. -/
def commaList {α : Type} (atClose : Parse Bool) (item : Parse α) : Parse (List α) := do
  let step : List α × Bool → Parse (Option (List α × Bool)) := fun (items, finished) => do
    if finished then return none
    if ← atClose then return none
    let next ← item
    if ← eatSign "," then return some (next :: items, false)
    if ← atClose then return some (next :: items, true)
    stuck
  return (← iterate step ([], false)).1.reverse

def parts (form : Form) (nodes : List Node) : Node := .group form nodes

def ungroup : Node → List Node
  | .group _ nodes => nodes
  | node => [node]

end Phrasebook.Script.Grammar
