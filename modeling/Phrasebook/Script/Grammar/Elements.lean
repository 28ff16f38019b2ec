import Phrasebook.Script.Grammar.Calls

/-!
Markup elements: names, attributes and children. Text between elements is no part of a script.
-/

set_option autoImplicit false

namespace Phrasebook.Script.Grammar

variable (rules : Rules)

private def advanceToContent : Parse Unit := advanceWith Lexer.content false

private def leave (nested : Bool) : Parse Unit := if nested then advanceToContent else advance

private def hyphenated : Parse (List Char) := do
  match ← current with
  | .word text _ =>
    let source := (← read).source
    let state ← get
    let stop := Lexer.elementNameEnd source state.stop
    set { state with stop }
    advance
    return text.toList ++ source.slice state.stop stop
  | _ => stuck

/-- The name of an element or attribute: words joined by points, or by a colon. -/
private def elementName : Parse (List Char) := do
  let first ← hyphenated
  if ← eatSign ":" then return first ++ ':' :: (← hyphenated)
  iterate (fun name => do
    if ← eatSign "." then return some (name ++ '.' :: (← hyphenated))
    return none) first

private def attributeToken (source : Source) (i : Nat) : Token × Nat :=
  match Lexer.attributeText? source i with
  | some stop => (.text none, stop)
  | none => Lexer.token true source i

private def attributeValue : Parse (List Node) := do
  match ← current with
  | .text _ =>
    advance
    return []
  | .sign "<" => return [← rules (.element false)]
  | .sign symbol =>
    if symbol != Token.openBrace then stuck
    advance
    let value ← rules .expression
    expectSign Token.closeBrace
    return [value]
  | _ => stuck

private def oneAttribute : Parse (List Node) := do
  if ← eatSign Token.openBrace then
    expectSign "..."
    let value ← rules .assignment
    expectSign Token.closeBrace
    return [value]
  discard elementName
  if ← atSign "=" then
    advanceWith attributeToken true
    attributeValue rules
  else return []

private def container : Parse (List Node) := do
  advance
  if ← atSign Token.closeBrace then
    advanceToContent
    return []
  discard (eatSign "...")
  let value ← rules .expression
  unless ← atSign Token.closeBrace do stuck
  advanceToContent
  return [value]

/-- What an element holds, up to the tag that closes it, whose first two characters stand together. -/
private def children : Parse (List Node) := do
  let found ← collect do
    match ← current with
    | .content =>
      advanceToContent
      return some []
    | .sign "<" =>
      if (← read).source[(← get).stop]? == some '/' then return none
      return some [← rules (.element true)]
    | .sign symbol => if symbol == Token.openBrace then return some (← container rules) else stuck
    | _ => stuck
  return found.flatten

/-- The tag that closes an element of the given name, which is empty for a fragment. -/
private def closingTag (name : List Char) (nested : Bool) : Parse Unit := do
  expectSign "<"
  expectSign "/"
  let found ← if ← atSign ">" then pure [] else elementName
  unless found == name && (← atSign ">") do stuck
  leave nested

def elementRule (nested : Bool) : Parse Node := within ({ · with wholeOperators := false }) do
  expectSign "<"
  if ← atSign ">" then
    advanceToContent
    let found ← children rules
    closingTag [] nested
    return parts .element found
  let name ← elementName
  let types ← if (← hasTypes) && (← atSign "<") then typeArguments rules else pure []
  let attributes ← collect do
    if ← atAnySign [">", "/"] then return none
    return some (← oneAttribute rules)
  if ← eatSign "/" then
    unless ← atSign ">" do stuck
    leave nested
    return parts .element (attributes.flatten ++ types)
  advanceToContent
  let found ← children rules
  closingTag name nested
  return parts .element (attributes.flatten ++ types ++ found)

end Phrasebook.Script.Grammar
