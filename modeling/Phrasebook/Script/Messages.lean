import Phrasebook.Script.Comments
import Phrasebook.Script.Grammar.Modules
import Phrasebook.Text.DocComment
import Phrasebook.Text.Placeholder

/-!
The messages of a script: the literals given to calls of an entry point, and the fields or the
documentation of marked classes. A call whose literal cannot be made out is an issue.
-/

set_option autoImplicit false

namespace Phrasebook.Script

structure Markers where
  entryPoints : List String := ["_"]
  decorators : List String := ["localizable"]
  fields : List String := ["name", "description"]
  deriving DecidableEq, Repr

structure Message where
  literal : String
  line : Nat
  comments : List String
  isFormat : Bool
  isDocumentation : Bool
  deriving DecidableEq, Repr

inductive Defect
  | spreadArgument
  | argumentCount (found : Nat)
  | spreadOption
  | unexpectedOption (name : String)
  | unsupportedOption
  | noLiteral
  deriving DecidableEq, Repr

def Defect.message : Defect → String
  | .spreadArgument => "spread arguments cannot be extracted"
  | .argumentCount found =>
    "expected exactly one positional argument, found " ++ String.ofList (Nat.toDigits 10 found)
  | .spreadOption => "spread in options cannot be checked"
  | .unexpectedOption name => "unexpected keyword argument `" ++ name ++ "`"
  | .unsupportedOption => "unsupported property in options"
  | .noLiteral => "the positional argument must be a string literal"

structure Issue where
  path : String
  line : Nat
  defect : Defect
  snippet : String
  deriving DecidableEq, Repr

/-- The report of something found at a line of a file: one line, and the text found there on a line
of its own if there is any. -/
def report (path : String) (line : Nat) (message snippet : String) : String :=
  let first := path ++ ":" ++ String.ofList (Nat.toDigits 10 line) ++ ": " ++ message
  if snippet.isEmpty then first else first ++ "\n    " ++ snippet

def Issue.render (issue : Issue) : String :=
  report issue.path issue.line issue.defect.message issue.snippet

/-- The options that a call of an entry point may name in an object after its literal: a locale of
its own, all locales at once, and the locale of the guild. -/
def callOptions : List String := ["locale", "all", "guild"]

/-- A plain string, or a template without substitutions, with its position. -/
def literal? : Node → Option (String × Nat)
  | .text value start => value.map (·, start)
  | .template value start [] => value.map (·, start)
  | .paren inner => literal? inner
  | _ => none

def isNamed (names : List String) : Node → Bool
  | .name text => names.contains text
  | .member _ field => names.contains field
  | _ => false

private def isObject : Node → Bool
  | .object _ => true
  | _ => false

private def isSpread : Node → Bool
  | .spread _ => true
  | _ => false

def optionDefect? (option : Node) : Option Defect :=
  let named (name : String) : Option Defect :=
    if callOptions.contains name then none else some (.unexpectedOption name)
  match option with
  | .spread _ => some .spreadOption
  | .pair (some name) _ _ => named name
  | .shorthand name => named name
  | _ => some .unsupportedOption

/-- The literal of a call of an entry point with its position: the only argument, or the first one
before an object of options. -/
def callLiteral (arguments : List Node) : Except Defect (String × Nat) :=
  if arguments.any isSpread then .error .spreadArgument
  else
    let literal (first : Node) : Except Defect (String × Nat) :=
      match literal? first with
      | some found => .ok found
      | none => .error .noLiteral
    match arguments with
    | [first] => literal first
    | [first, .object options] =>
      match options.findSome? optionDefect? with
      | some defect => .error defect
      | none => literal first
    | _ => .error (.argumentCount (arguments.filter (!isObject ·)).length)

/-- The arguments of a decorator that is one of the given names: none if it is no call. -/
def markerArguments? (names : List String) : Node → Option (List Node)
  | .decorator _ (.call _ callee arguments) => if isNamed names callee then some arguments else none
  | .decorator _ expression => if isNamed names expression then some [] else none
  | _ => none

def fieldLiterals (fields : List String) (arguments : List Node) : List (String × Nat) :=
  match arguments with
  | .object properties :: _ => properties.filterMap literalOf
  | .spread (.object properties) :: _ => properties.filterMap literalOf
  | _ => []
where
  literalOf : Node → Option (String × Nat)
    | .pair (some name) _ value => if fields.contains name then literal? value else none
    | _ => none

private def decoratorStart? : Node → Option Nat
  | .decorator start _ => some start
  | _ => none

inductive Finding
  | message (found : Message)
  | issue (found : Issue)
  deriving DecidableEq, Repr

structure Search where
  path : String
  source : Source
  comments : LineComments
  markers : Markers

namespace Search

variable (search : Search)

def lineAt (position : Nat) : Nat := search.source.lineAt position

/-- A message with the remarks on the given lines, unless its literal is empty. -/
def message (literal : List Char) (line : Nat) (lines : List Nat) (isDocumentation : Bool) :
    List Finding :=
  if literal.isEmpty then []
  else [.message
    { literal := String.ofList literal
      line
      comments := search.comments.onLines lines
      isFormat := Text.isFormatString literal
      isDocumentation }]

def ofCall (span : Span) (arguments : List Node) : List Finding :=
  let line := search.lineAt span.start
  match callLiteral arguments with
  | .ok (text, start) =>
    search.message (Text.dedent text.toList) line [line, search.lineAt start] false
  | .error defect =>
    [.issue ⟨search.path, line, defect, String.ofList (search.source.slice span.start span.stop)⟩]

/-- The documentation of a class: the block that ends on the line before the class and its
decorators, or else on their first line. -/
def documentation (start : Nat) (decorators : List Node) : List Finding :=
  let lines := (decorators.filterMap decoratorStart?).map search.lineAt
  let line := lines.foldl min (search.lineAt start)
  match (search.comments.docEndingAt? (line - 1)) <|> (search.comments.docEndingAt? line) with
  | some doc => search.message (Text.cleanDocComment doc.text) doc.startLine [] true
  | none => []

/-- What a class holds itself. The first decorator that marks it counts, and the documentation does
if no field is a literal. -/
def ofClass (start : Nat) (decorators : List Node) : List Finding :=
  match decorators.findSome? (markerArguments? search.markers.decorators) with
  | none => []
  | some arguments =>
    match fieldLiterals search.markers.fields arguments with
    | [] => search.documentation start decorators
    | literals => literals.flatMap fun (text, start) =>
      let line := search.lineAt start
      search.message (Text.dedent text.toList) line [line] false

mutual

/-- What a syntax tree holds: a call or class first of all, then its parts. -/
def findings : Node → List Finding
  | .name _ => []
  | .text _ _ => []
  | .template _ _ holes => findingsOf holes
  | .paren inner => findings inner
  | .spread inner => findings inner
  | .member object _ => findings object
  | .call span callee arguments =>
    (if isNamed search.markers.entryPoints callee then search.ofCall span arguments else []) ++
      findings callee ++ findingsOf arguments
  | .object properties => findingsOf properties
  | .pair _ key value => findingsOf key ++ findings value
  | .shorthand _ => []
  | .decorator _ expression => findings expression
  | .classLike start decorators members rest =>
    search.ofClass start decorators ++ findingsOf decorators ++ findingsOf members ++
      findingsOf rest
  | .method decorators key parameters body =>
    findingsOf key ++ findingsOf parameters ++ findingsOf decorators ++ findingsOf body
  | .field decorators key value => findingsOf key ++ findingsOf value ++ findingsOf decorators
  | .doWhile body test => findings test ++ findings body
  | .group _ parts => findingsOf parts

def findingsOf : List Node → List Finding
  | [] => []
  | node :: rest => findings node ++ findingsOf rest

end

end Search

structure Scan where
  messages : List Message := []
  issues : List Issue := []
  deriving DecidableEq, Repr

def Scan.ofFindings (found : List Finding) : Scan where
  messages := found.filterMap fun
    | .message message => some message
    | .issue _ => none
  issues := found.filterMap fun
    | .issue issue => some issue
    | .message _ => none

def comments? (path text : String) : Option LineComments :=
  let source := Source.ofText text
  (Grammar.parse? source (.ofPath path)).map fun (_, comments) => .ofComments source comments

/-- The messages and issues of a script, if it is well formed. The path says which dialect it is
in. -/
def scan? (path text : String) (markers : Markers) : Option Scan :=
  let source := Source.ofText text
  (Grammar.parse? source (.ofPath path)).map fun (tree, comments) =>
    let search : Search := ⟨path, source, .ofComments source comments, markers⟩
    .ofFindings (search.findings tree)

end Phrasebook.Script
