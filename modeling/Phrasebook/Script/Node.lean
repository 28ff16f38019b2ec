import Phrasebook.Script.Source

/-!
Syntax trees of scripts. Forms that decide which messages a script holds have constructors of their
own; every other form is a group of parts under a tag.
-/

set_option autoImplicit false

namespace Phrasebook.Script

inductive Form
  | constant
  | receiver
  | array
  | function
  | arrow
  | unary
  | update
  | binary
  | assignment
  | compoundAssignment
  | conditional
  | sequence
  | yield
  | await
  | creation
  | instantiation
  | optional
  | property
  | specialCall
  | tagged
  | nonNull
  | typed
  | narrowed
  | element
  | fallback
  | accessor
  | pattern
  | statement
  | missing
  deriving DecidableEq, Repr

/-- A syntax tree. Parts stand in the order of the source, except that what type annotations hold
mostly comes last in its form. -/
inductive Node
  | name (text : String)
  /-- A quoted string with its first position; no value if half of a surrogate pair is in it. -/
  | text (value : Option String) (start : Nat)
  /-- A template with its first position, the value of its first chunk, and its substitutions. -/
  | template (value : Option String) (start : Nat) (holes : List Node)
  | paren (inner : Node)
  | spread (inner : Node)
  | member (object : Node) (field : String)
  | call (span : Span) (callee : Node) (arguments : List Node)
  | object (properties : List Node)
  | pair (name : Option String) (key : List Node) (value : Node)
  | shorthand (name : String)
  | decorator (start : Nat) (expression : Node)
  /-- A class with the position of its keyword or first decorator; `rest` holds its parent first. -/
  | classLike (start : Nat) (decorators members rest : List Node)
  | method (decorators key parameters body : List Node)
  | field (decorators key value : List Node)
  | doWhile (body test : Node)
  | group (form : Form) (parts : List Node)
  deriving Repr

namespace Node

def leaf : Node := .group .constant []

/-- What stands in place of something that could not be made out. -/
def missing : Node := .group .missing []

def hasForm (node : Node) (form : Form) : Bool :=
  match node with
  | .group found _ => found == form
  | _ => false

/-- Whether the node is a chain that may end early, marks of presence aside. -/
def isOptional : Node → Bool
  | .group .optional _ => true
  | .group .nonNull (inner :: _) => inner.isOptional
  | _ => false

/-- Whether a value can be assigned to the expression, patterns aside. -/
def isTarget : Node → Bool
  | .name _ => true
  | .member _ _ => true
  | .paren _ => true
  | .group form _ => [Form.property, .optional, .nonNull, .typed, .instantiation, .missing].contains form
  | _ => false

end Node

end Phrasebook.Script
