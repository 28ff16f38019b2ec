import Phrasebook.Script.Source

/-!
Tokens of scripts and comments between them.
-/

set_option autoImplicit false

namespace Phrasebook.Script

inductive Token
  /-- A word with the name that it stands for, and the word of the language that it is. A word whose
  spelling begins with an escape is none of the language. -/
  | word (text : String) (special : Option String)
  | number
  | bigNumber
  /-- A quoted string, without a value when it holds half of a surrogate pair. -/
  | text (value : Option String)
  /-- A punctuator. Signs that begin with an angle bracket are met one bracket at a time. -/
  | sign (symbol : String)
  | content
  | done
  | invalid
  deriving DecidableEq, Repr

namespace Token

def openBrace : String := "\x7b"

def closeBrace : String := "\x7d"

def keywords : List String :=
  ["break", "case", "catch", "continue", "debugger", "default", "do", "else", "finally", "for",
    "function", "if", "return", "switch", "throw", "try", "var", "const", "while", "with", "new",
    "this", "super", "class", "extends", "export", "import", "in", "instanceof", "typeof", "void",
    "delete", "null", "true", "false"]

/-- Words that are reserved in modules: these may declare them as names but not refer to them. -/
def moduleWords : List String :=
  ["await", "let", "yield", "implements", "package", "protected", "interface", "private", "public"]

def contextualWords : List String :=
  ["abstract", "accessor", "any", "as", "assert", "asserts", "async", "bigint", "boolean", "declare",
    "from", "get", "global", "infer", "intrinsic", "is", "keyof", "meta", "module", "namespace",
    "never", "number", "object", "of", "out", "override", "readonly", "require", "satisfies", "set",
    "static", "string", "symbol", "target", "type", "undefined", "unique", "unknown", "using"]

/-- Whether a word is reserved, in modules or at the very start of a script, where nothing says yet
that it is one. -/
def isReserved (name : String) (inModule : Bool) : Bool :=
  keywords.contains name || name == "enum" || (inModule && moduleWords.contains name)

def isSpecial (name : String) : Bool :=
  keywords.contains name || moduleWords.contains name || name == "enum" ||
    contextualWords.contains name

def isWord (token : Token) (name : String) : Bool :=
  match token with
  | .word _ (some special) => special == name
  | _ => false

def isSign (token : Token) (symbol : String) : Bool := token == .sign symbol

def isAnyWord : Token → Bool
  | .word _ _ => true
  | _ => false

def isDeclarable : Token → Bool
  | .word _ (some special) => !keywords.contains special
  | .word _ none => true
  | _ => false

def isReference : Token → Bool
  | .word _ (some special) => !isReserved special true
  | .word _ none => true
  | _ => false

/-- Whether a block comment after the token, on the same line, belongs to the token. -/
def holdsComment : Token → Bool
  | .word _ (some special) =>
    !(keywords.contains special || ["await", "let", "yield"].contains special)
  | .word _ none => true
  | .number => true
  | .bigNumber => true
  | .text _ => true
  | .content => true
  | .sign symbol => [";", openBrace, closeBrace].contains symbol
  | _ => false

end Token

structure Comment where
  span : Span
  isBlock : Bool
  /-- Whether the comment follows a token on its line and belongs to it. -/
  isTrailing : Bool
  text : List Char
  deriving DecidableEq, Repr

end Phrasebook.Script
