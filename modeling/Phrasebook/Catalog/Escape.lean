/-!
The escapes of quoted strings in catalog files: `\\`, `\t`, `\r`, `\n` and `\"`. Reading is lenient
and keeps every other sequence as it is.
-/

set_option autoImplicit false

namespace Phrasebook.Catalog

def escapeChar (c : Char) : List Char :=
  if c = '\\' then ['\\', '\\']
  else if c = '\t' then ['\\', 't']
  else if c = '\r' then ['\\', 'r']
  else if c = '\n' then ['\\', 'n']
  else if c = '"' then ['\\', '"']
  else [c]

def escape (text : List Char) : List Char := text.flatMap escapeChar

/-- The character that an escape stands for, given the character after the backslash. -/
def escapedChar? (c : Char) : Option Char :=
  if c = '\\' then some '\\'
  else if c = 't' then some '\t'
  else if c = 'r' then some '\r'
  else if c = 'n' then some '\n'
  else if c = '"' then some '"'
  else none

def unescape : List Char → List Char
  | '\\' :: c :: rest =>
    match escapedChar? c with
    | some plain => plain :: unescape rest
    | none => '\\' :: c :: unescape rest
  | c :: rest => c :: unescape rest
  | [] => []

end Phrasebook.Catalog
