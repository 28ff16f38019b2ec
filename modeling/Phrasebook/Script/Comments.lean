import Phrasebook.Catalog.Entry
import Phrasebook.Script.Token

/-!
The comments of a script by line: remarks by the line they start on, and documentation blocks by the
line they end on.
-/

set_option autoImplicit false

namespace Phrasebook.Script

/-- A documentation block: a block comment that begins with exactly two asterisks. -/
structure DocBlock where
  startLine : Nat
  /-- The text after the slash and the first asterisk, up to the last asterisk. -/
  text : List Char
  deriving DecidableEq, Repr

structure LineComments where
  remarks : List (Nat × String) := []
  /-- Of two blocks that end on one line, the later one in the list counts. -/
  docs : List (Nat × DocBlock) := []
  deriving DecidableEq, Repr

namespace LineComments

def isDoc (comment : Comment) : Bool :=
  comment.isBlock && comment.text.head? == some '*' && comment.text[1]? != some '*'

def remarkText (comment : Comment) : String :=
  String.ofList (Text.joinWith [' '] (Text.words comment.text))

/-- The comments of a script by line. Blocks that belong to the token before them come last, and
empty remarks are left out. -/
def ofComments (source : Source) (comments : List Comment) : LineComments where
  remarks := ((comments.filter (!isDoc ·)).map fun comment =>
    (source.lineAt comment.span.start, remarkText comment)).filter (!·.2.isEmpty)
  docs :=
    let (trailing, leading) := (comments.filter isDoc).partition (·.isTrailing)
    (leading ++ trailing).map fun comment =>
      (source.lineAt comment.span.stop, ⟨source.lineAt comment.span.start, comment.text⟩)

def onLines (comments : LineComments) (lines : List Nat) : List String :=
  Entry.sortedDistinct ((comments.remarks.filter (lines.contains ·.1)).map (·.2))

def docEndingAt? (comments : LineComments) (line : Nat) : Option DocBlock :=
  (comments.docs.reverse.find? (·.1 == line)).map (·.2)

end LineComments

end Phrasebook.Script
