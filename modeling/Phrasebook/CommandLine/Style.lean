/-!
Text that stands out on a terminal.
-/

set_option autoImplicit false

namespace Phrasebook.CommandLine

inductive Style
  | bold
  | red
  | green
  | yellow
  | blue
  | boldRed
  | boldYellow
  deriving DecidableEq, Repr

namespace Style

def codes : Style → String
  | bold => "1"
  | red => "31"
  | green => "32"
  | yellow => "33"
  | blue => "34"
  | boldRed => "1;31"
  | boldYellow => "1;33"

def paint (style : Style) (colored : Bool) (text : String) : String :=
  if colored then "\x1b[" ++ style.codes ++ "m" ++ text ++ "\x1b[0m" else text

end Style

end Phrasebook.CommandLine
