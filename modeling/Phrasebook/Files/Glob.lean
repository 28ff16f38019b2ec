import Phrasebook.Text.Blank

/-!
Path patterns: `?` stands for one character, `*` for any text, `**` for whole directories, and brackets
for one character of a set. Slashes and leading points are matched like all other characters.
-/

set_option autoImplicit false

namespace Phrasebook.Glob

structure Range where
  first : Char
  last : Char
  deriving DecidableEq, Repr

def Range.contains (range : Range) (c : Char) : Bool :=
  decide (range.first ≤ c) && decide (c ≤ range.last)

inductive Token
  | letter (c : Char)
  | anyLetter
  | oneOf (ranges : List Range)
  | noneOf (ranges : List Range)
  | anyText
  /-- Nothing, text that ends with a slash, or all the rest. -/
  | anyDirectories
  deriving DecidableEq, Repr

inductive Defect
  | tooManyStars
  | starsInName
  | openRange
  deriving DecidableEq, Repr

def Defect.message : Defect → String
  | .tooManyStars => "wildcards are either regular `*` or recursive `**`"
  | .starsInName => "recursive wildcards must form a single path component"
  | .openRange => "invalid range pattern"

structure SyntaxError where
  position : Nat
  defect : Defect
  deriving DecidableEq, Repr

def SyntaxError.message (error : SyntaxError) : String :=
  "Pattern syntax error near position " ++ String.ofList (Nat.toDigits 10 error.position) ++ ": " ++
    error.defect.message

/-- The stretches that characters in brackets spell: two characters with a hyphen between them, or
one by itself. -/
def ranges : List Char → List Range
  | first :: '-' :: last :: rest => ⟨first, last⟩ :: ranges rest
  | c :: rest => ⟨c, c⟩ :: ranges rest
  | [] => []

def untilBracket? : List Char → Option (List Char × List Char)
  | [] => none
  | ']' :: rest => some ([], rest)
  | c :: rest => (untilBracket? rest).map fun (inside, after) => (c :: inside, after)

/-- A bracket token after its bracket, with what follows it. The first character in it is never its
end, and an exclamation mark before that turns the meaning round. -/
def bracket? : List Char → Option (Token × List Char)
  | '!' :: first :: rest =>
    (untilBracket? rest).map fun (inside, after) => (.noneOf (ranges (first :: inside)), after)
  | ['!'] => none
  | first :: rest =>
    (untilBracket? rest).map fun (inside, after) => (.oneOf (ranges (first :: inside)), after)
  | [] => none

/-- Reads tokens; `position` is that of the first character and `opens` says whether the name of a
file or directory begins there. -/
def read (fuel position : Nat) (opens : Bool) (text : List Char) :
    Except SyntaxError (List Token) :=
  match fuel, text with
  | 0, _ => .ok []
  | _ + 1, [] => .ok []
  | fuel + 1, '?' :: rest => return .anyLetter :: (← read fuel (position + 1) false rest)
  | fuel + 1, '[' :: rest =>
    match bracket? rest with
    | none => .error ⟨position, .openRange⟩
    | some (token, after) =>
      return token :: (← read fuel (position + 1 + rest.length - after.length) false after)
  | fuel + 1, '*' :: rest =>
    match rest with
    | '*' :: '*' :: _ => .error ⟨position + 2, .tooManyStars⟩
    | '*' :: others =>
      if !opens then .error ⟨position - 1, .starsInName⟩
      else match others with
        | [] => .ok [.anyDirectories]
        | '/' :: after => return .anyDirectories :: (← read fuel (position + 3) true after)
        | _ => .error ⟨position + 2, .starsInName⟩
    | _ => return .anyText :: (← read fuel (position + 1) false rest)
  | fuel + 1, c :: rest => return .letter c :: (← read fuel (position + 1) (c == '/') rest)

def parse (text : String) : Except SyntaxError (List Token) :=
  read (text.length + 1) 0 true text.toList

def isPattern (text : String) : Bool := text.toList.any fun c => c == '*' || c == '?'

/-- Whether some end of a text satisfies a condition: one that follows a slash if only whole
directories may be passed over, and the empty one in any case. -/
def someEnd (wholeDirectories : Bool) (condition : List Char → Bool) : List Char → Bool
  | [] => condition []
  | c :: rest =>
    ((!wholeDirectories || c == '/') && condition rest) || someEnd wholeDirectories condition rest

def matchesChars : List Token → List Char → Bool
  | [], text => text.isEmpty
  | .anyText :: tokens, text => matchesChars tokens text || someEnd false (matchesChars tokens) text
  | .anyDirectories :: tokens, text =>
    matchesChars tokens text || someEnd true (matchesChars tokens) text
  | _ :: _, [] => false
  | .letter c :: tokens, d :: text => c == d && matchesChars tokens text
  | .anyLetter :: tokens, _ :: text => matchesChars tokens text
  | .oneOf ranges :: tokens, c :: text =>
    ranges.any (·.contains c) && matchesChars tokens text
  | .noneOf ranges :: tokens, c :: text =>
    !ranges.any (·.contains c) && matchesChars tokens text

def isMatch (tokens : List Token) (path : String) : Bool := matchesChars tokens path.toList

end Phrasebook.Glob
