import Phrasebook.Log
import Phrasebook.Text.Blank
import Phrasebook.Text.Category

/-!
Filters that choose the events to tell of. A filter is a comma separated list of rules; each names an
area and how much its events must matter, or only one of the two.
-/

set_option autoImplicit false

namespace Phrasebook.Log

inductive Threshold
  | off
  | error
  | warn
  | info
  | debug
  | trace
  deriving DecidableEq, Repr

namespace Threshold

def named : List (String × Threshold) :=
  [("off", off), ("error", error), ("warn", warn), ("info", info), ("debug", debug),
    ("trace", trace)]

/-- The threshold of a name in any case or of its number. No text at all stands for errors. -/
def ofText? (text : List Char) : Option Threshold :=
  let lower := String.ofList (text.map Char.toLower)
  match named.lookup lower with
  | some found => some found
  | none =>
    if text.isEmpty then some error
    else ((named.zipIdx.find? fun (_, number) => toString number == lower).map (·.1.2))

def admits : Threshold → Level → Bool
  | off, _ | error, _ => false
  | warn, level => level == .warn
  | info, level => level != .debug
  | debug, _ | trace, _ => true

end Threshold

structure Rule where
  start : String
  threshold : Threshold
  deriving DecidableEq, Repr

namespace Rule

def isStart (c : Char) : Bool := Text.isWordChar c || c == '-' || c == ':'

/-- The rule that a text spells. Without a threshold it lets everything pass, and a threshold alone
holds for all areas. -/
def ofText? (text : List Char) : Option Rule :=
  match Text.trim text with
  | [] => none
  | first :: rest =>
    if !isStart first then none
    else
      let name := first :: rest.takeWhile (· != '=')
      match rest.dropWhile (· != '=') with
      | [] =>
        match Threshold.ofText? text with
        | some threshold => some ⟨"", threshold⟩
        | none => some ⟨String.ofList text, .trace⟩
      | _ :: _ =>
        let threshold := text.drop (name.length + 1)
        if threshold.isEmpty then some ⟨String.ofList (text.take name.length), .trace⟩
        else (Threshold.ofText? threshold).map (⟨String.ofList (text.take name.length), ·⟩)

end Rule

abbrev Filter := List Rule

namespace Filter

def ofText? (text : String) : Option Filter :=
  ((Text.splitAt (· == ',') text.toList).filter (!·.isEmpty)).mapM Rule.ofText?

/-- The rule for an area: the one with the longest start, and of equal ones the last. -/
def ruleFor? (filter : Filter) (area : Area) : Option Rule :=
  (filter.filter fun rule => rule.start.isPrefixOf area.name).foldl
    (fun best rule =>
      match best with
      | some other => if other.start.length ≤ rule.start.length then some rule else some other
      | none => some rule) none

def admits (filter : Filter) (event : Event) : Bool :=
  match filter.ruleFor? event.area with
  | some rule => rule.threshold.admits event.level
  | none => false

/-- The filter without a text for it: warnings, or everything when more is asked for. -/
def usual (verbose : Bool) : Filter :=
  if verbose then [⟨"lingo", .debug⟩] else [⟨"", .warn⟩]

def ofSetting (text : Option String) (verbose : Bool) : Filter :=
  (text.bind ofText?).getD (usual verbose)

end Filter

end Phrasebook.Log
