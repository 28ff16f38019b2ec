import Phrasebook.Proofs.Script.Messages

/-!
The calls of an entry point that hold a message: those whose arguments are a literal, alone or before an
object of known options. Every other call is an issue, whatever its arguments are.
-/

set_option autoImplicit false

namespace Phrasebook.Script

/-- A quoted string that can be told or a template of one without substitutions, in any number of
parentheses, with its text and its position. -/
inductive IsLiteral : Node → String → Nat → Prop
  | text (value : String) (start : Nat) : IsLiteral (.text (some value) start) value start
  | template (value : String) (start : Nat) : IsLiteral (.template (some value) start []) value start
  | paren {inner : Node} {value : String} {start : Nat} (literal : IsLiteral inner value start) :
    IsLiteral (.paren inner) value start

theorem literal?_eq_some_iff {node : Node} {value : String} {start : Nat} :
    literal? node = some (value, start) ↔ IsLiteral node value start := by
  constructor
  · intro found
    fun_induction literal? node with
    | case1 told place =>
      obtain ⟨_, rfl, same⟩ := Option.map_eq_some_iff.mp found
      cases same
      exact .text value start
    | case2 told place =>
      obtain ⟨_, rfl, same⟩ := Option.map_eq_some_iff.mp found
      cases same
      exact .template value start
    | case3 inner ih => exact .paren (ih found)
    | case4 => cases found
  · intro literal
    induction literal with
    | text value start => rfl
    | template value start => rfl
    | paren _ ih => exact ih

/-- A property that names an option: a pair with a plain or quoted key, or a shorthand. -/
inductive IsOption : Node → Prop
  | pair {name : String} (known : name ∈ callOptions) (key : List Node) (value : Node) :
    IsOption (.pair (some name) key value)
  | shorthand {name : String} (known : name ∈ callOptions) : IsOption (.shorthand name)

/-- Arguments with a message: a literal, alone or before an object of options. -/
inductive Conforms : List Node → String → Nat → Prop
  | alone {first : Node} {text : String} {start : Nat} (literal : IsLiteral first text start) :
    Conforms [first] text start
  | before {first : Node} {text : String} {start : Nat} (literal : IsLiteral first text start)
    {options : List Node} (known : ∀ option ∈ options, IsOption option) :
    Conforms [first, .object options] text start

theorem optionDefect?_eq_none_iff {option : Node} : optionDefect? option = none ↔ IsOption option := by
  constructor
  · intro clean
    cases option with
    | pair name key value =>
      cases name with
      | none => cases clean
      | some name => exact .pair (by simpa [optionDefect?] using clean) key value
    | shorthand name => exact .shorthand (by simpa [optionDefect?] using clean)
    | _ => cases clean
  · rintro (⟨known, key, value⟩ | ⟨known⟩) <;> simpa [optionDefect?] using known

private theorem findSome?_optionDefect? {options : List Node} :
    options.findSome? optionDefect? = none ↔ ∀ option ∈ options, IsOption option := by
  simp only [List.findSome?_eq_none_iff, optionDefect?_eq_none_iff]

/-- A call has a literal exactly if its arguments are as they should be. -/
theorem callLiteral_eq_ok_iff {arguments : List Node} {text : String} {start : Nat} :
    callLiteral arguments = .ok (text, start) ↔ Conforms arguments text start := by
  constructor
  · intro found
    unfold callLiteral at found
    split at found
    · cases found
    · split at found
      · rename_i first _
        cases literal : literal? first with
        | none => simp [literal] at found
        | some place =>
          obtain rfl : place = (text, start) := by simpa [literal] using found
          exact .alone (literal?_eq_some_iff.mp literal)
      · rename_i first options _
        cases known : options.findSome? optionDefect? with
        | some defect => simp [known] at found
        | none =>
          cases literal : literal? first with
          | none => simp [known, literal] at found
          | some place =>
            obtain rfl : place = (text, start) := by simpa [known, literal] using found
            exact .before (literal?_eq_some_iff.mp literal) (findSome?_optionDefect?.mp known)
      · cases found
  · intro conforms
    unfold callLiteral
    split
    · -- Neither a literal nor an object stands for several arguments.
      rename_i several
      cases conforms with
      | alone literal => cases literal <;> exact absurd several Bool.false_ne_true
      | before literal known => cases literal <;> exact absurd several Bool.false_ne_true
    · cases conforms with
      | alone literal => simp [literal?_eq_some_iff.mpr literal]
      | before literal known =>
        simp [literal?_eq_some_iff.mpr literal, findSome?_optionDefect?.mpr known]

/-- A text stands in a source from the first position of a span up to the one after its last. -/
def Source.Shows (source : Source) (span : Span) (inside : List Char) : Prop :=
  ∃ before after, source.toList = before ++ inside ++ after ∧ before.length = span.start ∧
    before.length + inside.length = span.stop

theorem Source.slice_of_shows {source : Source} {span : Span} {inside : List Char}
    (shown : source.Shows span inside) : source.slice span.start span.stop = inside := by
  obtain ⟨before, after, text, start, stop⟩ := shown
  rw [slice, Array.toList_extract, text, ← start, ← stop, List.extract_eq_take_drop,
    List.append_assoc, List.drop_left, Nat.add_sub_cancel_left, List.take_left]

namespace Search

variable (search : Search)

/-- A call of an entry point whose arguments are as they should be holds the message of its literal and
nothing else, or nothing at all if there is nothing in the literal. Any other call of an entry point is
one issue that shows the call, and no message. -/
theorem scan_of_call (span : Span) {callee : Node} {arguments : List Node}
    (named : isNamed search.markers.entryPoints callee = true) :
    let line := search.lineAt span.start
    let scan := Scan.ofFindings (search.own (.call span callee arguments))
    (∀ text start, Conforms arguments text start →
      scan.issues = [] ∧ scan.messages =
        if Text.dedent text.toList = [] then []
        else [search.messageOf (Text.dedent text.toList) line [line, search.lineAt start] false]) ∧
    ((∀ text start, ¬ Conforms arguments text start) →
      scan.messages = [] ∧ ∃ defect snippet, scan.issues = [⟨search.path, line, defect, snippet⟩] ∧
        ∀ inside, search.source.Shows span inside → snippet = String.ofList inside) := by
  intro line scan
  have own : scan = Scan.ofFindings (search.ofCall span arguments) :=
    congrArg Scan.ofFindings (if_pos named)
  rw [own]
  constructor
  · intro text start conforms
    simp only [ofCall, callLiteral_eq_ok_iff.mpr conforms, scan_message, true_and]
    rfl
  · intro defective
    cases found : callLiteral arguments with
    | ok place => exact absurd (callLiteral_eq_ok_iff.mp found) (defective place.1 place.2)
    | error defect =>
      simp only [ofCall, found]
      exact ⟨rfl, defect, _, rfl, fun inside shown => by rw [Source.slice_of_shows shown]⟩

private def twoCalls : Search where
  path := "app.ts"
  source := "_((`  Hi`), { all }); // ours\n_(...x);".toList.toArray
  comments := ⟨[(1, "ours")], []⟩
  markers := {}

theorem scan_of_call_twice :
    let scan span arguments := Scan.ofFindings (twoCalls.own (.call span (.name "_") arguments))
    isNamed twoCalls.markers.entryPoints (.name "_") = true ∧
      (scan ⟨0, 20⟩ [.paren (.template (some "  Hi") 3 []), .object [.shorthand "all"]]).messages =
        [⟨"Hi", 1, ["ours"], false, false⟩] ∧
      ∃ defect, (scan ⟨30, 37⟩ [.spread (.name "x")]).issues = [⟨"app.ts", 2, defect, "_(...x)"⟩] := by
  intro scan
  have literal : IsLiteral (.paren (.template (some "  Hi") 3 [])) "  Hi" 3 :=
    .paren (.template "  Hi" 3)
  have known : ∀ option ∈ [Node.shorthand "all"], IsOption option := by
    intro option member
    obtain rfl := List.mem_singleton.mp member
    exact .shorthand (by decide)
  have spread : ∀ text start, ¬ Conforms [.spread (.name "x")] text start := by
    rintro text start (⟨⟨⟩⟩ | _)
  have named : isNamed twoCalls.markers.entryPoints (.name "_") = true := by decide
  refine ⟨named, ?_, ?_⟩
  · have messages := ((scan_of_call twoCalls ⟨0, 20⟩ named).1 _ _ (.before literal known)).2
    exact messages.trans (by decide +kernel)
  · obtain ⟨-, defect, snippet, issues, shown⟩ := (scan_of_call twoCalls ⟨30, 37⟩ named).2 spread
    have second : twoCalls.lineAt 30 = 2 := by decide +kernel
    have text := shown "_(...x)".toList
      ⟨"_((`  Hi`), { all }); // ours\n".toList, ";".toList, by decide +kernel⟩
    refine ⟨defect, issues.trans ?_⟩
    rw [text, second, String.ofList_toList]
    rfl

end Search

end Phrasebook.Script
