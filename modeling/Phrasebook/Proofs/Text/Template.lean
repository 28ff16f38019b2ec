import Mathlib.Data.List.Infix
import Phrasebook.Localization.Localized

/-!
Templates that are put together from literal texts and fields, and what is left of them when the fields
are filled in.
-/

set_option autoImplicit false

namespace Phrasebook.Text

theorem fieldName?_append {name : List Char} (unclosed : '}' ∉ name) (after : List Char) :
    fieldName? (name ++ '}' :: after) = some (name, after) := by
  induction name with
  | nil => rfl
  | cons c name ih =>
    have here : c ≠ '}' := fun same => unclosed (by simp [same])
    have below := ih fun member => unclosed (List.mem_cons_of_mem c member)
    rw [List.cons_append, fieldName?, below]
    · rfl
    · exact here

theorem eq_append_of_fieldName? {text name after : List Char}
    (found : fieldName? text = some (name, after)) :
    '}' ∉ name ∧ text = name ++ '}' :: after := by
  fun_induction fieldName? text generalizing name with
  | case1 => cases found
  | case2 rest =>
    obtain ⟨rfl, rfl⟩ := Prod.mk.inj (Option.some.inj found)
    exact ⟨by simp, rfl⟩
  | case3 c rest here ih =>
    obtain ⟨⟨inner, left⟩, below, pair⟩ := Option.map_eq_some_iff.mp found
    obtain ⟨rfl, rfl⟩ := Prod.mk.inj pair
    obtain ⟨unclosed, rfl⟩ := ih below
    refine ⟨?_, rfl⟩
    intro member
    rcases List.mem_cons.mp member with same | member
    · exact here same.symm
    · exact unclosed member

theorem fieldName?_eq_none_iff {text : List Char} : fieldName? text = none ↔ '}' ∉ text := by
  constructor
  · intro nothing member
    obtain ⟨name, after, rfl, unclosed⟩ := List.eq_append_cons_of_mem member
    rw [fieldName?_append unclosed] at nothing
    cases nothing
  · intro unclosed
    cases found : fieldName? text with
    | none => rfl
    | some field =>
      obtain ⟨-, rfl⟩ := eq_append_of_fieldName? found
      exact absurd (by simp) unclosed

/-- The steps in which a text is read: pairs of braces, fields, and single characters. -/
theorem induction_braces {motive : List Char → Prop} (nil : motive [])
    (opening : ∀ rest, motive rest → motive ('{' :: '{' :: rest))
    (closing : ∀ rest, motive rest → motive ('}' :: '}' :: rest))
    (field : ∀ name after, '}' ∉ name → name.head? ≠ some '{' → motive after →
      motive ('{' :: name ++ '}' :: after))
    (unclosed : ∀ rest, rest.head? ≠ some '{' → '}' ∉ rest → motive rest → motive ('{' :: rest))
    (single : ∀ c rest, c ≠ '{' → (c = '}' → rest.head? ≠ some '}') → motive rest →
      motive (c :: rest)) (text : List Char) : motive text := by
  have head?_ne : ∀ {c : Char} {rest : List Char}, (∀ more, rest = c :: more → False) →
      rest.head? ≠ some c := by
    intro c rest apart first
    obtain ⟨more, same⟩ := List.head?_eq_some_iff.mp first
    exact apart more same
  fun_induction fill (fun _ => none) text with
  | case1 => exact nil
  | case2 rest ih => exact opening rest ih
  | case3 rest ih => exact closing rest ih
  | case4 rest apart name after found shorter ih =>
    obtain ⟨unclosed, rfl⟩ := eq_append_of_fieldName? found
    have unopened : name.head? ≠ some '{' := by
      intro first
      exact head?_ne apart (by simp [first])
    exact field name after unclosed unopened ih
  | case5 rest apart nothing ih =>
    exact unclosed rest (head?_ne apart) (fieldName?_eq_none_iff.mp nothing) ih
  | case6 c rest apart other notOpening ih =>
    refine single c rest notOpening ?_ ih
    rintro rfl
    exact head?_ne fun more same => other more rfl same

section Steps

variable (lookup : List Char → Option (List Char))

@[simp] theorem fill_nil : fill lookup [] = [] := by rw [fill]

@[simp] theorem fill_opening_pair (rest : List Char) :
    fill lookup ('{' :: '{' :: rest) = '{' :: fill lookup rest := by rw [fill]

@[simp] theorem fill_closing_pair (rest : List Char) :
    fill lookup ('}' :: '}' :: rest) = '}' :: fill lookup rest := by rw [fill]

theorem fill_single {c : Char} {rest : List Char} (opening : c ≠ '{')
    (closing : c = '}' → rest.head? ≠ some '}') :
    fill lookup (c :: rest) = c :: fill lookup rest := by
  rw [fill]
  · rintro _ rfl
    exact absurd rfl opening
  · rintro more rfl rfl
    exact closing rfl rfl
  · exact opening

theorem fill_plain {c : Char} (opening : c ≠ '{') (closing : c ≠ '}') (rest : List Char) :
    fill lookup (c :: rest) = c :: fill lookup rest :=
  fill_single lookup opening fun same => absurd same closing

theorem fill_unclosed {rest : List Char} (single : rest.head? ≠ some '{') (unclosed : '}' ∉ rest) :
    fill lookup ('{' :: rest) = '{' :: fill lookup rest := by
  have nothing := fieldName?_eq_none_iff.mpr unclosed
  rw [fill]
  · split
    · rename_i found
      rw [nothing] at found
      cases found
    · rfl
  · rintro more rfl
    exact single rfl

theorem fill_field {name : List Char} (unclosed : '}' ∉ name) (unopened : name.head? ≠ some '{')
    (after : List Char) :
    fill lookup ('{' :: name ++ '}' :: after) =
      (lookup name).getD ('{' :: name ++ ['}']) ++ fill lookup after := by
  have found := fieldName?_append unclosed after
  rw [List.cons_append, fill]
  · split
    · rename_i other left there
      rw [found] at there
      obtain ⟨rfl, rfl⟩ := Prod.mk.inj (Option.some.inj there)
      rfl
    · rename_i nothing
      rw [found] at nothing
      cases nothing
  · intro rest same
    cases name with
    | nil => exact absurd (List.cons.inj same).1 (by decide)
    | cons c name => exact unopened (by simp [(List.cons.inj same).1])

end Steps

/-- The name of a field as it can stand in a template: the first closing brace ends it, and an opening
brace at its start would be taken for the second one of a pair. -/
structure FieldName where
  chars : List Char
  unclosed : '}' ∉ chars
  unopened : chars.head? ≠ some '{'

inductive Segment
  | literal (text : List Char)
  | field (name : FieldName)

def doubleBraces (text : List Char) : List Char :=
  text.flatMap fun c => if c = '{' ∨ c = '}' then [c, c] else [c]

namespace Segment

def spelling : Segment → List Char
  | literal text => doubleBraces text
  | field name => '{' :: name.chars ++ ['}']

/-- What a segment stands for; a field without a value stays as it is written. -/
def value (lookup : List Char → Option (List Char)) : Segment → List Char
  | literal text => text
  | field name => (lookup name.chars).getD ('{' :: name.chars ++ ['}'])

end Segment

section Segments

variable (lookup : List Char → Option (List Char))

theorem fill_doubleBraces (text after : List Char) :
    fill lookup (doubleBraces text ++ after) = text ++ fill lookup after := by
  induction text with
  | nil => rfl
  | cons c text ih =>
    have parts : doubleBraces (c :: text) =
        (if c = '{' ∨ c = '}' then [c, c] else [c]) ++ doubleBraces text := List.flatMap_cons
    rw [parts, List.append_assoc]
    by_cases brace : c = '{' ∨ c = '}'
    · rw [if_pos brace]
      rcases brace with rfl | rfl
      · exact (fill_opening_pair lookup _).trans (congrArg _ ih)
      · exact (fill_closing_pair lookup _).trans (congrArg _ ih)
    · obtain ⟨opening, closing⟩ := not_or.mp brace
      rw [if_neg brace]
      exact (fill_plain lookup opening closing _).trans (congrArg _ ih)

theorem fill_spelling (segment : Segment) (after : List Char) :
    fill lookup (segment.spelling ++ after) = segment.value lookup ++ fill lookup after := by
  cases segment with
  | literal text => exact fill_doubleBraces lookup text after
  | field name =>
    have same : (Segment.field name).spelling ++ after = '{' :: name.chars ++ '}' :: after := by
      simp [Segment.spelling]
    rw [same, fill_field lookup name.unclosed name.unopened]
    rfl

theorem fill_flatMap_spelling (segments : List Segment) :
    fill lookup (segments.flatMap Segment.spelling) = segments.flatMap (Segment.value lookup) := by
  induction segments with
  | nil => exact fill_nil lookup
  | cons segment segments ih =>
    rw [List.flatMap_cons, fill_spelling, ih, List.flatMap_cons]

structure IsUnpaired (text : List Char) : Prop where
  opening : ¬['{', '{'] <:+: text
  closing : ¬['}', '}'] <:+: text

theorem IsUnpaired.of_isSuffix {text rest : List Char} (unpaired : IsUnpaired text)
    (ends : rest <:+ text) : IsUnpaired rest :=
  ⟨fun inside => unpaired.opening (inside.trans ends.isInfix),
    fun inside => unpaired.closing (inside.trans ends.isInfix)⟩

variable {lookup}

theorem fill_of_isUnpaired (unknown : ∀ name, lookup name = none) {text : List Char}
    (unpaired : IsUnpaired text) : fill lookup text = text := by
  induction text using induction_braces with
  | nil => exact fill_nil lookup
  | opening rest ih => exact absurd (List.prefix_append ['{', '{'] rest).isInfix unpaired.opening
  | closing rest ih => exact absurd (List.prefix_append ['}', '}'] rest).isInfix unpaired.closing
  | field name after unclosed unopened ih =>
    have ends : after <:+ '{' :: name ++ '}' :: after := ⟨'{' :: name ++ ['}'], by simp⟩
    rw [fill_field lookup unclosed unopened, unknown, Option.getD_none,
      ih (unpaired.of_isSuffix ends), List.append_assoc]
    rfl
  | unclosed rest single unclosed ih =>
    rw [fill_unclosed lookup single unclosed, ih (unpaired.of_isSuffix (List.suffix_cons _ rest))]
  | single c rest opening closing ih =>
    rw [fill_single lookup opening closing, ih (unpaired.of_isSuffix (List.suffix_cons c rest))]

end Segments

def valueIn (values : List (String × String)) (name : List Char) : Option (List Char) :=
  (values.lookup (String.ofList name)).map String.toList

theorem toList_format (message : Localized) (values : List (String × String)) :
    (message.format values).toList = fill (valueIn values) message.text.toList :=
  String.toList_ofList

/-- Filling in undoes the making of a template from segments: literal texts come back as they were, and
a field gives way to its value, which is not read again, or stays as it is written. Without doubled
braces and without values nothing changes. -/
theorem fill_of_segments (lookup : List Char → Option (List Char)) (segments : List Segment) :
    fill lookup (segments.flatMap Segment.spelling) = segments.flatMap (Segment.value lookup) ∧
      ((∀ name, lookup name = none) → ∀ text, IsUnpaired text → fill lookup text = text) ∧
      ∀ (message : Localized) (values : List (String × String)),
        message.text.toList = segments.flatMap Segment.spelling →
          (message.format values).toList = segments.flatMap (Segment.value (valueIn values)) := by
  refine ⟨fill_flatMap_spelling lookup segments, ?_, ?_⟩
  · intro unknown text unpaired
    exact fill_of_isUnpaired unknown unpaired
  · intro message values template
    rw [toList_format, template, fill_flatMap_spelling]

theorem fill_of_segments_braced :
    let lookup : List Char → Option (List Char) := fun name =>
      if name = ['n'] then some ['{', '}', '}'] else none
    fill lookup ['{', '{', '{', 'n', '}', '}', '}'] = ['{', '{', '}', '}', '}'] ∧
      fill (fun _ => none) ['a', '}', '{', 'b'] = ['a', '}', '{', 'b'] := by
  intro lookup
  have filled := (fill_of_segments lookup
    [.literal ['{'], .field ⟨['n'], by decide, by decide⟩, .literal ['}']]).1
  have unpaired : IsUnpaired ['a', '}', '{', 'b'] := ⟨by decide, by decide⟩
  exact ⟨filled, (fill_of_segments (fun _ => none) []).2.1 (fun _ => rfl) _ unpaired⟩

end Phrasebook.Text
