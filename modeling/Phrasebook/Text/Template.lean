import Phrasebook.Text.Blank

/-!
Filling in the named fields of a template. A doubled brace stands for a single one, a field runs from
an opening brace to the next closing one, and a field without a value stays as it is written.
-/

set_option autoImplicit false

namespace Phrasebook.Text

/-- Splits text before the first closing brace and drops the brace; `none` without one. -/
def fieldName? : List Char → Option (List Char × List Char)
  | [] => none
  | '}' :: rest => some ([], rest)
  | c :: rest => (fieldName? rest).map fun (name, after) => (c :: name, after)

theorem length_of_fieldName? {text name after : List Char} (h : fieldName? text = some (name, after)) :
    after.length < text.length := by
  fun_induction fieldName? text generalizing name with
  | case1 => simp at h
  | case2 rest => simp_all
  | case3 c rest _ ih =>
    obtain ⟨⟨found, left⟩, found_eq, pair_eq⟩ := Option.map_eq_some_iff.1 h
    simp only [Prod.mk.injEq] at pair_eq
    obtain ⟨-, rfl⟩ := pair_eq
    exact Nat.lt_succ_of_lt (ih found_eq)

/-- The template with every field replaced by the value that `lookup` knows for it. -/
def fill (lookup : List Char → Option (List Char)) : List Char → List Char
  | [] => []
  | '{' :: '{' :: rest => '{' :: fill lookup rest
  | '}' :: '}' :: rest => '}' :: fill lookup rest
  | '{' :: rest =>
    match found : fieldName? rest with
    | some (name, after) =>
      have : after.length < rest.length := length_of_fieldName? found
      (lookup name).getD ('{' :: name ++ ['}']) ++ fill lookup after
    | none => '{' :: fill lookup rest
  | c :: rest => c :: fill lookup rest
termination_by text => text.length
decreasing_by all_goals simp only [List.length_cons]; omega

end Phrasebook.Text
