import Phrasebook.Proofs.Text.Template
import Phrasebook.Text.Placeholder

/-!
Two readings of braces. A template is filled in by pairing braces from left to right; the placeholders
of a text are looked for once all pairs are taken out, the opening ones first. The readings part where a
field is followed by an odd number of closing braces: the brace that ends it is taken out with the next.
-/

set_option autoImplicit false

namespace Phrasebook.Text

/-- The names of the fields that are read when a template is filled in, each with the text behind it. -/
def fields : List Char → List (List Char × List Char)
  | [] => []
  | '{' :: '{' :: rest => fields rest
  | '}' :: '}' :: rest => fields rest
  | '{' :: rest =>
    match found : fieldName? rest with
    | some (name, after) =>
      have : after.length < rest.length := length_of_fieldName? found
      (name, after) :: fields after
    | none => fields rest
  | _ :: rest => fields rest
termination_by text => text.length
decreasing_by all_goals simp only [List.length_cons]; omega

@[simp] theorem fields_nil : fields [] = [] := by rw [fields]

@[simp] theorem fields_opening_pair (rest : List Char) :
    fields ('{' :: '{' :: rest) = fields rest := by rw [fields]

@[simp] theorem fields_closing_pair (rest : List Char) :
    fields ('}' :: '}' :: rest) = fields rest := by rw [fields]

theorem fields_field {name : List Char} (unclosed : '}' ∉ name) (unopened : name.head? ≠ some '{')
    (after : List Char) : fields ('{' :: name ++ '}' :: after) = (name, after) :: fields after := by
  have found := fieldName?_append unclosed after
  rw [List.cons_append, fields]
  · split
    · rename_i other left there
      rw [found] at there
      obtain ⟨rfl, rfl⟩ := Prod.mk.inj (Option.some.inj there)
      rfl
    · rename_i nothing
      rw [found] at nothing
      cases nothing
  · intro rest same
    cases name with
    | nil => exact absurd (List.cons.inj same).1 (by decide)
    | cons c name => exact unopened (by simp [(List.cons.inj same).1])

theorem fields_unclosed {rest : List Char} (single : rest.head? ≠ some '{') (unclosed : '}' ∉ rest) :
    fields ('{' :: rest) = fields rest := by
  have nothing := fieldName?_eq_none_iff.mpr unclosed
  rw [fields]
  · split
    · rename_i found
      rw [nothing] at found
      cases found
    · rfl
  · rintro more rfl
    exact single rfl

theorem fields_single {c : Char} {rest : List Char} (opening : c ≠ '{')
    (closing : c = '}' → rest.head? ≠ some '}') : fields (c :: rest) = fields rest := by
  rw [fields]
  · rintro _ rfl
    exact absurd rfl opening
  · rintro more rfl rfl
    exact closing rfl rfl
  · exact opening

theorem fill_congr {lookup other : List Char → Option (List Char)} {text : List Char}
    (same : ∀ field ∈ fields text, lookup field.1 = other field.1) :
    fill lookup text = fill other text := by
  induction text using induction_braces with
  | nil => rw [fill_nil, fill_nil]
  | opening rest ih =>
    rw [fields_opening_pair] at same
    rw [fill_opening_pair, fill_opening_pair, ih same]
  | closing rest ih =>
    rw [fields_closing_pair] at same
    rw [fill_closing_pair, fill_closing_pair, ih same]
  | field name after unclosed unopened ih =>
    rw [fields_field unclosed unopened] at same
    have here : lookup name = other name := same (name, after) List.mem_cons_self
    have below := ih fun field member => same field (List.mem_cons_of_mem _ member)
    rw [fill_field lookup unclosed unopened, fill_field other unclosed unopened, here, below]
  | unclosed rest single unclosed ih =>
    rw [fields_unclosed single unclosed] at same
    rw [fill_unclosed lookup single unclosed, fill_unclosed other single unclosed, ih same]
  | single c rest opening closing ih =>
    rw [fields_single opening closing] at same
    rw [fill_single lookup opening closing, fill_single other opening closing, ih same]

def erasing (name other : List Char) : Option (List Char) := if other = name then some [] else none

theorem length_fill_erasing (name text : List Char) :
    (fill (fun _ => none) text).length =
      (fill (erasing name) text).length + (name.length + 2) * ((fields text).map Prod.fst).count name := by
  induction text using induction_braces with
  | nil => simp
  | opening rest ih => simp [ih, Nat.add_right_comm]
  | closing rest ih => simp [ih, Nat.add_right_comm]
  | field other after unclosed unopened ih =>
    rw [fill_field _ unclosed unopened, fill_field _ unclosed unopened, fields_field unclosed unopened,
      List.map_cons, List.length_append, List.length_append, ih]
    by_cases same : other = name
    · subst same
      have longer : ('{' :: other ++ ['}']).length = other.length + 2 := by simp
      rw [Option.getD_none, longer, erasing, if_pos rfl, Option.getD_some, List.length_nil,
        List.count_cons_self, Nat.mul_succ]
      omega
    · have apart : (other, after).1 ≠ name := same
      rw [Option.getD_none, erasing, if_neg same, Option.getD_none, List.count_cons_of_ne apart,
        Nat.add_assoc]
  | unclosed rest single unclosed ih =>
    rw [fill_unclosed _ single unclosed, fill_unclosed _ single unclosed,
      fields_unclosed single unclosed, List.length_cons, List.length_cons, ih, Nat.add_right_comm]
  | single c rest opening closing ih =>
    rw [fill_single _ opening closing, fill_single _ opening closing, fields_single opening closing,
      List.length_cons, List.length_cons, ih, Nat.add_right_comm]

theorem fill_erasing_ne {name after text : List Char} (read : (name, after) ∈ fields text) :
    fill (erasing name) text ≠ fill (fun _ => none) text := by
  intro same
  have lengths := length_fill_erasing name text
  have some_ : 0 < ((fields text).map Prod.fst).count name :=
    List.count_pos_iff.mpr (List.mem_map_of_mem read)
  have shorter : 0 < (name.length + 2) * ((fields text).map Prod.fst).count name :=
    Nat.mul_pos (by omega) some_
  rw [same] at lengths
  omega

theorem dropPairs_cons_of_ne {c d : Char} (different : d ≠ c) (text : List Char) :
    dropPairs c (d :: text) = d :: dropPairs c text := by
  cases text with
  | nil => rfl
  | cons next rest => rw [dropPairs, if_neg fun same => different same.1]

theorem dropPairs_pair (c : Char) (text : List Char) :
    dropPairs c (c :: c :: text) = dropPairs c text := by
  rw [dropPairs, if_pos ⟨rfl, rfl⟩]

theorem dropPairs_single {c : Char} {text : List Char} (single : text.head? ≠ some c) :
    dropPairs c (c :: text) = c :: dropPairs c text := by
  cases text with
  | nil => rfl
  | cons next rest => rw [dropPairs, if_neg fun same => single (by simp [same.2])]

theorem dropPairs_append_cons {c d : Char} (different : d ≠ c) (text rest : List Char) :
    dropPairs c (text ++ d :: rest) = dropPairs c text ++ d :: dropPairs c rest := by
  fun_induction dropPairs c text with
  | case1 a b text pair ih =>
    obtain ⟨rfl, rfl⟩ := pair
    exact (dropPairs_pair _ _).trans ih
  | case2 a b text other ih =>
    rw [List.cons_append, List.cons_append, dropPairs, if_neg other]
    exact congrArg (a :: ·) ih
  | case3 short few =>
    match short with
    | [] => exact dropPairs_cons_of_ne different rest
    | [a] =>
      have apart : ¬(a = c ∧ d = c) := fun pair => different pair.2
      rw [List.singleton_append, dropPairs, if_neg apart, dropPairs_cons_of_ne different]
      rfl
    | a :: b :: more => exact (few a b more rfl).elim

theorem mem_of_mem_dropPairs {c d : Char} {text : List Char} (member : d ∈ dropPairs c text) :
    d ∈ text := by
  fun_induction dropPairs c text with
  | case1 a b text pair ih => simp [ih member]
  | case2 a b text other ih =>
    rcases List.mem_cons.mp member with rfl | member
    · exact List.mem_cons_self
    · exact List.mem_cons_of_mem a (ih member)
  | case3 => exact member

def countStart (c : Char) (text : List Char) : Nat := (text.takeWhile (· == c)).length

theorem dropPairs_cons_cases (c : Char) (text : List Char) :
    dropPairs c (c :: text) = c :: dropPairs c text ∧ countStart c text % 2 = 0 ∨
      dropPairs c text = c :: dropPairs c (c :: text) ∧ countStart c text % 2 = 1 := by
  induction text with
  | nil => exact Or.inl ⟨rfl, rfl⟩
  | cons d text ih =>
    by_cases same : d = c
    · subst same
      have longer : countStart d (d :: text) = countStart d text + 1 := by simp [countStart]
      rw [dropPairs_pair, longer]
      rcases ih with ⟨left, even⟩ | ⟨left, odd⟩
      · exact Or.inr ⟨left, by omega⟩
      · exact Or.inl ⟨left, by omega⟩
    · have none_ : countStart c (d :: text) = 0 := by simp [countStart, same]
      exact Or.inl ⟨dropPairs_single (by simpa using same), by rw [none_]⟩

theorem dropPairs_append_of_not_mem {c : Char} {text : List Char} (absent : c ∉ text)
    (rest : List Char) : dropPairs c (text ++ rest) = text ++ dropPairs c rest := by
  induction text with
  | nil => rfl
  | cons d text ih =>
    have different : d ≠ c := fun same => absent (by simp [same])
    have below := ih fun member => absent (List.mem_cons_of_mem d member)
    rw [List.cons_append, dropPairs_cons_of_ne different, below, List.cons_append]

theorem dropPairs_of_not_mem {c : Char} {text : List Char} (absent : c ∉ text) :
    dropPairs c text = text := by
  have whole := dropPairs_append_of_not_mem absent []
  have nothing : dropPairs c [] = [] := rfl
  rwa [nothing, List.append_nil] at whole

/-- No text, decimal digits, or a letter or low line before characters of words. -/
def IsSimple (name : List Char) : Prop :=
  (∀ c ∈ name, isDecimal c = true) ∨
    ∃ first rest, name = first :: rest ∧ isNameStart first = true ∧ ∀ c ∈ rest, isWordChar c = true

theorem isWordChar_of_isDecimal {c : Char} (digit : isDecimal c = true) : isWordChar c = true := by
  simp [isWordChar, digit]

theorem isWordChar_opening : isWordChar '{' = false := by decide +kernel

theorem isWordChar_closing : isWordChar '}' = false := by decide +kernel

theorem IsSimple.opening_not_mem {name : List Char} (simple : IsSimple name) : '{' ∉ name := by
  intro member
  rcases simple with digits | ⟨first, rest, rfl, letter, words⟩
  · have word := isWordChar_of_isDecimal (digits '{' member)
    rw [isWordChar_opening] at word
    cases word
  · rcases List.mem_cons.mp member with rfl | member
    · exact absurd letter (by decide)
    · have word := words '{' member
      rw [isWordChar_opening] at word
      cases word

private theorem dropWhile_name {inside : Char → Bool} (stop : inside '}' = false) {name : List Char}
    (all : ∀ c ∈ name, inside c = true) (rest : List Char) :
    (name ++ '}' :: rest).dropWhile inside = '}' :: rest := by
  rw [List.dropWhile_append_of_pos all, List.dropWhile_cons_of_neg (by simp [stop])]

theorem dropFieldName_of_isSimple {name : List Char} (simple : IsSimple name) (rest : List Char) :
    dropFieldName (name ++ '}' :: rest) = '}' :: rest := by
  have digitsStop : isDecimal '}' = false := by
    cases digit : isDecimal '}' with
    | false => rfl
    | true => exact (isWordChar_of_isDecimal digit).symm.trans isWordChar_closing
  have byName : ∀ first others, isNameStart first = true → (∀ c ∈ others, isWordChar c = true) →
      dropFieldName (first :: others ++ '}' :: rest) = '}' :: rest := by
    intro first others letter words
    rw [dropFieldName, List.cons_append, dropName?, if_pos letter, Option.getD_some,
      dropWhile_name isWordChar_closing words]
  rcases simple with digits | ⟨first, others, rfl, letter, words⟩
  · cases name with
    | nil => exact dropWhile_name digitsStop digits rest
    | cons first others =>
      by_cases letter : isNameStart first = true
      · exact byName first others letter fun c hc =>
          isWordChar_of_isDecimal (digits c (List.mem_cons_of_mem first hc))
      · have noName : dropName? (first :: others ++ '}' :: rest) = none := if_neg letter
        rw [dropFieldName, noName, Option.getD_none, dropWhile_name digitsStop digits]
  · exact byName first others letter words

theorem closesField_of_isSimple {name : List Char} (simple : IsSimple name) (rest : List Char) :
    closesField (name ++ '}' :: rest) = true := by
  have accessors : ∀ fuel, dropAccessors fuel ('}' :: rest) = '}' :: rest := by
    intro fuel
    cases fuel <;> rfl
  rw [closesField, dropFieldName_of_isSimple simple, accessors]
  rfl

theorem hasPlaceholder_cons_of_ne {c : Char} (different : c ≠ '{') (text : List Char) :
    hasPlaceholder (c :: text) = hasPlaceholder text := by
  simp [hasPlaceholder, different]

theorem hasPlaceholder_append {rest : List Char} (there : hasPlaceholder rest = true)
    (text : List Char) : hasPlaceholder (text ++ rest) = true := by
  induction text with
  | nil => exact there
  | cons c text ih => rw [List.cons_append, hasPlaceholder, ih, Bool.or_true]

/-- A closing brace in front makes and breaks no placeholder, even where it makes a pair. -/
theorem hasPlaceholder_dropPairs_closing (text : List Char) :
    hasPlaceholder (dropPairs '}' ('}' :: text)) = hasPlaceholder (dropPairs '}' text) := by
  rcases dropPairs_cons_cases '}' text with ⟨left, -⟩ | ⟨left, -⟩
  · rw [left, hasPlaceholder_cons_of_ne (by decide)]
  · rw [left, hasPlaceholder_cons_of_ne (by decide)]

/-- An odd number of closing braces follows, not counting pairs of opening ones between them: a brace before
them is taken out with the next one. -/
def TakesBrace (after : List Char) : Prop := countStart '}' (dropPairs '{' after) % 2 = 1

private theorem dropPairs_field {name : List Char} (unclosed : '}' ∉ name)
    (unopened : name.head? ≠ some '{') (after : List Char) :
    dropPairs '}' (dropPairs '{' ('{' :: name ++ '}' :: after)) =
      '{' :: dropPairs '{' name ++ dropPairs '}' ('}' :: dropPairs '{' after) := by
  have single : (name ++ '}' :: after).head? ≠ some '{' := by
    cases name with
    | nil => simp
    | cons c name => simpa using unopened
  have open_ : '}' ∉ dropPairs '{' name := fun member => unclosed (mem_of_mem_dropPairs member)
  rw [List.cons_append, dropPairs_single single, dropPairs_append_cons (by decide),
    dropPairs_cons_of_ne (by decide), dropPairs_append_of_not_mem open_]
  rfl

/-- In a text without a placeholder a field with a simple name loses the brace that ends it. -/
theorem takesBrace_of_mem_fields {text : List Char} (plain : isFormatString text = false)
    {field : List Char × List Char} (read : field ∈ fields text) (simple : IsSimple field.1) :
    TakesBrace field.2 := by
  unfold isFormatString at plain
  induction text using induction_braces with
  | nil => simp at read
  | opening rest ih =>
    rw [fields_opening_pair] at read
    rw [dropPairs_pair] at plain
    exact ih plain read
  | closing rest ih =>
    rw [fields_closing_pair] at read
    have apart : '}' ≠ '{' := by decide
    rw [dropPairs_cons_of_ne apart, dropPairs_cons_of_ne apart, dropPairs_pair] at plain
    exact ih plain read
  | field name after unclosed unopened ih =>
    rw [dropPairs_field unclosed unopened] at plain
    rw [fields_field unclosed unopened] at read
    rcases List.mem_cons.mp read with rfl | read
    · -- If the brace behind the name stayed, the field would be a placeholder.
      rcases dropPairs_cons_cases '}' (dropPairs '{' after) with ⟨kept, -⟩ | ⟨-, odd⟩
      · rw [kept, dropPairs_of_not_mem simple.opening_not_mem, List.cons_append, hasPlaceholder,
          closesField_of_isSimple simple] at plain
        cases plain
      · exact odd
    · refine ih ?_ read
      cases flagged : hasPlaceholder (dropPairs '}' (dropPairs '{' after)) with
      | false => rfl
      | true =>
        rw [← hasPlaceholder_dropPairs_closing] at flagged
        rw [hasPlaceholder_append flagged] at plain
        cases plain
  | unclosed rest single unclosed ih =>
    rw [fields_unclosed single unclosed] at read
    rw [dropPairs_single single, dropPairs_cons_of_ne (by decide), hasPlaceholder,
      Bool.or_eq_false_iff] at plain
    exact ih plain.2 read
  | single c rest opening closing ih =>
    rw [fields_single opening closing] at read
    rw [dropPairs_cons_of_ne opening] at plain
    refine ih ?_ read
    by_cases brace : c = '}'
    · rwa [brace, hasPlaceholder_dropPairs_closing] at plain
    · rwa [dropPairs_cons_of_ne brace, hasPlaceholder_cons_of_ne opening] at plain

def KnowsSimple (lookup : List Char → Option (List Char)) : Prop :=
  ∀ name, lookup name ≠ none → IsSimple name

theorem knowsSimple_erasing {name : List Char} (simple : IsSimple name) :
    KnowsSimple (erasing name) := by
  intro other known
  by_cases here : other = name
  · rwa [here]
  · exact absurd (if_neg here) known

/-- Values for simple names change nothing in a text without a placeholder, unless one belongs to a field that
loses the brace that ends it; and every field with a simple name is one that does. -/
theorem fill_of_not_isFormatString {text : List Char} (plain : isFormatString text = false) :
    (∀ lookup, KnowsSimple lookup →
      (∀ field ∈ fields text, lookup field.1 ≠ none → ¬TakesBrace field.2) →
        fill lookup text = fill (fun _ => none) text) ∧
      ∀ field ∈ fields text, IsSimple field.1 → TakesBrace field.2 ∧
        ∃ lookup, KnowsSimple lookup ∧ fill lookup text ≠ fill (fun _ => none) text := by
  constructor
  · intro lookup knows kept
    apply fill_congr
    intro field read
    by_contra known
    have takes : TakesBrace field.2 := takesBrace_of_mem_fields plain read (knows field.1 known)
    exact kept field read known takes
  · intro field read simple
    have takes : TakesBrace field.2 := takesBrace_of_mem_fields plain read simple
    exact ⟨takes, erasing field.1, knowsSimple_erasing simple, fill_erasing_ne read⟩

theorem fill_of_not_isFormatString_mixed :
    let text := ['{', 'n', '}', '}', ' ', '{', '{', 'm', '}', '}']
    isFormatString text = false ∧ KnowsSimple (erasing ['m']) ∧
      fill (erasing ['m']) text = fill (fun _ => none) text ∧
      ∃ lookup, KnowsSimple lookup ∧ fill lookup text ≠ fill (fun _ => none) text := by
  intro text
  have plain : isFormatString text = false := by decide +kernel
  have read : fields text = [(['n'], ['}', ' ', '{', '{', 'm', '}', '}'])] := by
    have rest : fields ['}', ' ', '{', '{', 'm', '}', '}'] = [] := by
      rw [fields_single (by decide) (by decide), fields_single (by decide) (by decide),
        fields_opening_pair, fields_single (by decide) (by decide), fields_closing_pair, fields_nil]
    have unclosed : '}' ∉ ['n'] := by decide
    have first := fields_field unclosed (by decide) ['}', ' ', '{', '{', 'm', '}', '}']
    rwa [rest] at first
  have simple : ∀ c, isNameStart c = true → IsSimple [c] := fun c letter =>
    Or.inr ⟨c, [], rfl, letter, by simp⟩
  have knows : KnowsSimple (erasing ['m']) := knowsSimple_erasing (simple 'm' (by decide))
  have both := fill_of_not_isFormatString plain
  refine ⟨plain, knows, both.1 _ knows ?_, ?_⟩
  · intro field member known
    rw [read, List.mem_singleton] at member
    rw [member] at known
    exact absurd (if_neg (by decide)) known
  · have member : (['n'], ['}', ' ', '{', '{', 'm', '}', '}']) ∈ fields text := by simp [read]
    exact (both.2 _ member (simple 'n' (by decide))).2

/-- A field that is filled in without being a placeholder. -/
theorem fill_of_unmarked :
    let lookup : List Char → Option (List Char) := fun name =>
      if name = ['n'] then some ['1'] else none
    KnowsSimple lookup ∧ isFormatString ['{', 'n', '}', '}'] = false ∧
      fill lookup ['{', 'n', '}', '}'] = ['1', '}'] ∧
      fill (fun _ => none) ['{', 'n', '}', '}'] = ['{', 'n', '}', '}'] := by
  intro lookup
  have unclosed : '}' ∉ ['n'] := by decide
  have filled : ∀ other, fill other ['{', 'n', '}', '}'] =
      (other ['n']).getD ['{', 'n', '}'] ++ ['}'] := by
    intro other
    have first := fill_field other unclosed (by decide) ['}']
    rwa [fill_single other (by decide) (by decide), fill_nil] at first
  refine ⟨?_, by decide +kernel, ?_, ?_⟩
  · intro name known
    by_cases here : name = ['n']
    · rw [here]
      exact Or.inr ⟨'n', [], rfl, by decide, by simp⟩
    · exact absurd (if_neg here) known
  · exact filled lookup
  · exact filled _

end Phrasebook.Text
