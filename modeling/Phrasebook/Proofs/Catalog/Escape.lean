import Mathlib.Algebra.Ring.Parity
import Mathlib.Data.List.DropRight
import Mathlib.Data.List.Induction
import Phrasebook.Proofs.Catalog.Quoting

/-!
Escapes as a code. Each character is written as a sign of its own, so the texts that are written are those
that signs make up, and a quote in them always has the last backslash before it to itself. Reading is
lenient; what it keeps as it finds it would be written in another way.
-/

set_option autoImplicit false

namespace Phrasebook.Catalog

/-- What one character is written as: itself, or a backslash and a letter. -/
inductive IsSign : List Char → Prop
  | plain {c : Char} (ordinary : c ∉ ['\\', '"', '\t', '\r', '\n']) : IsSign [c]
  | escape {letter : Char} (known : letter ∈ ['\\', 't', 'r', 'n', '"']) : IsSign ['\\', letter]

def IsWritten (text : List Char) : Prop :=
  ∃ signs : List (List Char), (∀ sign ∈ signs, IsSign sign) ∧ signs.flatten = text

theorem isSign_iff {sign : List Char} : IsSign sign ↔ ∃ c, escapeChar c = sign := by
  constructor
  · intro known
    cases known with
    | @plain c ordinary =>
      refine ⟨c, ?_⟩
      simp only [List.mem_cons, List.not_mem_nil, or_false, not_or] at ordinary
      obtain ⟨backslash, quote, tab, carriageReturn, lineFeed⟩ := ordinary
      simp only [escapeChar, backslash, quote, tab, carriageReturn, lineFeed, if_false]
    | escape known =>
      simp only [List.mem_cons, List.not_mem_nil, or_false] at known
      obtain rfl | rfl | rfl | rfl | rfl := known
      · exact ⟨'\\', rfl⟩
      · exact ⟨'\t', rfl⟩
      · exact ⟨'\r', rfl⟩
      · exact ⟨'\n', rfl⟩
      · exact ⟨'"', rfl⟩
  · rintro ⟨c, rfl⟩
    unfold escapeChar
    split_ifs with backslash tab carriageReturn lineFeed quote
    · exact .escape (by decide)
    · exact .escape (by decide)
    · exact .escape (by decide)
    · exact .escape (by decide)
    · exact .escape (by decide)
    · exact .plain (by simp [backslash, quote, tab, carriageReturn, lineFeed])

theorem escape_cons (c : Char) (text : List Char) :
    escape (c :: text) = escapeChar c ++ escape text := List.flatMap_cons

theorem escape_append (first second : List Char) :
    escape (first ++ second) = escape first ++ escape second := List.flatMap_append

theorem isWritten_iff {written : List Char} : IsWritten written ↔ ∃ text, escape text = written := by
  constructor
  · rintro ⟨signs, known, rfl⟩
    induction signs with
    | nil => exact ⟨[], rfl⟩
    | cons sign signs ih =>
      obtain ⟨c, first⟩ := isSign_iff.mp (known sign (by simp))
      obtain ⟨text, others⟩ := ih fun other ho => known other (by simp [ho])
      exact ⟨c :: text, by rw [escape_cons, first, others, List.flatten_cons]⟩
  · rintro ⟨text, rfl⟩
    refine ⟨text.map escapeChar, fun sign member => ?_, List.flatMap_def.symm⟩
    obtain ⟨c, -, rfl⟩ := List.mem_map.mp member
    exact isSign_iff.mpr ⟨c, rfl⟩

/-- What is read is written again in the same way exactly if it was made up of signs. -/
theorem escape_unescape_eq_iff {written : List Char} :
    escape (unescape written) = written ↔ IsWritten written := by
  rw [isWritten_iff]
  constructor
  · exact fun same => ⟨unescape written, same⟩
  · rintro ⟨text, rfl⟩
    rw [unescape_escape]

instance : DecidablePred IsWritten := fun _ => decidable_of_iff _ escape_unescape_eq_iff

theorem IsSign.not_mem {sign : List Char} (known : IsSign sign) {c : Char}
    (raw : c ∈ ['\n', '\r', '\t']) : c ∉ sign := by
  have special : c ∈ ['\\', '"', '\t', '\r', '\n'] := by
    simp only [List.mem_cons] at raw ⊢
    tauto
  have unlettered : c ∉ ['\\', 't', 'r', 'n', '"'] := by
    simp only [List.mem_cons, List.not_mem_nil, or_false] at raw
    obtain rfl | rfl | rfl := raw <;> decide
  cases known with
  | plain ordinary =>
    intro member
    obtain rfl := List.mem_singleton.mp member
    exact ordinary special
  | escape known =>
    intro member
    rcases List.mem_cons.mp member with rfl | member
    · exact unlettered (by decide)
    · obtain rfl := List.mem_singleton.mp member
      exact unlettered known

theorem IsWritten.not_mem {text : List Char} (written : IsWritten text) {c : Char}
    (raw : c ∈ ['\n', '\r', '\t']) : c ∉ text := by
  obtain ⟨signs, known, rfl⟩ := written
  intro member
  obtain ⟨sign, among, inside⟩ := List.mem_flatten.mp member
  exact (known sign among).not_mem raw inside

def backslashes (text : List Char) : Nat := (text.rtakeWhile (· == '\\')).length

theorem backslashes_concat (text : List Char) (c : Char) :
    backslashes (text ++ [c]) = if c = '\\' then backslashes text + 1 else 0 := by
  by_cases same : c = '\\' <;> simp [backslashes, same]

theorem IsSign.eq_or_exists_last {sign : List Char} (known : IsSign sign) :
    sign = ['\\', '\\'] ∨ ∃ start last, sign = start ++ [last] ∧ last ≠ '\\' := by
  cases known with
  | plain ordinary =>
    refine Or.inr ⟨[], _, rfl, ?_⟩
    rintro rfl
    exact ordinary (by decide)
  | @escape letter known =>
    by_cases same : letter = '\\'
    · exact Or.inl (by rw [same])
    · exact Or.inr ⟨['\\'], letter, rfl, same⟩

theorem IsWritten.even_backslashes {text : List Char} (written : IsWritten text) :
    Even (backslashes text) := by
  obtain ⟨signs, known, rfl⟩ := written
  induction signs using List.reverseRecOn with
  | nil => exact ⟨0, rfl⟩
  | append_singleton signs sign ih =>
    have below := ih fun other ho => known other (by simp [ho])
    rw [List.flatten_append, List.flatten_singleton]
    rcases (known sign (by simp)).eq_or_exists_last with rfl | ⟨start, last, rfl, other⟩
    · rw [List.append_cons, backslashes_concat, backslashes_concat, if_pos rfl, if_pos rfl]
      exact below.add_one.add_one
    · rw [← List.append_assoc, backslashes_concat, if_neg other]
      exact ⟨0, rfl⟩

theorem IsSign.eq_of_quote {before after : List Char} (known : IsSign (before ++ '"' :: after)) :
    before = ['\\'] := by
  generalize whole : before ++ '"' :: after = sign at known
  cases known with
  | plain ordinary =>
    obtain ⟨rfl, single⟩ | ⟨_, none⟩ := List.append_eq_singleton_iff.mp whole
    · obtain ⟨rfl, -⟩ := List.cons.inj single
      exact absurd (by decide) ordinary
    · cases none
  | escape known =>
    match before, whole with
    | [], whole => cases whole
    | [first], whole =>
      obtain ⟨rfl, -⟩ := List.cons.inj whole
      rfl
    | first :: second :: more, whole =>
      have lengths := congrArg List.length whole
      simp at lengths

theorem IsWritten.exists_of_quote {before after : List Char}
    (written : IsWritten (before ++ '"' :: after)) :
    ∃ start, IsWritten start ∧ before = start ++ ['\\'] := by
  obtain ⟨signs, known, whole⟩ := written
  induction signs generalizing before with
  | nil => simp at whole
  | cons sign signs ih =>
    have first := known sign (by simp)
    have others : ∀ other ∈ signs, IsSign other := fun other ho => known other (by simp [ho])
    rw [List.flatten_cons] at whole
    rcases List.append_eq_append_iff.mp whole with ⟨inner, rfl, rest⟩ | ⟨inner, rfl, rest⟩
    · obtain ⟨start, ⟨found, among, rfl⟩, rfl⟩ := ih others rest
      exact ⟨_, ⟨sign :: found, by simpa using ⟨first, among⟩, List.flatten_cons⟩, by simp⟩
    · cases inner with
      | nil =>
        -- The quote would be the first character of a sign.
        have early : signs.flatten = [] ++ '"' :: after := by simpa using rest.symm
        obtain ⟨start, -, none⟩ := ih others early
        simp at none
      | cons quote inner =>
        obtain ⟨rfl, -⟩ := List.cons.inj rest
        exact ⟨[], ⟨[], by simp, rfl⟩, first.eq_of_quote⟩

theorem IsWritten.odd_backslashes {before after : List Char}
    (written : IsWritten (before ++ '"' :: after)) : Odd (backslashes before) := by
  obtain ⟨start, whole, rfl⟩ := written.exists_of_quote
  rw [backslashes_concat, if_pos rfl]
  exact whole.even_backslashes.add_one

/-- Escaping loses nothing, breaks no line, guards every quote and works character by character; and of all
the texts that can be read, those that are written again as they were are the ones made up of signs. -/
theorem escape_isFaithful :
    (∀ text, unescape (escape text) = text) ∧
    (∀ text, ∀ c ∈ ['\n', '\r', '\t'], c ∉ escape text) ∧
    (∀ text before after, escape text = before ++ '"' :: after → Odd (backslashes before)) ∧
    (∀ first second, escape (first ++ second) = escape first ++ escape second) ∧
    ∀ written, escape (unescape written) = written ↔ IsWritten written := by
  have written (text : List Char) : IsWritten (escape text) := isWritten_iff.mpr ⟨text, rfl⟩
  refine ⟨unescape_escape, fun text c raw => (written text).not_mem raw, ?_, escape_append,
    fun _ => escape_unescape_eq_iff⟩
  intro text before after whole
  have quoted := written text
  rw [whole] at quoted
  exact quoted.odd_backslashes

theorem escape_isFaithful_of_guarded :
    escape ['a', '\\', '"', '\t'] = ['a', '\\', '\\', '\\'] ++ '"' :: ['\\', 't'] ∧
      Odd (backslashes ['a', '\\', '\\', '\\']) := by
  obtain ⟨-, -, guarded, -, -⟩ := escape_isFaithful
  have whole : escape ['a', '\\', '"', '\t'] = ['a', '\\', '\\', '\\'] ++ '"' :: ['\\', 't'] := by decide
  exact ⟨whole, guarded _ _ _ whole⟩

/-- Escapes that are not known and a last backslash are read as they are, but not written so. -/
example : unescape ['\\', 'x', '\\'] = ['\\', 'x', '\\'] ∧ ¬IsWritten ['\\', 'x', '\\'] ∧
    IsWritten ['\\', '\\', 'n'] := by decide

end Phrasebook.Catalog
