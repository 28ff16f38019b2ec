import Phrasebook.Catalog.Printer
import Phrasebook.Proofs.Text.Blank

/-!
Strings between quotes: what is written is read back, and a written string stands on one line.
-/

set_option autoImplicit false

namespace Phrasebook.Catalog

open Text (IsLine IsTrimmed)

private theorem unescape_append_escapeChar (c : Char) (rest : List Char) :
    unescape (escapeChar c ++ rest) = c :: unescape rest := by
  unfold escapeChar
  split_ifs with h1 h2 h3 h4 h5
  · subst h1
    rfl
  · subst h2
    rfl
  · subst h3
    rfl
  · subst h4
    rfl
  · subst h5
    rfl
  · cases rest with
    | nil => simp [unescape]
    | cons d rest => simp [unescape, h1]

/-- What is written is read back. -/
theorem unescape_escape (text : List Char) : unescape (escape text) = text := by
  induction text with
  | nil => rfl
  | cons c rest ih => rw [escape, List.flatMap_cons, unescape_append_escapeChar, ← escape, ih]

theorem lineFeed_not_mem_escape (text : List Char) : '\n' ∉ escape text := by
  simp only [escape, List.mem_flatMap, not_exists, not_and]
  intro c _
  unfold escapeChar
  split_ifs <;> simp_all [eq_comm]

@[simp] theorem trim_quoted (text : List Char) : Text.trim (quoted text) = quoted text := by
  refine Text.trim_of_isTrimmed ⟨?_, ?_⟩
  · intro c hc
    obtain rfl : '"' = c := by simpa [quoted] using hc
    rfl
  · intro c hc
    obtain rfl : '"' = c := by simpa [quoted, List.getLast?_cons] using hc
    rfl

theorem unquote?_quoted (text : List Char) : unquote? (quoted text) = some text := by
  have opened : Text.dropStart? ['"'] (quoted text) = some (escape text ++ ['"']) :=
    Text.dropStart?_append ['"'] _
  simp [unquote?, opened, unescape_escape]

theorem isLine_append_quoted {keyword : List Char} (h : '\n' ∉ keyword) (text : List Char) :
    IsLine (keyword ++ quoted text) := by
  refine ⟨?_, ?_⟩
  · have inside := lineFeed_not_mem_escape text
    simp [quoted, h, inside]
  · simp [quoted, List.getLast?_append, List.getLast?_cons]

theorem isLine_of_mem_quoted {keyword : List Char} (h : '\n' ∉ keyword) {first : List Char}
    {others : List (List Char)} {line : List Char}
    (hl : line ∈ (keyword ++ quoted first) :: others.map quoted) : IsLine line := by
  rcases List.mem_cons.mp hl with rfl | hl
  · exact isLine_append_quoted h first
  · obtain ⟨piece, -, rfl⟩ := List.mem_map.mp hl
    rw [← List.nil_append (quoted piece)]
    exact isLine_append_quoted (by simp) piece

theorem isTrimmed_append_quoted {keyword : List Char}
    (h : ∀ c, keyword.head? = some c → Text.isBlank c = false) (text : List Char) :
    IsTrimmed (keyword ++ quoted text) := by
  refine ⟨?_, ?_⟩
  · intro c hc
    cases keyword with
    | nil =>
      obtain rfl : '"' = c := by simpa [quoted] using hc
      rfl
    | cons d rest => exact h c (by simpa using hc)
  · intro c hc
    obtain rfl : '"' = c := by
      simpa [quoted, List.getLast?_append, List.getLast?_cons] using hc
    rfl

@[simp] theorem segments_flatten (text : List Char) : (segments text).flatten = text := by
  fun_induction segments text with
  | case1 => rfl
  | case2 rest ih => simp [ih]
  | case3 c rest hc alone ih =>
    rw [alone] at ih
    simpa using ih
  | case4 c rest hc piece pieces found ih =>
    rw [found] at ih
    simpa using ih

/-- The texts that the lines of a string after its keyword hold: one, or an empty one and the
pieces. -/
def stringPieces (text : List Char) : List Char × List (List Char) :=
  if (segments text).length ≤ 1 then (text, []) else ([], segments text)

theorem stringLines_eq (keyword text : List Char) :
    stringLines keyword text =
      (keyword ++ quoted (stringPieces text).1) :: (stringPieces text).2.map quoted := by
  unfold stringLines stringPieces
  split
  · rename_i found
    simp [found]
  · rename_i short
    have few : (segments text).length ≤ 1 := by
      match h : segments text, short with
      | [], _ => simp
      | [_], _ => simp
      | first :: second :: others, short => exact absurd rfl (short first second others)
    simp [few]

theorem isLine_stringLines {keyword : List Char} (h : '\n' ∉ keyword) (text : List Char)
    {line : List Char} (hl : line ∈ stringLines keyword text) : IsLine line := by
  rw [stringLines_eq] at hl
  exact isLine_of_mem_quoted h hl

theorem stringPieces_flatten (text : List Char) :
    (stringPieces text).1 ++ (stringPieces text).2.flatten = text := by
  unfold stringPieces
  split <;> simp

end Phrasebook.Catalog
