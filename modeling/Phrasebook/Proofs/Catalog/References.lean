import Phrasebook.Catalog.Reader
import Phrasebook.Proofs.Text.Blank

/-!
References to places in the sources. Words are read one after the other until they spell a place, and
the place that they spell is written with the same words but for the digits at its end.
-/

set_option autoImplicit false

namespace Phrasebook

open Text (IsWord)

namespace Occurrence

private theorem digitsValue_toDigits (n : Nat) : digitsValue (Nat.toDigits 10 n) = n := by
  have value := Nat.ofDigitChars_ten_toDigits (n := n)
  rw [Nat.ofDigitChars_eq_foldl] at value
  simpa [digitsValue, Nat.mul_comm] using value

private theorem isDigit_of_mem {n : Nat} {c : Char} (h : c ∈ Nat.toDigits 10 n) :
    c.isDigit = true :=
  Nat.isDigit_of_mem_toDigits (by decide) (by decide) h

private theorem not_isBlank_of_isDigit {c : Char} (h : c.isDigit = true) :
    Text.isBlank c = false := by
  simp only [Char.isDigit, Bool.and_eq_true, decide_eq_true_eq, UInt32.le_iff_toNat_le] at h
  have low : 48 ≤ c.toNat := h.1
  have high : c.toNat ≤ 57 := h.2
  simp [Text.isBlank]
  omega

theorem lineNumber?_toDigits {n : Nat} (h : n < lineBound) :
    lineNumber? (Nat.toDigits 10 n) = some n := by
  have unsigned : Text.dropStart? ['+'] (Nat.toDigits 10 n) = none := by
    cases hd : Nat.toDigits 10 n with
    | nil => rfl
    | cons c rest =>
      have digit : c.isDigit = true := isDigit_of_mem (n := n) (by simp [hd])
      have other : '+' ≠ c := by
        rintro rfl
        simp at digit
      simp [Text.dropStart?, other]
  have digits : (Nat.toDigits 10 n).all Char.isDigit = true :=
    List.all_eq_true.mpr fun c hc => isDigit_of_mem hc
  simp [lineNumber?, unsigned, digits, digitsValue_toDigits, h, Nat.toDigits_ne_nil]

private theorem of_mem_lineNumber? {text : List Char} {line : Nat}
    (h : lineNumber? text = some line) :
    text ≠ [] ∧ line < lineBound ∧ ∀ c ∈ text, c = '+' ∨ c.isDigit = true := by
  simp only [lineNumber?] at h
  split_ifs at h with conditions
  simp only [Bool.and_eq_true, Bool.not_eq_true', List.isEmpty_eq_false_iff,
    decide_eq_true_eq, List.all_eq_true] at conditions
  obtain ⟨⟨filled, digits⟩, small⟩ := conditions
  have value : digitsValue ((Text.dropStart? ['+'] text).getD text) = line := by simpa using h
  rw [value] at small
  cases signed : Text.dropStart? ['+'] text with
  | none =>
    simp only [signed, Option.getD_none] at filled digits
    exact ⟨filled, small, fun c hc => Or.inr (digits c hc)⟩
  | some rest =>
    simp only [signed, Option.getD_some] at filled digits
    obtain rfl := Text.eq_append_of_dropStart? signed
    refine ⟨by simp, small, ?_⟩
    intro c hc
    rcases List.mem_cons.mp hc with rfl | hc
    · exact Or.inl rfl
    · exact Or.inr (digits c hc)

private theorem colon_not_mem_lineNumber? {text : List Char} {line : Nat}
    (h : lineNumber? text = some line) : ':' ∉ text := by
  intro hc
  rcases (of_mem_lineNumber? h).2.2 ':' hc with h | h <;> simp at h

private theorem isWord_lineNumber? {text : List Char} {line : Nat}
    (h : lineNumber? text = some line) : IsWord text := by
  refine ⟨(of_mem_lineNumber? h).1, ?_⟩
  intro c hc
  rcases (of_mem_lineNumber? h).2.2 c hc with rfl | digit
  · decide
  · exact not_isBlank_of_isDigit digit

private theorem reverse_split {before after : List Char} (h : ':' ∉ after) :
    (before ++ ':' :: after).reverse.dropWhile (· != ':') = ':' :: before.reverse ∧
      (before ++ ':' :: after).reverse.takeWhile (· != ':') = after.reverse := by
  have other : ∀ c ∈ after.reverse, (c != ':') = true := by
    intro c hc
    have : c ∈ after := by simpa using hc
    grind
  have reversed : (before ++ ':' :: after).reverse = after.reverse ++ ':' :: before.reverse := by
    simp
  rw [reversed]
  exact ⟨by simp [List.dropWhile_append_of_pos other], by simp [List.takeWhile_append_of_pos other]⟩

theorem ofChars?_eq_some_iff {text : List Char} {occurrence : Occurrence} :
    ofChars? text = some occurrence ↔
      ∃ number, text = occurrence.path.toList ++ ':' :: number ∧ occurrence.path.toList ≠ [] ∧
        lineNumber? number = some occurrence.line := by
  constructor
  · intro h
    simp only [ofChars?] at h
    split at h
    · simp at h
    · rename_i c path found
      have head : c = ':' := by
        have stop := List.head?_dropWhile_not (· != ':') text.reverse
        simpa [found] using stop
      subst head
      split_ifs at h with empty
      obtain ⟨line, read, rfl⟩ := Option.map_eq_some_iff.mp h
      refine ⟨(text.reverse.takeWhile (· != ':')).reverse, ?_, by simpa using empty, read⟩
      have parts := List.takeWhile_append_dropWhile (p := (· != ':')) (l := text.reverse)
      rw [found] at parts
      have := congrArg List.reverse parts
      simpa using this.symm
  · rintro ⟨number, rfl, path, read⟩
    have clean : ':' ∉ number := colon_not_mem_lineNumber? read
    simp only [ofChars?, (reverse_split clean).1, (reverse_split clean).2, List.reverse_reverse,
      read, List.isEmpty_reverse]
    simp [path, String.ofList_toList]

theorem lt_lineBound_of_ofChars? {text : List Char} {occurrence : Occurrence}
    (h : ofChars? text = some occurrence) : occurrence.line < lineBound := by
  obtain ⟨number, -, -, read⟩ := ofChars?_eq_some_iff.mp h
  exact (of_mem_lineNumber? read).2.1

theorem ofChars?_toChars {occurrence : Occurrence} (path : occurrence.path.toList ≠ [])
    (small : occurrence.line < lineBound) : ofChars? occurrence.toChars = some occurrence :=
  ofChars?_eq_some_iff.mpr ⟨_, rfl, path, lineNumber?_toDigits small⟩

theorem lineFeed_not_mem_toChars {occurrence : Occurrence} (h : '\n' ∉ occurrence.path.toList) :
    '\n' ∉ occurrence.toChars := by
  have digits : '\n' ∉ Nat.toDigits 10 occurrence.line := by
    intro hc
    exact absurd (isDigit_of_mem hc) (by decide)
  simp [toChars, h, digits]

theorem getLast?_toChars (occurrence : Occurrence) :
    ∃ c, occurrence.toChars.getLast? = some c ∧ Text.isBlank c = false := by
  obtain ⟨c, hc⟩ := Option.ne_none_iff_exists'.mp
    (mt List.getLast?_eq_none_iff.mp (Nat.toDigits_ne_nil (n := occurrence.line) (b := 10)))
  refine ⟨c, ?_, not_isBlank_of_isDigit (isDigit_of_mem (List.mem_of_getLast? hc))⟩
  simp [toChars, List.getLast?_append, List.getLast?_cons, hc]

end Occurrence

namespace Catalog

/-- Words that spell a place together, but none as long as the last of them are missing. -/
structure Spells (found : List (List Char)) (occurrence : Occurrence) : Prop where
  words : ∀ word ∈ found, IsWord word
  whole : Occurrence.ofChars? (Text.joinWith [' '] found) = some occurrence
  early : ∀ start, start <+: found → start ≠ [] → start ≠ found →
    Occurrence.ofChars? (Text.joinWith [' '] start) = none

private theorem references_cons {start : List (List Char)} (words : ∀ word ∈ start, IsWord word)
    (word : List Char) (rest : List (List Char)) :
    references (Text.joinWith [' '] start) (word :: rest) =
      match Occurrence.ofChars? (Text.joinWith [' '] (start ++ [word])) with
      | some occurrence => occurrence :: references [] rest
      | none => references (Text.joinWith [' '] (start ++ [word])) rest := by
  cases start with
  | nil => rfl
  | cons first others =>
    have written : Text.joinWith [' '] (first :: others) ≠ [] := by
      have full := (words first (by simp)).1
      cases others <;> simp [Text.joinWith, full]
    have longer : Text.joinWith [' '] (first :: others ++ [word]) =
        Text.joinWith [' '] (first :: others) ++ ' ' :: word := by
      rw [Text.joinWith_append_singleton (by simp), List.append_assoc, List.singleton_append]
    have filled : (Text.joinWith [' '] (first :: others)).isEmpty = false := by
      simpa using written
    rw [longer]
    cases read : Occurrence.ofChars? (Text.joinWith [' '] (first :: others) ++ ' ' :: word) with
    | none => simp only [references, filled, Bool.false_eq_true, if_false, read]
    | some occurrence => simp only [references, filled, Bool.false_eq_true, if_false, read]

private theorem references_append (start : List (List Char)) {more rest : List (List Char)}
    {occurrence : Occurrence} (spelled : Spells (start ++ more) occurrence) (missing : more ≠ []) :
    references (Text.joinWith [' '] start) (more ++ rest) = occurrence :: references [] rest := by
  induction more generalizing start with
  | nil => exact absurd rfl missing
  | cons word more ih =>
    have words : ∀ other ∈ start, IsWord other := fun other ho =>
      spelled.words other (by simp [ho])
    rw [List.cons_append, references_cons words]
    by_cases last : more = []
    · subst last
      simp [spelled.whole]
    · have unfinished : Occurrence.ofChars? (Text.joinWith [' '] (start ++ [word])) = none := by
        refine spelled.early _ ⟨more, by simp⟩ (by simp) ?_
        intro same
        have := congrArg List.length same
        simp at this
        exact last this
      have further : Spells ((start ++ [word]) ++ more) occurrence := by
        simpa [List.append_assoc] using spelled
      rw [unfinished]
      exact ih _ further last

/-- Words that spell a place are read as that place, whatever follows. -/
theorem references_of_spells {found : List (List Char)} {occurrence : Occurrence}
    (spelled : Spells found occurrence) (rest : List (List Char)) :
    references [] (found ++ rest) = occurrence :: references [] rest := by
  have filled : found ≠ [] := by
    rintro rfl
    have whole := spelled.whole
    simp [Occurrence.ofChars?] at whole
  exact references_append [] (by simpa using spelled) filled

private def Unfinished (start : List (List Char)) : Prop :=
  ∀ shorter, shorter <+: start → shorter ≠ [] →
    Occurrence.ofChars? (Text.joinWith [' '] shorter) = none

private theorem exists_spells (start : List (List Char)) {rest : List (List Char)}
    {occurrence : Occurrence} (words : ∀ word ∈ start ++ rest, IsWord word) (unfinished : Unfinished start)
    (h : occurrence ∈ references (Text.joinWith [' '] start) rest) :
    ∃ found, Spells found occurrence ∧ ∀ word ∈ found, word ∈ start ++ rest := by
  induction rest generalizing start with
  | nil => simp [references] at h
  | cons word rest ih =>
    have before : ∀ other ∈ start, IsWord other := fun other ho => words other (by simp [ho])
    have through : ∀ other ∈ start ++ [word], IsWord other := fun other ho =>
      words other (by simp at ho ⊢; tauto)
    rw [references_cons before] at h
    split at h
    · rename_i spelled whole
      rcases List.mem_cons.mp h with rfl | h
      · refine ⟨start ++ [word], ⟨through, whole, ?_⟩, fun other ho => by simp at ho ⊢; tauto⟩
        intro shorter hs filled different
        rcases List.prefix_concat_iff.mp hs with rfl | hs
        · exact absurd rfl different
        · exact unfinished shorter hs filled
      · obtain ⟨found, spells, within⟩ := ih []
          (fun other ho => words other (by simp at ho ⊢; tauto))
          (fun shorter hs filled => absurd (List.prefix_nil.mp hs) filled) h
        exact ⟨found, spells, fun other ho => by have := within other ho; simp at this ⊢; tauto⟩
    · rename_i unspelled
      obtain ⟨found, spells, within⟩ := ih (start ++ [word]) (by simpa using words)
        (fun shorter hs filled => by
          rcases List.prefix_concat_iff.mp hs with rfl | hs
          · exact unspelled
          · exact unfinished shorter hs filled) h
      exact ⟨found, spells, fun other ho => by simpa using within other ho⟩

theorem exists_spells_of_mem {text : List Char} {occurrence : Occurrence}
    (h : occurrence ∈ parseReferences text) :
    ∃ found, Spells found occurrence ∧ ∀ word ∈ found, word ∈ Text.words text := by
  have words : ∀ word ∈ [] ++ Text.words text, IsWord word := fun word hw =>
    Text.isWord_of_mem_words (by simpa using hw)
  have nothing : Unfinished [] := fun shorter hs filled =>
    absurd (List.prefix_nil.mp hs) filled
  simpa using exists_spells [] words nothing h

theorem Spells.lineFeed_not_mem {found : List (List Char)} {occurrence : Occurrence}
    (spelled : Spells found occurrence) : '\n' ∉ occurrence.path.toList := by
  obtain ⟨number, whole, -, -⟩ := Occurrence.ofChars?_eq_some_iff.mp spelled.whole
  have clean : '\n' ∉ Text.joinWith [' '] found := by
    intro hc
    rcases Text.mem_joinWith hc with hc | ⟨word, hw, hc⟩
    · simp at hc
    · exact absurd ((spelled.words word hw).2 '\n' hc) (by decide)
  rw [whole] at clean
  intro hc
  exact clean (List.mem_append_left _ hc)

private theorem Spells.exists_last {found : List (List Char)} {occurrence : Occurrence}
    (spelled : Spells found occurrence) :
    ∃ start rest number, found = start ++ [rest ++ ':' :: number] ∧
      ∀ digits, Text.joinWith [' '] (start ++ [rest ++ ':' :: digits]) =
        occurrence.path.toList ++ ':' :: digits := by
  obtain ⟨number, whole, -, read⟩ := Occurrence.ofChars?_eq_some_iff.mp spelled.whole
  have full : found ≠ [] := by
    rintro rfl
    simp at whole
  obtain ⟨start, word, rfl⟩ : ∃ start word, found = start ++ [word] :=
    ⟨found.dropLast, found.getLast full, (List.dropLast_append_getLast full).symm⟩
  by_cases alone : start = []
  · subst alone
    refine ⟨[], occurrence.path.toList, number, ?_, fun digits => rfl⟩
    simpa using whole
  · rw [Text.joinWith_append_singleton alone] at whole
    -- No blank follows the colon, so that it is in the last word.
    have blankless : ' ' ∉ ':' :: number := by
      intro hb
      rcases List.mem_cons.mp hb with hb | hb
      · simp at hb
      · exact absurd ((Occurrence.isWord_lineNumber? read).2 ' ' hb) (by decide)
    rcases List.append_eq_append_iff.mp whole with ⟨rest, path, word⟩ | ⟨rest, before, after⟩
    · refine ⟨start, rest, number, by rw [word], ?_⟩
      intro digits
      rw [Text.joinWith_append_singleton alone, path]
      simp
    · have nothing : rest = [] := by
        by_contra filled
        obtain ⟨c, hc⟩ := Option.ne_none_iff_exists'.mp (mt List.getLast?_eq_none_iff.mp filled)
        have last := congrArg List.getLast? before
        rw [List.getLast?_append, List.getLast?_append, hc] at last
        have blank : ' ' = c := by simpa using last
        subst blank
        exact blankless (after ▸ List.mem_append_left _ (List.mem_of_getLast? hc))
      subst nothing
      refine ⟨start, [], number, by simpa using after.symm, ?_⟩
      intro digits
      rw [Text.joinWith_append_singleton alone, before]
      simp

theorem Spells.exists_written {found : List (List Char)} {occurrence : Occurrence}
    (spelled : Spells found occurrence) :
    ∃ written, Spells written occurrence ∧ Text.joinWith [' '] written = occurrence.toChars := by
  obtain ⟨number, -, path, read⟩ := Occurrence.ofChars?_eq_some_iff.mp spelled.whole
  obtain ⟨start, rest, written, rfl, glued⟩ := spelled.exists_last
  have digits := glued (Nat.toDigits 10 occurrence.line)
  have last : IsWord (rest ++ ':' :: Nat.toDigits 10 occurrence.line) := by
    have old : IsWord (rest ++ ':' :: written) := spelled.words _ (by simp)
    refine ⟨by simp, ?_⟩
    intro c hc
    rcases List.mem_append.mp hc with hc | hc
    · exact old.2 c (by simp [hc])
    · rcases List.mem_cons.mp hc with rfl | hc
      · decide
      · exact Occurrence.not_isBlank_of_isDigit (Occurrence.isDigit_of_mem hc)
  refine ⟨start ++ [rest ++ ':' :: Nat.toDigits 10 occurrence.line], ⟨?_, ?_, ?_⟩, digits⟩
  · intro word hw
    rcases List.mem_append.mp hw with hw | hw
    · exact spelled.words word (by simp [hw])
    · rw [List.mem_singleton.mp hw]
      exact last
  · rw [digits]
    exact Occurrence.ofChars?_toChars path (Occurrence.of_mem_lineNumber? read).2.1
  · intro shorter hs filled different
    rcases List.prefix_concat_iff.mp hs with rfl | hs
    · exact absurd rfl different
    · refine spelled.early shorter (hs.trans (List.prefix_append _ _)) filled ?_
      rintro rfl
      have longer := hs.length_le
      rw [List.length_append, List.length_singleton] at longer
      omega

theorem parseReferences_toChars {found : List (List Char)} {occurrence : Occurrence}
    (spelled : Spells found occurrence) : parseReferences occurrence.toChars = [occurrence] := by
  obtain ⟨written, again, digits⟩ := spelled.exists_written
  have readBack := references_of_spells again []
  rw [parseReferences, ← digits, Text.words_joinWith again.words]
  simpa [references] using readBack

end Catalog

end Phrasebook
