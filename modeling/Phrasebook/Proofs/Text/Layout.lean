import Phrasebook.Proofs.Text.Blank

/-!
Lines as they stand in a text, with blanks around them and blank lines between them.
-/

set_option autoImplicit false

namespace Phrasebook.Text

theorem trimEnd_append_of_forall {after : List Char} (blank : ∀ c ∈ after, isBlank c = true)
    (text : List Char) : trimEnd (text ++ after) = trimEnd text := by
  have reversed : ∀ c ∈ after.reverse, isBlank c = true := fun c hc =>
    blank c (List.mem_reverse.mp hc)
  rw [trimEnd, List.reverse_append, List.dropWhile_append_of_pos reversed, trimEnd]

theorem trim_of_forall {text : List Char} (blank : ∀ c ∈ text, isBlank c = true) :
    trim text = [] := by
  have start : trimStart text = [] := List.dropWhile_eq_nil_iff.mpr blank
  rw [trim, start]
  rfl

theorem trim_append_of_forall {after : List Char} (blank : ∀ c ∈ after, isBlank c = true)
    (text : List Char) : trim (text ++ after) = trim text := by
  by_cases nothing : ∀ c ∈ text, isBlank c = true
  · have whole : ∀ c ∈ text ++ after, isBlank c = true := fun c hc =>
      (List.mem_append.mp hc).elim (nothing c) (blank c)
    rw [trim_of_forall whole, trim_of_forall nothing]
  · have something : text.dropWhile isBlank ≠ [] := mt List.dropWhile_eq_nil_iff.mp nothing
    have start : trimStart (text ++ after) = trimStart text ++ after := by
      rw [trimStart, List.dropWhile_append, if_neg (by simpa using something), trimStart]
    rw [trim, start, trimEnd_append_of_forall blank, trim]

theorem trim_append_left_of_forall {gap : List Char} (blank : ∀ c ∈ gap, isBlank c = true)
    (text : List Char) : trim (gap ++ text) = trim text := by
  rw [trim, trimStart, List.dropWhile_append_of_pos blank, trim, trimStart]

theorem trimEnd_cons_of_not_isBlank {c : Char} (solid : isBlank c = false) (text : List Char) :
    trimEnd (c :: text) = c :: trimEnd text := by
  rw [trimEnd, List.reverse_cons, List.dropWhile_append]
  split
  · rename_i nothing
    have empty : text.reverse.dropWhile isBlank = [] := by simpa using nothing
    simp [trimEnd, empty, solid]
  · simp [trimEnd]

theorem exists_trimEnd_append (text : List Char) :
    ∃ after, text = trimEnd text ++ after ∧ ∀ c ∈ after, isBlank c = true := by
  refine ⟨(text.reverse.takeWhile isBlank).reverse, ?_, ?_⟩
  · have parts := List.takeWhile_append_dropWhile (p := isBlank) (l := text.reverse)
    have turned := congrArg List.reverse parts
    rw [List.reverse_append, List.reverse_reverse] at turned
    exact turned.symm
  · intro c hc
    exact List.mem_takeWhile_imp (List.mem_reverse.mp hc)

@[simp] theorem trim_trimEnd (text : List Char) : trim (trimEnd text) = trim text := by
  obtain ⟨after, whole, blank⟩ := exists_trimEnd_append text
  conv_rhs => rw [whole, trim_append_of_forall blank]

theorem words_append_of_isBlank {c : Char} (blank : isBlank c = true) (text rest : List Char) :
    words (text ++ c :: rest) = words text ++ words rest := by
  rw [words, splitAt_append text rest blank, List.filter_append, words, words]

theorem words_append_left_of_forall {space : List Char} (blank : ∀ c ∈ space, isBlank c = true)
    (text : List Char) : words (space ++ text) = words text := by
  induction space with
  | nil => rfl
  | cons c space ih =>
    rw [List.cons_append, words_cons_of_isBlank (blank c (by simp)),
      ih fun d hd => blank d (by simp [hd])]

@[simp] theorem words_trimEnd (text : List Char) : words (trimEnd text) = words text := by
  obtain ⟨after, whole, blank⟩ := exists_trimEnd_append text
  conv_rhs => rw [whole]
  cases after with
  | nil => rw [List.append_nil]
  | cons c rest =>
    have below : ∀ d ∈ rest, isBlank d = true := fun d hd => blank d (by simp [hd])
    have nothing : words rest = [] := by
      have read := words_append_left_of_forall below []
      rwa [List.append_nil] at read
    rw [words_append_of_isBlank (blank c (by simp)), nothing, List.append_nil]

theorem exists_splitAt_append {cut : Char → Bool} {after : List Char}
    (uncut : ∀ c ∈ after, cut c = false) (text : List Char) :
    ∃ start last, splitAt cut text = start ++ [last] ∧
      splitAt cut (text ++ after) = start ++ [last ++ after] := by
  induction text with
  | nil => exact ⟨[], [], rfl, splitAt_of_forall uncut⟩
  | cons c text ih =>
    obtain ⟨start, last, before, behind⟩ := ih
    by_cases here : cut c = true
    · exact ⟨[] :: start, last, by simp [splitAt, here, before], by simp [splitAt, here, behind]⟩
    · cases start with
      | nil =>
        exact ⟨[], c :: last, by simp [splitAt, here, before], by simp [splitAt, here, behind]⟩
      | cons first start =>
        exact ⟨(c :: first) :: start, last, by simp [splitAt, here, before],
          by simp [splitAt, here, behind]⟩

theorem map_trim_splitAt_trimEnd {cut : Char → Bool}
    (uncut : ∀ c, isBlank c = true → cut c = false) (text : List Char) :
    (splitAt cut (trimEnd text)).map trim = (splitAt cut text).map trim := by
  obtain ⟨after, whole, blank⟩ := exists_trimEnd_append text
  obtain ⟨start, last, before, behind⟩ :=
    exists_splitAt_append (fun c hc => uncut c (blank c hc)) (trimEnd text)
  rw [← whole] at behind
  rw [before, behind, List.map_append, List.map_append, List.map_singleton, List.map_singleton,
    trim_append_of_forall blank]

def solidLines (text : List Char) : List (List Char) :=
  ((splitLines text).map trim).filter fun line => !line.isEmpty

theorem solidLines_cons_of_isBlank {c : Char} (blank : isBlank c = true) (text : List Char) :
    solidLines (c :: text) = solidLines text := by
  obtain ⟨first, others, pieces⟩ := List.exists_cons_of_ne_nil (splitAt_ne_nil (· == '\n') text)
  unfold solidLines splitLines
  by_cases ending : c = '\n'
  · simp [splitAt, ending]
  · simp [splitAt, ending, pieces, trim_cons_of_isBlank blank]

theorem solidLines_append_of_forall {gap : List Char} (blank : ∀ c ∈ gap, isBlank c = true)
    (text : List Char) : solidLines (gap ++ text) = solidLines text := by
  induction gap with
  | nil => rfl
  | cons c gap ih =>
    rw [List.cons_append, solidLines_cons_of_isBlank (blank c (by simp)),
      ih fun d hd => blank d (by simp [hd])]

theorem solidLines_append_cons (text rest : List Char) :
    solidLines (text ++ '\n' :: rest) = solidLines text ++ solidLines rest := by
  unfold solidLines splitLines
  rw [splitAt_append text rest (by decide), List.map_append, List.filter_append]

theorem solidLines_of_not_mem {line : List Char} (whole : '\n' ∉ line) :
    solidLines line = [trim line].filter fun line => !line.isEmpty := by
  have uncut : ∀ c ∈ line, (c == '\n') = false := by
    intro c hc
    grind
  rw [solidLines, splitLines, splitAt_of_forall uncut]
  rfl

theorem exists_solidLines_cons {c : Char} (solid : isBlank c = false) (text : List Char) :
    ∃ line lines, solidLines (c :: text) = (c :: line) :: lines := by
  have whole : c ≠ '\n' := by
    rintro rfl
    exact absurd solid (by decide)
  obtain ⟨first, others, pieces⟩ := List.exists_cons_of_ne_nil (splitAt_ne_nil (· == '\n') text)
  have start : trimStart (c :: first) = c :: first := trimStart_of_head (by simpa using solid)
  have split : splitLines (c :: text) = (c :: first) :: others := by
    simp [splitLines, splitAt, whole, pieces]
  refine ⟨trimEnd first, (others.map trim).filter fun line => !line.isEmpty, ?_⟩
  rw [solidLines, split, List.map_cons, trim, start, trimEnd_cons_of_not_isBlank solid]
  rfl

def IsEnded (text : List Char) : Prop := ∀ c, text.getLast? = some c → c = '\n'

theorem isEnded_nil : IsEnded [] := by simp [IsEnded]

theorem IsEnded.append {text rest : List Char} (first : IsEnded text) (second : IsEnded rest) :
    IsEnded (text ++ rest) := by
  intro c hc
  rw [List.getLast?_append] at hc
  cases last : rest.getLast? with
  | none => exact first c (by simpa [last] using hc)
  | some d =>
    obtain rfl : d = c := by simpa [last] using hc
    exact second d last

theorem isEnded_flatMap (lines : List (List Char)) :
    IsEnded (lines.flatMap fun line => line ++ ['\n']) := by
  induction lines with
  | nil => exact isEnded_nil
  | cons line lines ih =>
    rw [List.flatMap_cons]
    exact IsEnded.append (by simp [IsEnded]) ih

theorem solidLines_append {text : List Char} (ended : IsEnded text) (rest : List Char) :
    solidLines (text ++ rest) = solidLines text ++ solidLines rest := by
  cases last : text.getLast? with
  | none =>
    rw [List.getLast?_eq_none_iff.mp last]
    rfl
  | some c =>
    obtain ⟨start, rfl⟩ := List.getLast?_eq_some_iff.mp last
    obtain rfl := ended c last
    have alone := solidLines_append_cons start []
    have nothing : solidLines [] = [] := rfl
    rw [nothing, List.append_nil] at alone
    rw [List.append_assoc, List.singleton_append, solidLines_append_cons, alone]

theorem solidLines_flatMap {lines : List (List Char)} (whole : ∀ line ∈ lines, '\n' ∉ line) :
    solidLines (lines.flatMap fun line => line ++ ['\n']) =
      (lines.map trim).filter fun line => !line.isEmpty := by
  induction lines with
  | nil => rfl
  | cons line lines ih =>
    rw [List.flatMap_cons, List.append_assoc, List.singleton_append, solidLines_append_cons,
      solidLines_of_not_mem (whole line (by simp)), ih fun other ho => whole other (by simp [ho]),
      ← List.filter_append]
    rfl

private theorem trim_dropReturn (line : List Char) : trim (dropReturn line) = trim line := by
  unfold dropReturn
  split
  · rename_i ending
    have last : line.getLast? = some '\r' := by simpa using ending
    obtain ⟨start, rfl⟩ := List.getLast?_eq_some_iff.mp last
    have blank : ∀ c ∈ ['\r'], isBlank c = true := List.all_eq_true.mp (by decide)
    rw [List.dropLast_concat, trim_append_of_forall blank]
  · rfl

theorem filter_map_trim_lines (text : List Char) :
    ((lines text).map trim).filter (fun line => !line.isEmpty) = solidLines text := by
  have finished : ∀ pieces : List (List Char),
      ((lines.finish pieces).map trim).filter (fun line => !line.isEmpty) =
        (pieces.map trim).filter fun line => !line.isEmpty := by
    intro pieces
    fun_induction lines.finish pieces with
    | case1 => rfl
    | case2 last empty =>
      have nothing : last = [] := by simpa using empty
      simp [nothing]
    | case3 last full => rfl
    | case4 piece rest more ih =>
      rw [List.map_cons, List.map_cons, trim_dropReturn, List.filter_cons, List.filter_cons, ih]
  exact finished (splitLines text)

/-- Lines stand in a text one below the other: blanks and blank lines may be before each of them and
after the last one, blanks may follow each of them, and a carriage return is a blank. -/
inductive IsLaidOut : List (List Char) → List Char → Prop
  | bare {gap : List Char} (blank : ∀ c ∈ gap, isBlank c = true) : IsLaidOut [] gap
  | last {gap line after : List Char} (before : ∀ c ∈ gap, isBlank c = true)
      (behind : ∀ c ∈ after, isBlank c = true) (inside : '\n' ∉ after) :
      IsLaidOut [line] (gap ++ line ++ after)
  | cons {gap line after text : List Char} {lines : List (List Char)}
      (before : ∀ c ∈ gap, isBlank c = true) (behind : ∀ c ∈ after, isBlank c = true)
      (inside : '\n' ∉ after) (rest : IsLaidOut lines text) :
      IsLaidOut (line :: lines) (gap ++ line ++ after ++ '\n' :: text)

private theorem solidLines_around {gap line after : List Char}
    (before : ∀ c ∈ gap, isBlank c = true) (behind : ∀ c ∈ after, isBlank c = true)
    (inside : '\n' ∉ after) (whole : '\n' ∉ line) :
    solidLines (gap ++ line ++ after) = [trim line].filter fun line => !line.isEmpty := by
  have joined : '\n' ∉ line ++ after := by simp [whole, inside]
  rw [List.append_assoc, solidLines_append_of_forall before, solidLines_of_not_mem joined,
    trim_append_of_forall behind]

/-- What is around the lines has no part in the lines that are not blank. -/
theorem IsLaidOut.solidLines_eq {lines : List (List Char)} {text : List Char}
    (laid : IsLaidOut lines text) (whole : ∀ line ∈ lines, '\n' ∉ line) :
    solidLines text = (lines.map trim).filter fun line => !line.isEmpty := by
  induction laid with
  | @bare gap blank =>
    rw [← List.append_nil gap, solidLines_append_of_forall blank]
    rfl
  | last before behind inside =>
    exact solidLines_around before behind inside (whole _ (by simp))
  | cons before behind inside rest ih =>
    rw [solidLines_append_cons, solidLines_around before behind inside (whole _ (by simp)),
      ih fun line hl => whole line (by simp [hl]), ← List.filter_append]
    rfl

end Phrasebook.Text
