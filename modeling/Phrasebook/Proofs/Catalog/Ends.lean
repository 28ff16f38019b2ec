import Phrasebook.Proofs.Catalog.Accumulation

/-!
The ends of a written catalog: it begins with a message, all its lines are finished, and after them its
last message is still open, so that what follows decides where that message ends.
-/

set_option autoImplicit false

namespace Phrasebook.Catalog

open Text (IsEnded isBlank solidLines)

private theorem isEnded_joinWith {pieces : List (List Char)} (ended : ∀ piece ∈ pieces, IsEnded piece) :
    IsEnded (Text.joinWith ['\n'] pieces) := by
  induction pieces with
  | nil => exact Text.isEnded_nil
  | cons piece pieces ih =>
    by_cases more : pieces = []
    · subst more
      exact ended piece (by simp)
    · have below := ih fun other ho => ended other (by simp [ho])
      rw [Text.joinWith_cons more]
      exact IsEnded.append (IsEnded.append (ended piece (by simp)) (by simp [IsEnded])) below

theorem isEnded_renderChars (catalog : Catalog) : IsEnded catalog.renderChars := by
  refine isEnded_joinWith fun piece hp => ?_
  obtain ⟨entry, -, rfl⟩ := List.mem_map.mp hp
  exact Text.isEnded_flatMap _

private theorem exists_renderChars_eq {catalog : Catalog} {last : Entry}
    (h : catalog.sorted.getLast? = some last) :
    ∃ start, IsEnded start ∧ catalog.renderChars = start ++
      (stringLines keyWord last.key.toList).flatMap endLine ++
      (stringLines textWord last.localized.toList).flatMap endLine := by
  obtain ⟨others, sorted⟩ := List.getLast?_eq_some_iff.mp h
  have block : renderEntry last = (metadataLines last).flatMap endLine ++
      (stringLines keyWord last.key.toList).flatMap endLine ++
      (stringLines textWord last.localized.toList).flatMap endLine := by
    rw [renderEntry, List.flatMap_append, List.flatMap_append]
  have metadata : IsEnded ((metadataLines last).flatMap endLine) := Text.isEnded_flatMap _
  by_cases alone : others = []
  · refine ⟨(metadataLines last).flatMap endLine, metadata, ?_⟩
    rw [renderChars, sorted, alone]
    exact block
  · have before : IsEnded (Text.joinWith ['\n'] (others.map renderEntry)) := by
      refine isEnded_joinWith fun piece hp => ?_
      obtain ⟨entry, -, rfl⟩ := List.mem_map.mp hp
      exact Text.isEnded_flatMap _
    refine ⟨Text.joinWith ['\n'] (others.map renderEntry) ++ ['\n'] ++
      (metadataLines last).flatMap endLine,
      IsEnded.append (IsEnded.append before (by simp [IsEnded])) metadata, ?_⟩
    rw [renderChars, sorted, List.map_append, List.map_singleton,
      Text.joinWith_append_singleton (by simpa using alone), block]
    simp only [List.append_assoc]

private theorem foldl_advance_stringLines {reading : Reading} (quiet : reading.skipped = [])
    {keyword : List Char} (clean : '\n' ∉ keyword) (text : List Char) :
    (solidLines ((stringLines keyword text).flatMap endLine)).foldl Reading.advance reading =
      (stringLines keyword text).foldl Reading.advance reading := by
  have lines := Text.solidLines_flatMap fun line hl => (isLine_stringLines clean text hl).1
  unfold endLine
  rw [lines, Reading.foldl_advance_trim quiet]

theorem skipped_foldl_advance {reading : Reading} (quiet : reading.skipped = [])
    (lines : List (List Char)) : (lines.foldl Reading.advance reading).skipped = [] := by
  induction lines generalizing reading with
  | nil => exact quiet
  | cons line lines ih => exact ih rfl

private theorem exists_foldl_advance_key (reading : Reading) (text : List Char) :
    ∃ (stored : Catalog) (told : Entry), (stringLines keyWord text).foldl Reading.advance reading =
      { catalog := stored, stage := .key, pending := { told with key := String.ofList text } } := by
  have lines := stringLines_eq keyWord text
  have whole := stringPieces_flatten text
  by_cases stage : reading.stage = .key
  · -- The key before it has no text: it is given up.
    have again : ({ reading with stage := .outside, pending := Entry.ofKey "" } : Reading).stage ≠ .key := by
      simp
    have trimmed : Text.trim (keyWord ++ quoted (stringPieces text).1) =
        keyWord ++ quoted (stringPieces text).1 :=
      Text.trim_of_isTrimmed (isTrimmed_append_quoted (by rintro c ⟨⟩; decide) _)
    have first : reading.advance (keyWord ++ quoted (stringPieces text).1) =
        ({ reading with stage := .outside, pending := Entry.ofKey "" } : Reading).advance
          (keyWord ++ quoted (stringPieces text).1) := by
      rw [Reading.advance_keyWord _ trimmed, Reading.advance_keyWord _ trimmed]
      simp [Reading.readKey, Reading.flush, stage, unquote?_quoted]
    have run := Reading.foldl_advance_keyLines again (stringPieces text).1 (stringPieces text).2
    rw [List.foldl_cons, ← first, ← List.foldl_cons (f := Reading.advance), ← lines, whole] at run
    exact ⟨_, _, run⟩
  · have run := Reading.foldl_advance_keyLines stage (stringPieces text).1 (stringPieces text).2
    rw [← lines, whole] at run
    exact ⟨_, _, run⟩

/-- After a written catalog its last message is still open. -/
theorem exists_foldl_advance_render {catalog : Catalog} {last : Entry}
    (h : catalog.sorted.getLast? = some last) {reading : Reading} (quiet : reading.skipped = []) :
    ∃ (stored : Catalog) (told : Entry), (solidLines catalog.renderChars).foldl Reading.advance reading =
      { catalog := stored
        stage := .text
        pending := { told with key := last.key, localized := last.localized } } := by
  obtain ⟨start, ended, written⟩ := exists_renderChars_eq h
  have before := skipped_foldl_advance quiet (solidLines start)
  have keyLines : IsEnded ((stringLines keyWord last.key.toList).flatMap endLine) :=
    Text.isEnded_flatMap _
  obtain ⟨stored, told, key⟩ :=
    exists_foldl_advance_key ((solidLines start).foldl Reading.advance reading) last.key.toList
  refine ⟨stored, told, ?_⟩
  rw [written, List.append_assoc, Text.solidLines_append ended,
    Text.solidLines_append keyLines, List.foldl_append, List.foldl_append,
    foldl_advance_stringLines before (by decide), key, foldl_advance_stringLines rfl (by decide),
    stringLines_eq, Reading.foldl_advance_textLines rfl, stringPieces_flatten,
    String.ofList_toList, String.ofList_toList]

private theorem head?_metadataLines {entry : Entry} {line : List Char}
    (h : line ∈ metadataLines entry) : line.head? = some '#' := by
  simp only [metadataLines, List.mem_append, List.mem_map] at h
  rcases h with (⟨remark, -, rfl⟩ | ⟨occurrence, -, rfl⟩) | flags
  · rfl
  · rfl
  · split at flags
    · cases flags
    · rw [List.mem_singleton.mp flags]
      rfl

private theorem begins_of_number {line : List Char} (h : line.head? = some '#') : Begins line := by
  obtain ⟨rest, rfl⟩ := List.head?_eq_some_iff.mp h
  have start : Text.trimStart ('#' :: rest) = '#' :: rest :=
    Text.trimStart_of_head (by simpa using (by decide : isBlank '#' = false))
  refine Or.inl ⟨Text.trimEnd rest, ?_⟩
  rw [Text.trim, start, Text.trimEnd_cons_of_not_isBlank (by decide)]

theorem begins_renderChars (catalog : Catalog) :
    ∀ line, (solidLines catalog.renderChars).head? = some line → Begins line := by
  cases sorted : catalog.sorted with
  | nil =>
    have nothing : catalog.renderChars = [] := by
      rw [renderChars, sorted]
      rfl
    rw [nothing]
    rintro line ⟨⟩
  | cons first others =>
    obtain ⟨more, written⟩ : ∃ more, catalog.renderChars = renderEntry first ++ more := by
      refine ⟨(others.map renderEntry).flatMap (['\n'] ++ ·), ?_⟩
      rw [renderChars, sorted, List.map_cons, Text.joinWith_cons_eq_append]
    cases metadata : metadataLines first with
    | nil =>
      -- Without metadata the line of the key comes first.
      obtain ⟨rest, block⟩ : ∃ rest, renderEntry first =
          (keyWord ++ quoted (stringPieces first.key.toList).1) ++ '\n' :: rest := by
        rw [renderEntry, metadata, stringLines_eq keyWord]
        refine ⟨((stringPieces first.key.toList).2.map quoted ++
          stringLines textWord first.localized.toList).flatMap endLine, ?_⟩
        simp [endLine]
      have trimmed : Text.trim (keyWord ++ quoted (stringPieces first.key.toList).1) =
          keyWord ++ quoted (stringPieces first.key.toList).1 :=
        Text.trim_of_isTrimmed (isTrimmed_append_quoted (by rintro c ⟨⟩; decide) _)
      have clean : '\n' ∉ keyWord := by decide
      have whole := (isLine_append_quoted clean (stringPieces first.key.toList).1).1
      have solid : ([keyWord ++ quoted (stringPieces first.key.toList).1].filter
          fun line => !line.isEmpty) = [keyWord ++ quoted (stringPieces first.key.toList).1] := rfl
      intro line hl
      rw [written, block, List.append_assoc, List.cons_append, Text.solidLines_append_cons,
        Text.solidLines_of_not_mem whole, trimmed, solid, List.singleton_append] at hl
      obtain rfl := Option.some.inj hl
      exact Or.inr ⟨_, trimmed⟩
    | cons told remaining =>
      have among : told ∈ metadataLines first := by simp [metadata]
      have number := head?_metadataLines among
      obtain ⟨text, rfl⟩ := List.head?_eq_some_iff.mp number
      obtain ⟨rest, block⟩ : ∃ rest, renderEntry first = '#' :: rest := by
        rw [renderEntry, metadata]
        refine ⟨text ++ '\n' :: (remaining ++ stringLines keyWord first.key.toList ++
          stringLines textWord first.localized.toList).flatMap endLine, ?_⟩
        simp [endLine]
      obtain ⟨line, lines, split⟩ :=
        Text.exists_solidLines_cons (by decide : isBlank '#' = false) (rest ++ more)
      intro other hl
      rw [written, block, List.cons_append, split] at hl
      obtain rfl : '#' :: line = other := by simpa using hl
      exact begins_of_number rfl

end Phrasebook.Catalog
