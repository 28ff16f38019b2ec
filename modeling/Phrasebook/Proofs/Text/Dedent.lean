import Phrasebook.Proofs.Text.Blank
import Phrasebook.Text.DocComment

/-!
Text without a margin. What is left of a text once the margin that its lines share is gone has no such
margin, so to remove it again changes nothing; the message of a documentation comment is such a text.
-/

set_option autoImplicit false

namespace Phrasebook.Text

theorem commonStart_isPrefix (text other : List Char) :
    commonStart text other <+: text ∧ commonStart text other <+: other := by
  fun_induction commonStart text other with
  | case1 text d other ih =>
    exact ⟨List.cons_prefix_cons.mpr ⟨rfl, ih.1⟩, List.cons_prefix_cons.mpr ⟨rfl, ih.2⟩⟩
  | case2 => exact ⟨List.nil_prefix, List.nil_prefix⟩
  | case3 => exact ⟨List.nil_prefix, List.nil_prefix⟩
  | case4 => exact ⟨List.nil_prefix, List.nil_prefix⟩

theorem commonStart_append_append (start text other : List Char) :
    commonStart (start ++ text) (start ++ other) = start ++ commonStart text other := by
  induction start with
  | nil => rfl
  | cons c start ih => simp [commonStart, ih]

theorem foldl_commonStart_isPrefix {first text : List Char} {others : List (List Char)}
    (member : text ∈ first :: others) : others.foldl commonStart first <+: text := by
  induction others generalizing first text with
  | nil =>
    obtain rfl := List.mem_singleton.mp member
    exact List.prefix_rfl
  | cons other others ih =>
    have both : others.foldl commonStart (commonStart first other) <+: commonStart first other :=
      ih List.mem_cons_self
    rcases List.mem_cons.mp member with rfl | member
    · exact both.trans (commonStart_isPrefix _ _).1
    · rcases List.mem_cons.mp member with rfl | member
      · exact both.trans (commonStart_isPrefix _ _).2
      · exact ih (List.mem_cons_of_mem _ member)

theorem foldl_commonStart_append (start first : List Char) (others : List (List Char)) :
    (others.map (start ++ ·)).foldl commonStart (start ++ first) =
      start ++ others.foldl commonStart first := by
  induction others generalizing first with
  | nil => rfl
  | cons other others ih =>
    rw [List.map_cons, List.foldl_cons, commonStart_append_append, ih, List.foldl_cons]

theorem isBlank_of_mem_margin {line : List Char} {c : Char} (h : c ∈ margin line) :
    isBlank c = true := by
  have stays := List.mem_takeWhile_imp h
  simp only [Bool.or_eq_true, beq_iff_eq] at stays
  rcases stays with rfl | rfl <;> decide

theorem margin_append {start rest : List Char} (h : start <+: margin (start ++ rest)) :
    margin (start ++ rest) = start ++ margin rest := by
  have spaces : ∀ c ∈ start, (c == ' ' || c == '\t') = true := fun c hc =>
    List.mem_takeWhile_imp (p := fun c => c == ' ' || c == '\t') (h.subset hc)
  exact List.takeWhile_append_of_pos spaces

theorem dropMargin_of_isBlankLine {line : List Char} (shared : List Char)
    (blank : isBlankLine line = true) : dropMargin shared line = [] := if_pos blank

theorem dropMargin_nil {line : List Char} (full : isBlankLine line = false) :
    dropMargin [] line = line := by
  simp [dropMargin, dropStart?, full]

theorem isBlankLine_append (start rest : List Char) :
    isBlankLine (start ++ rest) = (isBlankLine start && isBlankLine rest) := List.all_append

theorem append_dropMargin {shared line : List Char} (full : isBlankLine line = false)
    (begins : shared <+: margin line) : shared ++ dropMargin shared line = line := by
  obtain ⟨rest, rfl⟩ := begins.trans (List.takeWhile_prefix _)
  simp [dropMargin, full]

theorem isBlankLine_dropMargin {shared line : List Char} (full : isBlankLine line = false)
    (begins : shared <+: margin line) : isBlankLine (dropMargin shared line) = false := by
  have blank : isBlankLine shared = true :=
    List.all_eq_true.mpr fun c hc => isBlank_of_mem_margin (begins.subset hc)
  have parts := isBlankLine_append shared (dropMargin shared line)
  rw [append_dropMargin full begins, full, blank, Bool.true_and] at parts
  exact parts.symm

theorem sharedMargin_isPrefix {block : List (List Char)} {line : List Char} (member : line ∈ block)
    (full : isBlankLine line = false) : sharedMargin block <+: margin line := by
  have among : margin line ∈ (block.filter (!isBlankLine ·)).map margin :=
    List.mem_map_of_mem (List.mem_filter.mpr ⟨member, by rw [full]; rfl⟩)
  unfold sharedMargin
  cases margins : (block.filter (!isBlankLine ·)).map margin with
  | nil => exact List.nil_prefix
  | cons first others => exact foldl_commonStart_isPrefix (margins ▸ among)

private theorem filter_dropMargin (block : List (List Char)) {shared : List Char}
    (begins : ∀ line ∈ block, isBlankLine line = false → shared <+: margin line) :
    (block.map (dropMargin shared)).filter (!isBlankLine ·) =
      (block.filter (!isBlankLine ·)).map (dropMargin shared) := by
  rw [List.filter_map]
  refine congrArg (List.map _) (List.filter_congr fun line member => ?_)
  rw [Function.comp_apply]
  cases full : isBlankLine line with
  | false => rw [isBlankLine_dropMargin full (begins line member full)]
  | true => rw [dropMargin_of_isBlankLine shared full]; rfl

theorem sharedMargin_dropMargin (block : List (List Char)) :
    sharedMargin (block.map (dropMargin (sharedMargin block))) = [] := by
  have begins : ∀ line ∈ block, isBlankLine line = false → sharedMargin block <+: margin line :=
    fun _ => sharedMargin_isPrefix
  -- The margins of a text are what they have in common, followed by the margins of what is left.
  have margins : (block.filter (!isBlankLine ·)).map margin =
      (((block.map (dropMargin (sharedMargin block))).filter (!isBlankLine ·)).map margin).map
        (sharedMargin block ++ ·) := by
    rw [filter_dropMargin block begins, List.map_map, List.map_map]
    refine List.map_congr_left fun line member => ?_
    obtain ⟨member, full⟩ := List.mem_filter.mp member
    replace full : isBlankLine line = false := by simpa using full
    have whole := append_dropMargin full (begins line member full)
    conv_lhs => rw [← whole]
    rw [Function.comp_apply, Function.comp_apply]
    exact margin_append (by rw [whole]; exact begins line member full)
  generalize shared : sharedMargin block = start at margins
  unfold sharedMargin at shared ⊢
  rw [margins] at shared
  cases rest : ((block.map (dropMargin start)).filter (!isBlankLine ·)).map margin with
  | nil => rfl
  | cons first others =>
    rw [rest, List.map_cons] at shared
    change (others.map (start ++ ·)).foldl commonStart (start ++ first) = start at shared
    rw [foldl_commonStart_append] at shared
    exact List.append_right_eq_self.mp shared

theorem dropMargin_nil_dropMargin {shared line : List Char}
    (begins : isBlankLine line = false → shared <+: margin line) :
    dropMargin [] (dropMargin shared line) = dropMargin shared line := by
  cases full : isBlankLine line with
  | false => exact dropMargin_nil (isBlankLine_dropMargin full (begins full))
  | true => rw [dropMargin_of_isBlankLine shared full]; rfl

theorem not_mem_dropMargin {shared line : List Char} {c : Char} (h : c ∉ line) :
    c ∉ dropMargin shared line := by
  unfold dropMargin
  split
  · exact List.not_mem_nil
  · cases left : dropStart? shared line with
    | none => exact h
    | some rest =>
      rw [eq_append_of_dropStart? left] at h
      exact fun member => h (List.mem_append_right shared member)

theorem splitLines_dedent (text : List Char) :
    splitLines (dedent text) =
      (splitLines text).map (dropMargin (sharedMargin (splitLines text))) := by
  refine splitAt_joinWith (by decide) (fun piece h c hc => ?_) (by simp [splitLines, splitAt_ne_nil])
  obtain ⟨line, member, rfl⟩ := List.mem_map.mp h
  have unbroken : '\n' ∉ line := fun broken => by simpa using (mem_splitAt member).1 '\n' broken
  exact beq_false_of_ne fun same => not_mem_dropMargin unbroken (same ▸ hc)

/-- What has lost its margin has none to lose. -/
theorem dedent_dedent (text : List Char) : dedent (dedent text) = dedent text := by
  conv_lhs => rw [dedent]
  rw [splitLines_dedent, sharedMargin_dropMargin, List.map_map, dedent]
  refine congrArg (joinWith ['\n']) (List.map_congr_left fun line member => ?_)
  exact dropMargin_nil_dropMargin (sharedMargin_isPrefix member)

theorem dedent_cleanDocComment (text : List Char) :
    dedent (cleanDocComment text) = cleanDocComment text := by
  simp only [cleanDocComment]
  split
  · rfl
  · exact dedent_dedent _

end Phrasebook.Text
