import Mathlib.Data.List.Forall2
import Phrasebook.Proofs.Text.Dedent

/-!
The margin of a text is the longest text of spaces and tabs that its lines begin with, blank lines
apart. What is left without it does not depend on how far in the text stood.
-/

set_option autoImplicit false

namespace Phrasebook.Text

def IsSpace (text : List Char) : Prop := ∀ c ∈ text, c = ' ' ∨ c = '\t'

/-- The longest text of spaces and tabs that all lines of a block begin with, blank ones apart. A block
of blank lines has no margin. -/
structure IsMargin (block : List (List Char)) (shared : List Char) : Prop where
  space : IsSpace shared
  begins : ∀ line ∈ block, isBlankLine line = false → shared <+: line
  longest : ∀ other, IsSpace other → (∀ line ∈ block, isBlankLine line = false → other <+: line) →
    (∃ line ∈ block, isBlankLine line = false) → other <+: shared
  bare : (∀ line ∈ block, isBlankLine line = true) → shared = []

/-- A line that begins with a margin, and what is left of it; nothing is left of a blank line. -/
def Loses (shared line left : List Char) : Prop :=
  if isBlankLine line then left = [] else line = shared ++ left

/-- A line, and one that stands further in; in place of a blank line there is another one. -/
def Deepens (start line deeper : List Char) : Prop :=
  if isBlankLine line then isBlankLine deeper = true else deeper = start ++ line

theorem isPrefix_commonStart {start text other : List Char} (first : start <+: text)
    (second : start <+: other) : start <+: commonStart text other := by
  obtain ⟨rest, rfl⟩ := first
  obtain ⟨others, rfl⟩ := second
  rw [commonStart_append_append]
  exact List.prefix_append start _

theorem isPrefix_foldl_commonStart {start first : List Char} {others : List (List Char)}
    (all : ∀ text ∈ first :: others, start <+: text) : start <+: others.foldl commonStart first := by
  induction others generalizing first with
  | nil => exact all first List.mem_cons_self
  | cons other others ih =>
    apply ih
    intro text member
    rcases List.mem_cons.mp member with rfl | member
    · exact isPrefix_commonStart (all first (by simp)) (all other (by simp))
    · exact all text (by simp [member])

theorem isSpace_margin (line : List Char) : IsSpace (margin line) := by
  intro c hc
  have stays := List.mem_takeWhile_imp hc
  simpa using stays

theorem isPrefix_margin {start line : List Char} (space : IsSpace start) (begins : start <+: line) :
    start <+: margin line := by
  obtain ⟨rest, rfl⟩ := begins
  have stays : ∀ c ∈ start, (c == ' ' || c == '\t') = true := by
    intro c hc
    simpa using space c hc
  rw [margin, List.takeWhile_append_of_pos stays]
  exact List.prefix_append start _

theorem margin_append_of_isSpace {start : List Char} (space : IsSpace start) (line : List Char) :
    margin (start ++ line) = start ++ margin line :=
  margin_append (isPrefix_margin space (List.prefix_append start line))

theorem isBlankLine_of_isSpace {text : List Char} (space : IsSpace text) :
    isBlankLine text = true := by
  apply List.all_eq_true.mpr
  intro c hc
  rcases space c hc with rfl | rfl <;> decide

private def margins (block : List (List Char)) : List (List Char) :=
  (block.filter (!isBlankLine ·)).map margin

private theorem mem_margins {block : List (List Char)} {text : List Char} :
    text ∈ margins block ↔ ∃ line ∈ block, isBlankLine line = false ∧ margin line = text := by
  simp [margins, and_assoc]

private theorem margins_eq_nil_iff {block : List (List Char)} :
    margins block = [] ↔ ∀ line ∈ block, isBlankLine line = true := by
  simp [margins]

private theorem sharedMargin_eq (block : List (List Char)) :
    sharedMargin block =
      match margins block with
      | [] => []
      | first :: others => others.foldl commonStart first := rfl

theorem isMargin_sharedMargin (block : List (List Char)) :
    IsMargin block (sharedMargin block) := by
  have begins : ∀ line ∈ block, isBlankLine line = false → sharedMargin block <+: margin line :=
    fun line member full => sharedMargin_isPrefix member full
  have bare : (∀ line ∈ block, isBlankLine line = true) → sharedMargin block = [] := by
    intro blank
    rw [sharedMargin_eq, margins_eq_nil_iff.mpr blank]
  refine ⟨?_, ?_, ?_, bare⟩
  · by_cases full : ∃ line ∈ block, isBlankLine line = false
    · obtain ⟨line, member, full⟩ := full
      intro c hc
      exact isSpace_margin line c ((begins line member full).subset hc)
    · have blank : ∀ line ∈ block, isBlankLine line = true := by simpa using full
      rw [bare blank]
      simp [IsSpace]
  · intro line member full
    exact (begins line member full).trans (List.takeWhile_prefix _)
  · intro other space others full
    have all : ∀ text ∈ margins block, other <+: text := by
      intro text member
      obtain ⟨line, inside, full, rfl⟩ := mem_margins.mp member
      exact isPrefix_margin space (others line inside full)
    obtain ⟨line, member, full⟩ := full
    have some_ : margin line ∈ margins block := mem_margins.mpr ⟨line, member, full, rfl⟩
    rw [sharedMargin_eq]
    cases found : margins block with
    | nil => simp [found] at some_
    | cons first rest =>
      rw [found] at all
      exact isPrefix_foldl_commonStart all

theorem IsMargin.eq {block : List (List Char)} {shared other : List Char}
    (first : IsMargin block shared) (second : IsMargin block other) : shared = other := by
  by_cases full : ∃ line ∈ block, isBlankLine line = false
  · have below := second.longest shared first.space first.begins full
    have above := first.longest other second.space second.begins full
    exact below.eq_of_length (Nat.le_antisymm below.length_le above.length_le)
  · have blank : ∀ line ∈ block, isBlankLine line = true := by simpa using full
    rw [first.bare blank, second.bare blank]

theorem loses_dropMargin {shared line : List Char}
    (begins : isBlankLine line = false → shared <+: line) (space : IsSpace shared) :
    Loses shared line (dropMargin shared line) := by
  unfold Loses
  cases full : isBlankLine line with
  | true => exact dropMargin_of_isBlankLine shared full
  | false => exact (append_dropMargin full (isPrefix_margin space (begins full))).symm

theorem Loses.eq {shared line left other : List Char} (first : Loses shared line left)
    (second : Loses shared line other) : left = other := by
  unfold Loses at first second
  split at first
  · rename_i blank
    rw [if_pos blank] at second
    rw [first, second]
  · rename_i full
    rw [if_neg full] at second
    exact List.append_cancel_left (first.symm.trans second)

theorem Deepens.loses {start shared line deeper left : List Char} (space : IsSpace start)
    (deepens : Deepens start line deeper) (loses : Loses (start ++ shared) deeper left) :
    Loses shared line left := by
  unfold Deepens at deepens
  unfold Loses at loses ⊢
  by_cases blank : isBlankLine line = true
  · rw [if_pos blank] at deepens ⊢
    rwa [if_pos deepens] at loses
  · rw [if_neg blank] at deepens ⊢
    have full : ¬isBlankLine deeper = true := by
      rw [deepens, isBlankLine_append, isBlankLine_of_isSpace space, Bool.true_and]
      exact blank
    rw [if_neg full, deepens, List.append_assoc] at loses
    exact List.append_cancel_left loses

private theorem margins_of_deepens {start : List Char} (space : IsSpace start)
    {block deeper : List (List Char)} (lines : List.Forall₂ (Deepens start) block deeper) :
    margins deeper = (margins block).map (start ++ ·) := by
  induction lines with
  | nil => rfl
  | @cons line deep block deeper deepens rest ih =>
    unfold Deepens at deepens
    unfold margins at ih ⊢
    by_cases blank : isBlankLine line = true
    · rw [if_pos blank] at deepens
      rw [List.filter_cons_of_neg (by simpa using deepens),
        List.filter_cons_of_neg (by simpa using blank), ih]
    · rw [if_neg blank] at deepens
      have full : ¬isBlankLine deep = true := by
        rw [deepens, isBlankLine_append, isBlankLine_of_isSpace space, Bool.true_and]
        exact blank
      rw [List.filter_cons_of_pos (by simpa using full),
        List.filter_cons_of_pos (by simpa using blank), List.map_cons, List.map_cons, List.map_cons,
        ih, deepens, margin_append_of_isSpace space]

theorem sharedMargin_of_deepens {start : List Char} (space : IsSpace start)
    {block deeper : List (List Char)} (lines : List.Forall₂ (Deepens start) block deeper)
    (full : ∃ line ∈ block, isBlankLine line = false) :
    sharedMargin deeper = start ++ sharedMargin block := by
  obtain ⟨line, member, full⟩ := full
  have some_ : margin line ∈ margins block := mem_margins.mpr ⟨line, member, full, rfl⟩
  rw [sharedMargin_eq, sharedMargin_eq, margins_of_deepens space lines]
  cases found : margins block with
  | nil => simp [found] at some_
  | cons first others => exact foldl_commonStart_append start first others

private theorem forall₂_loses (block : List (List Char)) :
    List.Forall₂ (Loses (sharedMargin block)) block (block.map (dropMargin (sharedMargin block))) := by
  have shared := isMargin_sharedMargin block
  apply List.forall₂_map_right_iff.mpr
  apply List.forall₂_same.mpr
  intro line member
  exact loses_dropMargin (shared.begins line member) shared.space

private theorem forall₂_loses_of_deepens {start shared : List Char} (space : IsSpace start)
    {block deeper left : List (List Char)} (lines : List.Forall₂ (Deepens start) block deeper)
    (loses : List.Forall₂ (Loses (start ++ shared)) deeper left) :
    List.Forall₂ (Loses shared) block left := by
  induction lines generalizing left with
  | nil => rwa [List.forall₂_nil_left_iff] at loses ⊢
  | cons deepens lines ih =>
    cases loses with
    | cons first rest => exact .cons (deepens.loses space first) (ih rest)

theorem map_dropMargin_of_deepens {start : List Char} (space : IsSpace start)
    {block deeper : List (List Char)} (lines : List.Forall₂ (Deepens start) block deeper) :
    deeper.map (dropMargin (sharedMargin deeper)) = block.map (dropMargin (sharedMargin block)) := by
  have left : List.Forall₂ (Loses (start ++ sharedMargin block)) deeper
      (deeper.map (dropMargin (sharedMargin deeper))) := by
    by_cases full : ∃ line ∈ block, isBlankLine line = false
    · rw [← sharedMargin_of_deepens space lines full]
      exact forall₂_loses deeper
    · -- Nothing is left of blank lines, whatever their margin is.
      have blank : ∀ line ∈ block, isBlankLine line = true := by simpa using full
      have none_ : margins deeper = [] := by
        rw [margins_of_deepens space lines, margins_eq_nil_iff.mpr blank]
        rfl
      apply List.forall₂_map_right_iff.mpr
      apply List.forall₂_same.mpr
      intro line member
      have bare := margins_eq_nil_iff.mp none_ line member
      rw [Loses, if_pos bare, dropMargin_of_isBlankLine _ bare]
  have same : Relator.RightUnique (Loses (sharedMargin block)) := fun _ _ _ => Loses.eq
  exact List.right_unique_forall₂' same (forall₂_loses_of_deepens space lines left)
    (forall₂_loses block)

/-- A text without its margin has the same lines, each without the one margin of the text; it has no
margin itself, and it is the same for a text that stands further in. -/
theorem dedent_of_margin (text : List Char) :
    (splitLines (dedent text)).length = (splitLines text).length ∧
      (∃! shared, IsMargin (splitLines text) shared ∧
        List.Forall₂ (Loses shared) (splitLines text) (splitLines (dedent text))) ∧
      dedent (dedent text) = dedent text ∧
      ∀ start other, IsSpace start →
        List.Forall₂ (Deepens start) (splitLines text) (splitLines other) →
          dedent other = dedent text := by
  have left := forall₂_loses (splitLines text)
  rw [← splitLines_dedent] at left
  refine ⟨left.length_eq.symm, ?_, dedent_dedent text, ?_⟩
  · refine ⟨sharedMargin (splitLines text), ⟨isMargin_sharedMargin _, left⟩, ?_⟩
    rintro other ⟨margin, -⟩
    exact margin.eq (isMargin_sharedMargin _)
  · intro start other space lines
    rw [dedent, dedent, map_dropMargin_of_deepens space lines]

theorem dedent_of_margin_tabbed :
    let text := ['\n', ' ', ' ', 'a', '\n', ' ', '\t', 'b']
    let other := ['\u3000', '\n', '\t', ' ', ' ', 'a', '\n', '\t', ' ', '\t', 'b']
    IsSpace ['\t'] ∧ List.Forall₂ (Deepens ['\t']) (splitLines text) (splitLines other) ∧
      dedent other = dedent text ∧ dedent text = ['\n', ' ', 'a', '\n', '\t', 'b'] := by
  intro text other
  have space : IsSpace ['\t'] := by simp [IsSpace]
  have lines : List.Forall₂ (Deepens ['\t']) (splitLines text) (splitLines other) :=
    .cons rfl (.cons rfl (.cons rfl .nil))
  exact ⟨space, lines, (dedent_of_margin text).2.2.2 ['\t'] other space lines, by decide⟩

end Phrasebook.Text
