import Phrasebook.Proofs.Text.Margin

/-!
The message in a documentation comment. It begins and ends with lines that are not blank, and its lines
have neither a margin nor blanks at their ends. Every text of that form is found again when it is written
behind a column of asterisks.
-/

set_option autoImplicit false

namespace Phrasebook.Text

/-- A text that begins and ends with lines that are not blank, and whose lines have neither a margin nor
blanks at their ends. -/
structure IsFlush (text : List Char) : Prop where
  first : ∀ line, (splitLines text).head? = some line → isBlankLine line = false
  last : ∀ line, (splitLines text).getLast? = some line → isBlankLine line = false
  ended : ∀ line ∈ splitLines text, ∀ c, line.getLast? = some c → isBlank c = false
  bare : dedent text = text

/-- The lines of a message, each behind an indentation, an asterisk and a space, and the indentation of the
last line of a comment. -/
def gutterLines (indent message : List Char) : List (List Char) :=
  ((splitLines message).map fun line => indent ++ '*' :: ' ' :: line) ++ [indent]

def behindGutter (indent message : List Char) : List Char :=
  joinWith ['\n'] (['*'] :: gutterLines indent message)

theorem not_mem_of_mem_splitLines {text line : List Char} (member : line ∈ splitLines text) :
    '\n' ∉ line := by
  intro broken
  simpa using (mem_splitAt member).1 '\n' broken

theorem splitLines_joinWith {block : List (List Char)} (unbroken : ∀ line ∈ block, '\n' ∉ line)
    (full : block ≠ []) : splitLines (joinWith ['\n'] block) = block := by
  refine splitAt_joinWith (by decide) (fun line member c hc => ?_) full
  exact beq_false_of_ne fun same => unbroken line member (same ▸ hc)

theorem trimEnd_isPrefix (text : List Char) : trimEnd text <+: text := by
  have ending := List.dropWhile_suffix isBlank (l := text.reverse)
  rw [← List.reverse_prefix] at ending
  simpa [trimEnd] using ending

theorem isBlank_of_getLast?_trimEnd {text : List Char} {c : Char}
    (last : (trimEnd text).getLast? = some c) : isBlank c = false := by
  have first := List.head?_dropWhile_not isBlank text.reverse
  rw [trimEnd, List.getLast?_reverse] at last
  rwa [last] at first

theorem trimEnd_of_isBlankLine {line : List Char} (blank : isBlankLine line = true) :
    trimEnd line = [] := by
  have all : ∀ c ∈ line.reverse, isBlank c = true := by
    intro c hc
    exact List.all_eq_true.mp blank c (List.mem_reverse.mp hc)
  rw [trimEnd, List.dropWhile_eq_nil_iff.mpr all]
  rfl

theorem dropGutter_isSuffix (line : List Char) : dropGutter line <:+ line := by
  unfold dropGutter
  split
  · rename_i rest found
    have ending : trimStart line <:+ line := List.dropWhile_suffix isBlank
    rw [found] at ending
    exact (List.suffix_cons '*' rest).trans ending
  · exact List.suffix_rfl

theorem dropGutter_append {indent : List Char} (blank : isBlankLine indent = true)
    (rest : List Char) : dropGutter (indent ++ '*' :: rest) = rest := by
  have start : trimStart (indent ++ '*' :: rest) = '*' :: rest := by
    rw [trimStart, List.dropWhile_append_of_pos (List.all_eq_true.mp blank)]
    rfl
  simp only [dropGutter, start]

theorem dropGutter_of_isBlankLine {indent : List Char} (blank : isBlankLine indent = true) :
    dropGutter indent = indent := by
  have start : trimStart indent = [] := List.dropWhile_eq_nil_iff.mpr (List.all_eq_true.mp blank)
  rw [dropGutter, start]

theorem dropBlankEnds_append {before block after : List (List Char)}
    (blankBefore : ∀ line ∈ before, isBlankLine line = true)
    (blankAfter : ∀ line ∈ after, isBlankLine line = true)
    (first : ∀ line, block.head? = some line → isBlankLine line = false)
    (last : ∀ line, block.getLast? = some line → isBlankLine line = false) (full : block ≠ []) :
    dropBlankEnds (before ++ block ++ after) = block := by
  have start : (block ++ after).dropWhile isBlankLine = block ++ after := by
    obtain ⟨line, rest, rfl⟩ := List.exists_cons_of_ne_nil full
    exact List.dropWhile_cons_of_neg (by simp [first line rfl])
  have finish : block.reverse.dropWhile isBlankLine = block.reverse := by
    obtain ⟨rest, line, rfl⟩ := List.eq_nil_or_concat' block |>.resolve_left full
    rw [List.reverse_append]
    exact List.dropWhile_cons_of_neg (by simp [last line (by simp)])
  have blankBehind : ∀ line ∈ after.reverse, isBlankLine line = true := by
    intro line member
    exact blankAfter line (List.mem_reverse.mp member)
  rw [dropBlankEnds, List.append_assoc, List.dropWhile_append_of_pos blankBefore, start,
    List.reverse_append, List.dropWhile_append_of_pos blankBehind, finish, List.reverse_reverse]

theorem isFlush_dedent {block : List (List Char)} (unbroken : ∀ line ∈ block, '\n' ∉ line)
    (first : ∀ line, block.head? = some line → isBlankLine line = false)
    (last : ∀ line, block.getLast? = some line → isBlankLine line = false)
    (ended : ∀ line ∈ block, ∀ c, line.getLast? = some c → isBlank c = false) (full : block ≠ []) :
    IsFlush (dedent (joinWith ['\n'] block)) := by
  have shared := isMargin_sharedMargin block
  have lines : splitLines (dedent (joinWith ['\n'] block)) =
      block.map (dropMargin (sharedMargin block)) := by
    rw [splitLines_dedent, splitLines_joinWith unbroken full]
  have kept : ∀ line ∈ block, isBlankLine line = false →
      isBlankLine (dropMargin (sharedMargin block) line) = false := by
    intro line member solid
    exact isBlankLine_dropMargin solid (isPrefix_margin shared.space (shared.begins line member solid))
  refine ⟨?_, ?_, ?_, dedent_dedent _⟩
  · intro line found
    rw [lines, List.head?_map, Option.map_eq_some_iff] at found
    obtain ⟨whole, found, rfl⟩ := found
    exact kept whole (List.mem_of_head? found) (first whole found)
  · intro line found
    rw [lines, List.getLast?_map, Option.map_eq_some_iff] at found
    obtain ⟨whole, found, rfl⟩ := found
    exact kept whole (List.mem_of_getLast? found) (last whole found)
  · intro line found c hc
    rw [lines] at found
    obtain ⟨whole, member, rfl⟩ := List.mem_map.mp found
    cases blank : isBlankLine whole with
    | true =>
      rw [dropMargin_of_isBlankLine _ blank] at hc
      cases hc
    | false =>
      -- What is left of the line ends as the line does.
      refine ended whole member c ?_
      rw [← append_dropMargin blank
        (isPrefix_margin shared.space (shared.begins whole member blank)), List.getLast?_append, hc]
      rfl

theorem isFlush_cleanDocComment (text : List Char) :
    cleanDocComment text = [] ∨ IsFlush (cleanDocComment text) := by
  unfold cleanDocComment
  simp only
  split
  · exact Or.inl rfl
  · rename_i first others lines
    have inside : ∀ line ∈ first :: others.map dropGutter, '\n' ∉ line := by
      have all : ∀ line ∈ first :: others, '\n' ∉ line := by
        rw [← lines]
        exact fun line member => not_mem_of_mem_splitLines member
      intro line member
      rcases List.mem_cons.mp member with rfl | member
      · exact all line List.mem_cons_self
      · obtain ⟨whole, there, rfl⟩ := List.mem_map.mp member
        exact fun broken => all whole (List.mem_cons_of_mem _ there)
          ((dropGutter_isSuffix whole).subset broken)
    obtain ⟨kept, head, last⟩ :=
      dropWhile_ends isBlankLine ((first :: others.map dropGutter).map trimEnd)
    by_cases bare : dropBlankEnds ((first :: others.map dropGutter).map trimEnd) = []
    · rw [bare]
      exact Or.inl rfl
    refine Or.inr (isFlush_dedent ?_ head last ?_ bare)
    · intro line member broken
      obtain ⟨whole, there, rfl⟩ := List.mem_map.mp (kept.subset member)
      exact inside whole there ((trimEnd_isPrefix whole).subset broken)
    · intro line member c
      obtain ⟨whole, -, rfl⟩ := List.mem_map.mp (kept.subset member)
      exact isBlank_of_getLast?_trimEnd

theorem not_mem_of_mem_gutterLines {indent message line : List Char} (clear : '\n' ∉ indent)
    (member : line ∈ gutterLines indent message) : '\n' ∉ line := by
  rcases List.mem_append.mp member with inside | last
  · obtain ⟨whole, there, rfl⟩ := List.mem_map.mp inside
    have unbroken := not_mem_of_mem_splitLines there
    simp [clear, unbroken]
  · rw [List.mem_singleton.mp last]
    exact clear

theorem map_dropGutter_gutterLines {indent : List Char} (blank : isBlankLine indent = true)
    (message : List Char) :
    (gutterLines indent message).map dropGutter = (splitLines message).map (' ' :: ·) ++ [indent] := by
  rw [gutterLines, List.map_append, List.map_map, List.map_singleton, dropGutter_of_isBlankLine blank]
  refine congrArg (· ++ [indent]) (List.map_congr_left fun line _ => ?_)
  exact dropGutter_append blank _

def spacedLines (message : List Char) : List (List Char) :=
  (splitLines message).map fun line => trimEnd (' ' :: line)

section Flush

variable {message : List Char} (flush : IsFlush message)

include flush

theorem deepens_spacedLine {line : List Char} (member : line ∈ splitLines message) :
    Deepens [' '] line (trimEnd (' ' :: line)) := by
  unfold Deepens
  split
  · rename_i blank
    have whole : isBlankLine (' ' :: line) = true := by
      rw [← List.singleton_append, isBlankLine_append, blank]
      rfl
    rw [trimEnd_of_isBlankLine whole]
    rfl
  · rename_i full
    have solid : line ≠ [] := by
      rintro rfl
      exact full rfl
    refine trimEnd_of_getLast fun c last => flush.ended line member c ?_
    rwa [List.getLast?_cons_of_ne_nil solid] at last

theorem isBlankLine_spacedLine {line : List Char} (member : line ∈ splitLines message)
    (full : isBlankLine line = false) : isBlankLine (trimEnd (' ' :: line)) = false := by
  have deepens := deepens_spacedLine flush member
  rw [Deepens, if_neg (by simp [full])] at deepens
  rw [deepens, isBlankLine_append, full, Bool.and_false]

theorem dedent_spacedLines {before after : List (List Char)}
    (blankBefore : ∀ line ∈ before, isBlankLine line = true)
    (blankAfter : ∀ line ∈ after, isBlankLine line = true) :
    dedent (joinWith ['\n'] (dropBlankEnds (before ++ spacedLines message ++ after))) = message := by
  have space : IsSpace [' '] := by simp [IsSpace]
  have full : spacedLines message ≠ [] := by simp [spacedLines, splitLines, splitAt_ne_nil]
  have deeper : List.Forall₂ (Deepens [' ']) (splitLines message) (spacedLines message) := by
    apply List.forall₂_map_right_iff.mpr
    apply List.forall₂_same.mpr
    intro line member
    exact deepens_spacedLine flush member
  have first : ∀ line, (spacedLines message).head? = some line → isBlankLine line = false := by
    intro line found
    rw [spacedLines, List.head?_map, Option.map_eq_some_iff] at found
    obtain ⟨whole, found, rfl⟩ := found
    exact isBlankLine_spacedLine flush (List.mem_of_head? found) (flush.first whole found)
  have last : ∀ line, (spacedLines message).getLast? = some line → isBlankLine line = false := by
    intro line found
    rw [spacedLines, List.getLast?_map, Option.map_eq_some_iff] at found
    obtain ⟨whole, found, rfl⟩ := found
    exact isBlankLine_spacedLine flush (List.mem_of_getLast? found) (flush.last whole found)
  have unbroken : ∀ line ∈ spacedLines message, '\n' ∉ line := by
    intro line member broken
    obtain ⟨whole, there, rfl⟩ := List.mem_map.mp member
    rcases List.mem_cons.mp ((trimEnd_isPrefix _).subset broken) with other | inside
    · cases other
    · exact not_mem_of_mem_splitLines there inside
  rw [dropBlankEnds_append blankBefore blankAfter first last full, dedent,
    splitLines_joinWith unbroken full, map_dropMargin_of_deepens space deeper]
  exact flush.bare

theorem cleanDocComment_behindGutter {indent : List Char}
    (blank : ∀ c ∈ indent, isBlank c = true ∧ c ≠ '\n') :
    cleanDocComment (behindGutter indent message) = message := by
  have blankIndent : isBlankLine indent = true := List.all_eq_true.mpr fun c hc => (blank c hc).1
  have some_ : gutterLines indent message ≠ [] := by simp [gutterLines]
  have body : dropStart? ['*'] (behindGutter indent message) =
      some (joinWith ['\n'] ([] :: gutterLines indent message)) := by
    rw [behindGutter, joinWith_cons some_, joinWith_cons some_, List.append_assoc]
    exact dropStart?_append ['*'] _
  have unbroken : ∀ line ∈ [] :: gutterLines indent message, '\n' ∉ line := by
    have clear : '\n' ∉ indent := fun broken => (blank _ broken).2 rfl
    intro line member
    rcases List.mem_cons.mp member with rfl | member
    · exact List.not_mem_nil
    · exact not_mem_of_mem_gutterLines clear member
  have block : ([] :: (gutterLines indent message).map dropGutter).map trimEnd =
      [[]] ++ spacedLines message ++ [[]] := by
    rw [map_dropGutter_gutterLines blankIndent, List.map_cons, List.map_append, List.map_map,
      List.map_singleton, trimEnd_of_isBlankLine blankIndent]
    rfl
  simp only [cleanDocComment, body, Option.getD_some, splitLines_joinWith unbroken (by simp), block]
  exact dedent_spacedLines flush (by simp [isBlankLine]) (by simp [isBlankLine])

theorem cleanDocComment_inline (unbroken : '\n' ∉ message) :
    cleanDocComment ('*' :: ' ' :: message ++ [' ']) = message := by
  have one : splitLines message = [message] := by
    refine splitAt_of_forall fun c hc => beq_false_of_ne ?_
    rintro rfl
    exact unbroken hc
  have body : dropStart? ['*'] ('*' :: ' ' :: message ++ [' ']) = some (' ' :: message ++ [' ']) :=
    dropStart?_append ['*'] _
  have alone : splitLines (' ' :: message ++ [' ']) = [' ' :: message ++ [' ']] := by
    refine splitAt_of_forall fun c hc => beq_false_of_ne ?_
    rintro rfl
    simp [unbroken] at hc
  have trimmed : trimEnd (' ' :: message ++ [' ']) = trimEnd (' ' :: message) := by
    have blank : isBlank ' ' = true := by decide
    simp [trimEnd, blank]
  have block : [trimEnd (' ' :: message ++ [' '])] = [] ++ spacedLines message ++ [] := by
    rw [trimmed, spacedLines, one]
    rfl
  simp only [cleanDocComment, body, Option.getD_some, alone, List.map_cons, List.map_nil, block]
  exact dedent_spacedLines flush (by simp) (by simp)

end Flush

/-- What is found in a comment is empty, or it begins and ends with lines that are not blank and has neither
a margin nor blanks at the ends of lines. Every text of that form is found when it is written behind a
gutter, at any indentation, and if it is one line also when it stands by itself. -/
theorem cleanDocComment_recovers :
    (∀ text, cleanDocComment text = [] ∨ IsFlush (cleanDocComment text)) ∧
      ∀ message, IsFlush message →
        (∀ indent, (∀ c ∈ indent, isBlank c = true ∧ c ≠ '\n') →
          cleanDocComment (behindGutter indent message) = message) ∧
        ('\n' ∉ message → cleanDocComment ('*' :: ' ' :: message ++ [' ']) = message) := by
  refine ⟨isFlush_cleanDocComment, fun message flush => ⟨fun indent blank => ?_, fun unbroken => ?_⟩⟩
  · exact cleanDocComment_behindGutter flush blank
  · exact cleanDocComment_inline flush unbroken

theorem cleanDocComment_recovers_starred :
    let message := "one\n\n  * two".toList
    IsFlush message ∧
      cleanDocComment "*\n\u3000* one\n\u3000* \n\u3000*   * two\n\u3000".toList = message ∧
      '\n' ∉ "* one".toList ∧ cleanDocComment "* * one ".toList = "* one".toList := by
  intro message
  have solid : isBlank 'e' = false ∧ isBlank 'o' = false ∧ isBlank '\u3000' = true := by decide
  have lines : splitLines message = ["one".toList, [], "  * two".toList] := by decide
  have flush : IsFlush message := ⟨by decide, by decide, by simp [lines, solid], by decide⟩
  have line : splitLines ['*', ' ', 'o', 'n', 'e'] = [['*', ' ', 'o', 'n', 'e']] := by decide
  have inline : IsFlush "* one".toList := ⟨by decide, by decide, by simp [line, solid], by decide⟩
  have behind := (cleanDocComment_recovers.2 message flush).1 ['\u3000'] (by simp [solid])
  have unbroken : '\n' ∉ "* one".toList := by decide
  exact ⟨flush, behind, unbroken, (cleanDocComment_recovers.2 _ inline).2 unbroken⟩

end Phrasebook.Text
