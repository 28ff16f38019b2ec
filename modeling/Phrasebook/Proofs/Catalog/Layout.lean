import Phrasebook.Proofs.Catalog.Places
import Phrasebook.Proofs.Catalog.Reading

/-!
The layouts of a catalog: its messages are read alike however their metadata is ordered, their strings
are cut and their lines are set.
-/

set_option autoImplicit false

namespace Phrasebook

open Text (IsLaidOut IsTrimmed isBlank)

namespace Catalog

structure IsSpace (space : List Char) : Prop where
  blank : ∀ c ∈ space, isBlank c = true
  inside : '\n' ∉ space

/-- A line of metadata: a remark after some space, places with space before each, or flags between
commas. -/
inductive Metadata
  | remark (space text : List Char)
  | places (found : List (List Char × Occurrence))
  | flags (names : List (List Char))

namespace Metadata

def line : Metadata → List Char
  | remark space text => '#' :: '.' :: (space ++ text)
  | places found => '#' :: ':' :: found.flatMap fun place => place.1 ++ place.2.toChars
  | flags names => '#' :: ',' :: Text.joinWith [','] names

/-- Space separates places, remarks have no blanks at their ends, and everything is on one line. -/
def IsProper : Metadata → Prop
  | remark space text => IsSpace space ∧ IsTrimmed text ∧ '\n' ∉ text
  | places found =>
    (∀ place ∈ found, IsSpace place.1 ∧ place.2.IsPlain) ∧ ∀ place ∈ found.tail, place.1 ≠ []
  | flags names => ∀ name ∈ names, ',' ∉ name ∧ '\n' ∉ name

def remarks : Metadata → List String
  | remark _ text => [String.ofList text]
  | _ => []

def occurrences : Metadata → List Occurrence
  | places found => found.map Prod.snd
  | _ => []

def hasFlag (flag : List Char) : Metadata → Bool
  | flags names => names.any fun name => Text.trim name == flag
  | _ => false

end Metadata

/-- A message as it is spelled: lines of metadata, and two strings that are cut into pieces. -/
structure Block where
  metadata : List Metadata
  key : List Char
  furtherKey : List (List Char)
  text : List Char
  furtherText : List (List Char)

namespace Block

/-- The lines of a message. The first piece of a string is on the line of its keyword. -/
def lines (block : Block) : List (List Char) :=
  block.metadata.map Metadata.line ++
    ((keyWord ++ quoted block.key) :: block.furtherKey.map quoted) ++
    ((textWord ++ quoted block.text) :: block.furtherText.map quoted)

def entry (block : Block) : Entry where
  key := String.ofList (block.key ++ block.furtherKey.flatten)
  localized := String.ofList (block.text ++ block.furtherText.flatten)
  occurrences := (block.metadata.flatMap Metadata.occurrences).eraseDups
  comments := Entry.sortedDistinct (block.metadata.flatMap Metadata.remarks)
  isFormat := block.metadata.any (Metadata.hasFlag formatFlag)
  isDocumentation := block.metadata.any (Metadata.hasFlag documentationFlag)

def IsProper (block : Block) : Prop := ∀ line ∈ block.metadata, line.IsProper

end Block

private theorem not_mem_toChars {occurrence : Occurrence} (plain : occurrence.IsPlain) :
    '\n' ∉ occurrence.toChars := by
  rw [← plain.normal]
  intro hc
  rcases Text.mem_joinWith hc with hc | ⟨word, hw, hc⟩
  · simp at hc
  · exact absurd ((Text.isWord_of_mem_words hw).2 '\n' hc) (by decide)

private theorem not_mem_line {line : Metadata} (proper : line.IsProper) : '\n' ∉ line.line := by
  cases line with
  | remark space text => simp [Metadata.line, proper.1.inside, proper.2.2]
  | places found =>
    simp only [Metadata.line, List.mem_cons, List.mem_flatMap, List.mem_append]
    rintro (h | h | ⟨place, member, h | h⟩)
    · simp at h
    · simp at h
    · exact (proper.1 place member).1.inside h
    · exact not_mem_toChars (proper.1 place member).2 h
  | flags names =>
    simp only [Metadata.line, List.mem_cons]
    rintro (h | h | h)
    · simp at h
    · simp at h
    · rcases Text.mem_joinWith h with h | ⟨name, member, h⟩
      · simp at h
      · exact (proper name member).2 h

private theorem trim_marked {kind : Char} (solid : isBlank kind = false) (text : List Char) :
    Text.trim ('#' :: kind :: text) = '#' :: kind :: Text.trimEnd text := by
  have start : Text.trimStart ('#' :: kind :: text) = '#' :: kind :: text :=
    Text.trimStart_of_head (by simpa using (by decide : isBlank '#' = false))
  rw [Text.trim, start, Text.trimEnd_cons_of_not_isBlank (by decide),
    Text.trimEnd_cons_of_not_isBlank solid]

private theorem tell_remark {space text : List Char} (proper : (Metadata.remark space text).IsProper)
    (entry : Entry) :
    Reading.tell entry (Metadata.remark space text).line =
      entry.addComments [String.ofList text] := by
  obtain ⟨blank, trimmed, -⟩ := proper
  rw [Reading.tell, Metadata.line, trim_marked (by decide), List.tail_cons, addMetadata,
    Text.trim_trimEnd, Text.trim_append_left_of_forall blank.blank, Text.trim_of_isTrimmed trimmed]

private theorem tell_places {found : List (List Char × Occurrence)}
    (proper : (Metadata.places found).IsProper) (entry : Entry) :
    Reading.tell entry (Metadata.places found).line =
      (found.map Prod.snd).foldl Entry.addOccurrence entry := by
  obtain ⟨each, apart⟩ := proper
  have spaced : IsSpaced found := ⟨fun place hp => (each place hp).1.blank, apart⟩
  rw [Reading.tell, Metadata.line, trim_marked (by decide), List.tail_cons, addMetadata,
    parseReferences, Text.words_trimEnd, ← parseReferences,
    spaced.parseReferences_eq fun place hp => (each place hp).2]

private theorem tell_flags {names : List (List Char)} (proper : (Metadata.flags names).IsProper)
    (entry : Entry) :
    Reading.tell entry (Metadata.flags names).line =
      { entry with
        isFormat := entry.isFormat || (Metadata.flags names).hasFlag formatFlag
        isDocumentation :=
          entry.isDocumentation || (Metadata.flags names).hasFlag documentationFlag } := by
  have uncut : ∀ c, isBlank c = true → (c == ',') = false := by
    rintro c blank
    rw [beq_eq_false_iff_ne]
    rintro rfl
    exact absurd blank (by decide)
  have listed : ∀ flag, flag ≠ [] →
      ((Text.splitAt (· == ',') (Text.joinWith [','] names)).map Text.trim).contains flag =
        (Metadata.flags names).hasFlag flag := by
    intro flag filled
    cases names with
    | nil => simp [Text.splitAt, Metadata.hasFlag, filled]
    | cons name names =>
      have pieces : ∀ piece ∈ name :: names, ∀ c ∈ piece, (c == ',') = false := by
        intro piece hp c hc
        rw [beq_eq_false_iff_ne]
        rintro rfl
        exact (proper piece hp).1 hc
      rw [Text.splitAt_joinWith (by decide) pieces (by simp), List.contains_eq_any_beq,
        List.any_map, Metadata.hasFlag]
      congr 1
      funext piece
      exact Bool.beq_comm
  rw [Reading.tell, Metadata.line, trim_marked (by decide), List.tail_cons, addMetadata, addFlags,
    Text.map_trim_splitAt_trimEnd uncut, listed _ (by decide), listed _ (by decide)]

private def withLines (lines : List Metadata) (entry : Entry) : Entry :=
  { entry with
    occurrences :=
      ((lines.flatMap Metadata.occurrences).foldl Entry.addOccurrence entry).occurrences
    comments := Entry.sortedDistinct (entry.comments ++ lines.flatMap Metadata.remarks)
    isFormat := entry.isFormat || lines.any (Metadata.hasFlag formatFlag)
    isDocumentation := entry.isDocumentation || lines.any (Metadata.hasFlag documentationFlag) }

private theorem tell_line {line : Metadata} (proper : line.IsProper) {entry : Entry}
    (sorted : entry.comments.Pairwise (· < ·)) :
    Reading.tell entry line.line = withLines [line] entry := by
  have same := Entry.sortedDistinct_of_pairwise sorted
  cases line with
  | remark space text =>
    rw [tell_remark proper]
    simp [withLines, Metadata.occurrences, Metadata.remarks, Metadata.hasFlag, Entry.addComments]
  | places found =>
    rw [tell_places proper, Entry.foldl_addOccurrence_congr (rfl : entry.occurrences = entry.occurrences)]
    simp [withLines, Metadata.occurrences, Metadata.remarks, Metadata.hasFlag, same]
  | flags names =>
    rw [tell_flags proper]
    simp [withLines, Metadata.occurrences, Metadata.remarks, same]

private theorem withLines_cons (line : Metadata) (lines : List Metadata) (entry : Entry) :
    withLines lines (withLines [line] entry) = withLines (line :: lines) entry := by
  have first : (withLines [line] entry).occurrences =
      (line.occurrences.foldl Entry.addOccurrence entry).occurrences := by simp [withLines]
  have places := Entry.foldl_addOccurrence_congr first (lines.flatMap Metadata.occurrences)
  have remarks : Entry.sortedDistinct (Entry.sortedDistinct (entry.comments ++ line.remarks) ++
      lines.flatMap Metadata.remarks) =
      Entry.sortedDistinct (entry.comments ++ (line.remarks ++ lines.flatMap Metadata.remarks)) :=
    Entry.sortedDistinct_congr fun text => by simp [or_assoc]
  have found := congrArg Entry.occurrences places
  unfold withLines at found ⊢
  simp only [List.flatMap_cons, List.flatMap_nil, List.append_nil, List.any_cons, List.any_nil,
    Bool.or_false, List.foldl_append, Bool.or_assoc] at found ⊢
  rw [found, remarks]

private theorem foldl_tell_lines {lines : List Metadata} (proper : ∀ line ∈ lines, line.IsProper)
    {entry : Entry} (sorted : entry.comments.Pairwise (· < ·)) :
    (lines.map Metadata.line).foldl Reading.tell entry = withLines lines entry := by
  induction lines generalizing entry with
  | nil => simp [withLines, Entry.sortedDistinct_of_pairwise sorted]
  | cons line lines ih =>
    have rest := fun other ho => proper other (List.mem_cons_of_mem line ho)
    rw [List.map_cons, List.foldl_cons, tell_line (proper line (by simp)) sorted,
      ih rest (Entry.pairwise_sortedDistinct _), withLines_cons]

private theorem head?_trim_line (line : Metadata) : (Text.trim line.line).head? = some '#' := by
  cases line with
  | remark space text => rw [Metadata.line, trim_marked (by decide)]; rfl
  | places found => rw [Metadata.line, trim_marked (by decide)]; rfl
  | flags names => rw [Metadata.line, trim_marked (by decide)]; rfl

private theorem not_mem_lines {block : Block} (proper : block.IsProper) :
    ∀ line ∈ block.lines, '\n' ∉ line := by
  intro line hl
  rcases List.mem_append.mp hl with hl | hl
  · rcases List.mem_append.mp hl with hl | hl
    · obtain ⟨told, member, rfl⟩ := List.mem_map.mp hl
      exact not_mem_line (proper told member)
    · exact (isLine_of_mem_quoted (by decide : '\n' ∉ keyWord) hl).1
  · exact (isLine_of_mem_quoted (by decide : '\n' ∉ textWord) hl).1

private theorem foldl_advance_lines {block : Block} (proper : block.IsProper) {reading : Reading}
    (ready : reading.IsReady) :
    block.lines.foldl Reading.advance reading =
      { catalog := reading.flush.catalog, stage := .text, pending := block.entry } := by
  have marked : ∀ line ∈ block.metadata.map Metadata.line, (Text.trim line).head? = some '#' := by
    intro line hl
    obtain ⟨told, -, rfl⟩ := List.mem_map.mp hl
    exact head?_trim_line told
  have bare : (Entry.ofKey "").comments.Pairwise (· < ·) := List.Pairwise.nil
  rw [Block.lines, Reading.foldl_advance_message ready marked, foldl_tell_lines proper bare]
  simp [withLines, Block.entry, Entry.ofKey, Entry.occurrences_foldl_addOccurrence]

private theorem foldl_advance_flatMap_lines {blocks : List Block}
    (proper : ∀ block ∈ blocks, block.IsProper) {reading : Reading} (ready : reading.IsReady) :
    ((blocks.flatMap Block.lines).foldl Reading.advance reading).flush.catalog =
      (blocks.map Block.entry).foldl insert reading.flush.catalog := by
  induction blocks generalizing reading with
  | nil => rfl
  | cons block blocks ih =>
    have rest := fun other ho => proper other (List.mem_cons_of_mem block ho)
    rw [List.flatMap_cons, List.foldl_append, foldl_advance_lines (proper block (by simp)) ready,
      ih rest (Reading.isReady_message _ _)]
    rfl

/-- However messages are laid out, they are read, each of them whole, and the last one of a key is
kept. -/
theorem parse_of_isLaidOut {blocks : List Block} (proper : ∀ block ∈ blocks, block.IsProper)
    {text : List Char} (laid : IsLaidOut (blocks.flatMap Block.lines) text) (locale : String) :
    parse (String.ofList text) locale = (blocks.map Block.entry).foldl insert (empty locale) ∧
      ∀ key ≠ "", (parse (String.ofList text) locale).get? key =
        (blocks.map Block.entry).reverse.find? (·.key == key) := by
  have whole : ∀ line ∈ blocks.flatMap Block.lines, '\n' ∉ line := by
    intro line hl
    obtain ⟨block, member, within⟩ := List.mem_flatMap.mp hl
    exact not_mem_lines (proper block member) line within
  have ready : (Reading.start (empty locale)).IsReady := ⟨by simp [Reading.start], rfl⟩
  have read : parse (String.ofList text) locale =
      (blocks.map Block.entry).foldl insert (empty locale) := by
    rw [parse_eq_foldl_solidLines, String.toList_ofList, laid.solidLines_eq whole,
      Reading.foldl_advance_trim rfl, foldl_advance_flatMap_lines proper ready]
    rfl
  refine ⟨read, fun key named => ?_⟩
  rw [read, get?_foldl_insert _ _ named]
  simp [empty, get?]

private def scattered : Block where
  metadata := [.flags [" fuzzy".toList, " brace-format".toList],
    .places [([], ⟨"b c.ts", 7⟩), ([' ', ' '], ⟨"a.ts", 1⟩)]]
  key := "H".toList
  furtherKey := ["i".toList]
  text := []
  furtherText := ["Salut\n".toList]

private def scatteredText : List Char :=
  "\n  #, fuzzy, brace-format\r\n#:b c.ts:7  a.ts:1\n\nmsgid \"H\"\n  \"i\"\t\nmsgstr \"\"\n\"Salut\\n\"".toList

private theorem isPlain_scattered :
    (⟨"b c.ts", 7⟩ : Occurrence).IsPlain ∧ (⟨"a.ts", 1⟩ : Occurrence).IsPlain := by
  decide

private theorem isLaidOut_scattered : IsLaidOut scattered.lines scatteredText := by
  have first : IsLaidOut scattered.lines ("\n  ".toList ++ scattered.lines[0] ++ ['\r'] ++ '\n' ::
      ([] ++ scattered.lines[1] ++ [] ++ '\n' :: (['\n'] ++ scattered.lines[2] ++ [] ++ '\n' ::
      ([' ', ' '] ++ scattered.lines[3] ++ ['\t'] ++ '\n' :: ([] ++ scattered.lines[4] ++ [] ++ '\n' ::
      ([] ++ scattered.lines[5] ++ [])))))) := by
    iterate 5
      refine IsLaidOut.cons (List.all_eq_true.mp ?_) (List.all_eq_true.mp ?_) ?_ ?_
      · decide
      · decide
      · decide
    refine IsLaidOut.last (List.all_eq_true.mp ?_) (List.all_eq_true.mp ?_) ?_
    · decide
    · decide
    · decide
  refine Eq.mp (congrArg (IsLaidOut scattered.lines) ?_) first
  decide

theorem parse_of_isLaidOut_scattered :
    ∃ entry, (parse (String.ofList scatteredText) "fr").get? "Hi" = some entry ∧
      entry.localized = "Salut\n" ∧ entry.occurrences = [⟨"b c.ts", 7⟩, ⟨"a.ts", 1⟩] ∧
      entry.isFormat = true := by
  have proper : ∀ block ∈ [scattered], block.IsProper := by
    intro block hb line hl
    rw [List.mem_singleton.mp hb] at hl
    simp only [scattered, List.mem_cons, List.not_mem_nil, or_false] at hl
    rcases hl with rfl | rfl
    · simp [Metadata.IsProper]
    · refine ⟨?_, by simp⟩
      simp only [List.mem_cons, List.not_mem_nil, or_false]
      rintro place (rfl | rfl)
      · exact ⟨⟨by simp, by simp⟩, isPlain_scattered.1⟩
      · exact ⟨⟨List.all_eq_true.mp (by decide), by decide⟩, isPlain_scattered.2⟩
  have laid : IsLaidOut ([scattered].flatMap Block.lines) scatteredText := by
    rw [List.flatMap_singleton]
    exact isLaidOut_scattered
  refine ⟨scattered.entry, (parse_of_isLaidOut proper laid "fr").2 "Hi" (by decide), ?_, ?_, ?_⟩
  · decide
  · decide
  · decide

end Catalog

end Phrasebook
