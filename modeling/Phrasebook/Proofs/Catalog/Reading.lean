import Phrasebook.Catalog.Reader
import Phrasebook.Proofs.Catalog.Quoting
import Phrasebook.Proofs.Catalog.Store
import Phrasebook.Proofs.Text.Layout

/-!
Reading as a run of steps, one for each line. The number of a line and the notes on skipped lines have
no part in what is read.
-/

set_option autoImplicit false

namespace Phrasebook.Catalog

namespace Reading

/-- A reading without its notes on skipped lines. -/
def silent (reading : Reading) : Reading := { reading with skipped := [] }

def advance (reading : Reading) (line : List Char) : Reading :=
  (reading.readLine 1 (Text.trim line)).silent

theorem silent_flush (reading : Reading) : reading.flush.silent = reading.silent.flush := by
  unfold flush
  cases h : reading.stage <;> simp [silent, h]

private theorem silent_readKey (reading : Reading) (line : Nat) (text : List Char) :
    (reading.readKey line text).silent = (reading.silent.readKey 1 text).silent := by
  unfold readKey flush
  cases h : reading.stage <;> cases unquote? text <;> simp [silent, reject, h]

private theorem silent_readText (reading : Reading) (line : Nat) (text : List Char) :
    (reading.readText line text).silent = (reading.silent.readText 1 text).silent := by
  unfold readText
  cases h : reading.stage <;> cases unquote? text <;> simp [silent, reject, h]

private theorem silent_readContinuation (reading : Reading) (line : Nat) (text : List Char) :
    (reading.readContinuation line text).silent =
      (reading.silent.readContinuation 1 text).silent := by
  unfold readContinuation
  cases unquote? text <;> cases h : reading.stage <;> simp [silent, reject, h]

theorem silent_readLine (reading : Reading) (line : Nat) (text : List Char) :
    (reading.readLine line text).silent = (reading.silent.readLine 1 text).silent := by
  unfold readLine
  split
  · rfl
  · rename_i rest
    simp only [readMetadata]
    rw [← silent_flush]
    rfl
  · exact silent_readContinuation reading line _
  · split
    · exact silent_readKey reading line _
    · split
      · exact silent_readText reading line _
      · rfl

theorem silent_readLines (reading : Reading) (number : Nat) (lines : List (List Char)) :
    (reading.readLines number lines).silent = lines.foldl advance reading.silent := by
  induction lines generalizing reading number with
  | nil => rfl
  | cons line lines ih =>
    rw [readLines, ih, List.foldl_cons, silent_readLine]
    rfl

def start (catalog : Catalog) : Reading := { catalog }

end Reading

/-- The catalog that a text spells is what its lines, read one after the other, come to. -/
theorem parse_eq_foldl (content locale : String) :
    parse content locale =
      ((Text.lines content.toList).foldl Reading.advance (Reading.start (empty locale))).flush.catalog := by
  have run := Reading.silent_readLines (Reading.start (empty locale)) 1 (Text.lines content.toList)
  have quiet : (Reading.start (empty locale)).silent = Reading.start (empty locale) := rfl
  rw [quiet] at run
  rw [← run, ← Reading.silent_flush]
  rfl

namespace Reading

theorem foldl_advance_trim {reading : Reading} (quiet : reading.skipped = [])
    (lines : List (List Char)) :
    ((lines.map Text.trim).filter fun line => !line.isEmpty).foldl advance reading =
      lines.foldl advance reading := by
  induction lines generalizing reading with
  | nil => rfl
  | cons line lines ih =>
    have below := @ih (reading.advance line) rfl
    rw [List.map_cons, List.foldl_cons, ← below]
    cases solid : Text.trim line with
    | nil =>
      have same : reading.advance line = reading := by
        simp [advance, solid, readLine, silent, ← quiet]
      rw [same]
      rfl
    | cons c rest =>
      have same : reading.advance (c :: rest) = reading.advance line := by
        rw [← solid, advance, Text.trim_trim, advance]
      rw [List.filter_cons_of_pos (by simp), List.foldl_cons, same]

end Reading

theorem parse_eq_foldl_solidLines (content locale : String) :
    parse content locale =
      ((Text.solidLines content.toList).foldl Reading.advance
        (Reading.start (empty locale))).flush.catalog := by
  rw [parse_eq_foldl, ← Text.filter_map_trim_lines, Reading.foldl_advance_trim rfl]

namespace Reading

theorem stage_flush (reading : Reading) : reading.flush.stage ≠ .text := by
  unfold flush
  cases h : reading.stage <;> simp [h]

theorem flush_of_stage {reading : Reading} (h : reading.stage ≠ .text) :
    reading.flush = reading := by
  unfold flush
  cases hs : reading.stage <;> simp_all

theorem advance_blank (reading : Reading) {line : List Char} (h : Text.trim line = []) :
    reading.advance line = reading.silent := by
  simp [advance, h, readLine]

/-- Metadata belongs to the message after it: a message that was read to its end is moved into the
catalog first. -/
theorem advance_metadata (reading : Reading) {line text : List Char}
    (h : Text.trim line = '#' :: text) :
    reading.advance line =
      { reading.flush with pending := addMetadata reading.flush.pending text, skipped := [] } := by
  simp [advance, h, readLine, readMetadata, silent]

theorem advance_keyWord (reading : Reading) {line text : List Char}
    (h : Text.trim line = keyWord ++ text) :
    reading.advance line = (reading.readKey 1 text).silent := by
  have word : keyWord = 'm' :: "sgid ".toList := rfl
  have taken : Text.dropStart? keyWord ('m' :: ("sgid ".toList ++ text)) = some text :=
    Text.dropStart?_append keyWord text
  rw [word, List.cons_append] at h
  rw [advance, h, readLine, taken]
  · simp
  · simp
  · simp

theorem advance_key {reading : Reading} {line text value : List Char}
    (h : Text.trim line = keyWord ++ text) (read : unquote? text = some value)
    (stage : reading.stage ≠ .key) :
    reading.advance line =
      { reading.flush with
        stage := .key
        pending := { reading.flush.pending with key := String.ofList value }
        skipped := [] } := by
  rw [advance_keyWord reading h]
  cases hs : reading.stage <;> simp_all [readKey, silent]

theorem advance_text {reading : Reading} {line text value : List Char}
    (h : Text.trim line = textWord ++ text) (read : unquote? text = some value)
    (stage : reading.stage = .key) :
    reading.advance line =
      { reading with
        stage := .text
        pending := { reading.pending with localized := String.ofList value }
        skipped := [] } := by
  have word : textWord = 'm' :: "sgstr ".toList := rfl
  have other : Text.dropStart? keyWord (textWord ++ text) = none := rfl
  have taken : Text.dropStart? textWord (textWord ++ text) = some text :=
    Text.dropStart?_append _ _
  rw [word, List.cons_append] at h other taken
  simp only [advance, h, readLine, word, other, taken, readText, read, stage]
  simp [silent]

private theorem advance_quoted (reading : Reading) {line : List Char}
    (h : (Text.trim line).head? = some '"') :
    reading.advance line = (reading.readContinuation 1 (Text.trim line)).silent := by
  unfold advance
  cases hl : Text.trim line with
  | nil => simp [hl] at h
  | cons c rest =>
    obtain rfl : c = '"' := by simpa [hl] using h
    rfl

theorem advance_key_continuation {reading : Reading} {line value : List Char}
    (h : (Text.trim line).head? = some '"') (read : unquote? (Text.trim line) = some value)
    (stage : reading.stage = .key) :
    reading.advance line =
      { reading with
        pending := { reading.pending with key := reading.pending.key ++ String.ofList value }
        skipped := [] } := by
  rw [advance_quoted reading h]
  simp [readContinuation, read, stage, silent]

theorem advance_text_continuation {reading : Reading} {line value : List Char}
    (h : (Text.trim line).head? = some '"') (read : unquote? (Text.trim line) = some value)
    (stage : reading.stage = .text) :
    reading.advance line =
      { reading with
        pending :=
          { reading.pending with localized := reading.pending.localized ++ String.ofList value }
        skipped := [] } := by
  rw [advance_quoted reading h]
  simp [readContinuation, read, stage, silent]

theorem advance_outside_continuation {reading : Reading} {line : List Char}
    (h : (Text.trim line).head? = some '"') (stage : reading.stage = .outside) :
    reading.advance line = reading.silent := by
  rw [advance_quoted reading h]
  cases read : unquote? (Text.trim line) with
  | none => simp [readContinuation, read, reject, silent]
  | some value => simp [readContinuation, read, stage, reject, silent]

def tell (entry : Entry) (line : List Char) : Entry := addMetadata entry (Text.trim line).tail

theorem foldl_advance_metadata (reading : Reading) {lines : List (List Char)}
    (h : ∀ line ∈ lines, (Text.trim line).head? = some '#') (stage : reading.stage ≠ .key) :
    (lines.foldl advance reading).stage ≠ .key ∧
      (lines.foldl advance reading).flush.silent =
        { reading.flush with
          pending := lines.foldl tell reading.flush.pending
          skipped := [] } := by
  induction lines generalizing reading with
  | nil => exact ⟨stage, rfl⟩
  | cons line lines ih =>
    obtain ⟨text, marked⟩ : ∃ text, Text.trim line = '#' :: text :=
      List.head?_eq_some_iff.mp (h line (by simp))
    have next := advance_metadata reading marked
    have outside : (reading.advance line).stage = reading.flush.stage := by rw [next]
    have open_ : (reading.advance line).stage ≠ .text := by
      rw [outside]
      exact stage_flush reading
    have notKey : (reading.advance line).stage ≠ .key := by
      rw [outside]
      unfold flush
      cases hs : reading.stage <;> simp_all
    have rest := ih (reading.advance line) (fun other ho => h other (by simp [ho])) notKey
    rw [flush_of_stage open_] at rest
    refine ⟨rest.1, ?_⟩
    rw [List.foldl_cons, rest.2, next, List.foldl_cons, tell, marked]
    rfl

theorem foldl_advance_key (reading : Reading) (pieces : List (List Char))
    (stage : reading.stage = .key) (quiet : reading.skipped = []) :
    (pieces.map quoted).foldl advance reading =
      { reading with
        pending :=
          { reading.pending with key := reading.pending.key ++ String.ofList pieces.flatten } } := by
  induction pieces generalizing reading with
  | nil => simp
  | cons piece pieces ih =>
    have opened : (Text.trim (quoted piece)).head? = some '"' := by rw [trim_quoted]; rfl
    have content : unquote? (Text.trim (quoted piece)) = some piece := by
      rw [trim_quoted, unquote?_quoted]
    have next := advance_key_continuation opened content stage
    have stageNext : (reading.advance (quoted piece)).stage = .key := by rw [next]; exact stage
    have quietNext : (reading.advance (quoted piece)).skipped = [] := by rw [next]
    rw [List.map_cons, List.foldl_cons, ih _ stageNext quietNext, next]
    simp [quiet, String.append_assoc]

theorem foldl_advance_text (reading : Reading) (pieces : List (List Char))
    (stage : reading.stage = .text) (quiet : reading.skipped = []) :
    (pieces.map quoted).foldl advance reading =
      { reading with
        pending :=
          { reading.pending with
            localized := reading.pending.localized ++ String.ofList pieces.flatten } } := by
  induction pieces generalizing reading with
  | nil => simp
  | cons piece pieces ih =>
    have opened : (Text.trim (quoted piece)).head? = some '"' := by rw [trim_quoted]; rfl
    have content : unquote? (Text.trim (quoted piece)) = some piece := by
      rw [trim_quoted, unquote?_quoted]
    have next := advance_text_continuation opened content stage
    have stageNext : (reading.advance (quoted piece)).stage = .text := by rw [next]; exact stage
    have quietNext : (reading.advance (quoted piece)).skipped = [] := by rw [next]
    rw [List.map_cons, List.foldl_cons, ih _ stageNext quietNext, next]
    simp [quiet, String.append_assoc]

structure IsReady (reading : Reading) : Prop where
  stage : reading.stage ≠ .key
  fresh : reading.flush.pending = Entry.ofKey ""

theorem foldl_advance_keyLines {reading : Reading} (stage : reading.stage ≠ .key)
    (first : List Char) (others : List (List Char)) :
    ((keyWord ++ quoted first) :: others.map quoted).foldl advance reading =
      { reading.flush with
        stage := .key
        pending := { reading.flush.pending with key := String.ofList (first ++ others.flatten) }
        skipped := [] } := by
  have trimmed : Text.trim (keyWord ++ quoted first) = keyWord ++ quoted first :=
    Text.trim_of_isTrimmed (isTrimmed_append_quoted (by rintro c ⟨⟩; decide) _)
  have start := advance_key trimmed (unquote?_quoted _) stage
  rw [List.foldl_cons, foldl_advance_key _ _ (by rw [start]) (by rw [start]), start]
  simp

theorem foldl_advance_textLines {reading : Reading} (stage : reading.stage = .key)
    (first : List Char) (others : List (List Char)) :
    ((textWord ++ quoted first) :: others.map quoted).foldl advance reading =
      { reading with
        stage := .text
        pending := { reading.pending with localized := String.ofList (first ++ others.flatten) }
        skipped := [] } := by
  have trimmed : Text.trim (textWord ++ quoted first) = textWord ++ quoted first :=
    Text.trim_of_isTrimmed (isTrimmed_append_quoted (by rintro c ⟨⟩; decide) _)
  have start := advance_text trimmed (unquote?_quoted _) stage
  rw [List.foldl_cons, foldl_advance_text _ _ (by rw [start]) (by rw [start]), start]
  simp

theorem foldl_advance_message {reading : Reading} (ready : reading.IsReady)
    {metadata : List (List Char)} (marked : ∀ line ∈ metadata, (Text.trim line).head? = some '#')
    (key text : List Char) (keys texts : List (List Char)) :
    (metadata ++ ((keyWord ++ quoted key) :: keys.map quoted) ++
        ((textWord ++ quoted text) :: texts.map quoted)).foldl advance reading =
      { catalog := reading.flush.catalog
        stage := .text
        pending :=
          { metadata.foldl tell (Entry.ofKey "") with
            key := String.ofList (key ++ keys.flatten)
            localized := String.ofList (text ++ texts.flatten) } } := by
  obtain ⟨stage, told⟩ := foldl_advance_metadata reading marked ready.stage
  rw [ready.fresh] at told
  have catalog := congrArg Reading.catalog told
  have pending := congrArg Reading.pending told
  simp only [silent] at catalog pending
  rw [List.foldl_append, List.foldl_append, foldl_advance_keyLines stage,
    foldl_advance_textLines rfl, catalog, pending]

theorem isReady_message (catalog : Catalog) (entry : Entry) :
    ({ catalog, stage := .text, pending := entry } : Reading).IsReady :=
  ⟨by simp, rfl⟩

end Reading

end Phrasebook.Catalog
