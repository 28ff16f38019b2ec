import Phrasebook.Proofs.Catalog.Reading

/-!
What is read is added to what was read before: which messages a line ends depends on the message being
read alone, never on those that are stored.
-/

set_option autoImplicit false

namespace Phrasebook.Catalog

/-- A line before which the message that was read to its end is stored: metadata or a key. -/
def Begins (line : List Char) : Prop :=
  (∃ text, Text.trim line = '#' :: text) ∨ ∃ text, Text.trim line = keyWord ++ text

instance (line : List Char) : Decidable (Begins line) :=
  decidable_of_iff ((Text.trim line).head? = some '#' ∨
    (Text.dropStart? keyWord (Text.trim line)).isSome = true) <| by
  refine or_congr ?_ ⟨fun h => ?_, ?_⟩
  · cases Text.trim line <;> simp
  · obtain ⟨text, found⟩ := Option.isSome_iff_exists.mp h
    exact ⟨text, Text.eq_append_of_dropStart? found⟩
  · rintro ⟨text, marked⟩
    simp [marked]

namespace Reading

def onto (reading : Reading) (catalog : Catalog) : Reading := { reading with catalog }

def finished (reading : Reading) : List Entry :=
  if reading.stage = .text then [reading.pending] else []

private theorem flush_onto (reading : Reading) (catalog : Catalog) :
    (reading.onto catalog).flush =
      reading.flush.onto (reading.finished.foldl insert catalog) := by
  unfold flush onto finished
  cases h : reading.stage <;> simp [h]

private theorem readMetadata_onto (reading : Reading) (catalog : Catalog) (text : List Char) :
    (reading.onto catalog).readMetadata text =
      (reading.readMetadata text).onto (reading.finished.foldl insert catalog) := by
  rw [readMetadata, flush_onto]
  rfl

private theorem readKey_onto (reading : Reading) (catalog : Catalog) (line : Nat) (text : List Char) :
    (reading.onto catalog).readKey line text =
      (reading.readKey line text).onto (reading.finished.foldl insert catalog) := by
  have flushed := flush_onto reading catalog
  unfold readKey
  cases h : reading.stage <;> cases unquote? text <;>
    simp_all [onto, finished, reject]

private theorem readText_onto (reading : Reading) (catalog : Catalog) (line : Nat)
    (text : List Char) :
    (reading.onto catalog).readText line text = (reading.readText line text).onto catalog := by
  unfold readText
  cases h : reading.stage <;> cases unquote? text <;> simp [onto, reject, h]

private theorem readContinuation_onto (reading : Reading) (catalog : Catalog) (line : Nat)
    (text : List Char) :
    (reading.onto catalog).readContinuation line text =
      (reading.readContinuation line text).onto catalog := by
  unfold readContinuation
  cases unquote? text <;> cases h : reading.stage <;> simp [onto, reject, h]

private theorem advance_onto (reading : Reading) (catalog : Catalog) (line : List Char) :
    (reading.onto catalog).advance line = (reading.advance line).onto
      ((if Begins line then reading.finished else []).foldl insert catalog) := by
  unfold advance readLine
  split
  · rename_i blank
    rw [if_neg (by simp [Begins, blank, keyWord])]
    rfl
  · rename_i rest marked
    have begins : Begins line := Or.inl ⟨rest, marked⟩
    rw [if_pos begins]
    exact congrArg silent (readMetadata_onto reading catalog rest)
  · rename_i quoted
    rw [if_neg (by simp [Begins, quoted, keyWord])]
    exact congrArg silent (readContinuation_onto reading catalog 1 _)
  · rename_i unmarked _
    split
    · rename_i rest keyed
      have begins : Begins line := Or.inr ⟨rest, Text.eq_append_of_dropStart? keyed⟩
      rw [if_pos begins]
      exact congrArg silent (readKey_onto reading catalog 1 rest)
    · rename_i unkeyed
      have other : ¬ Begins line := by
        rintro (⟨text, marked⟩ | ⟨text, keyed⟩)
        · exact unmarked text marked
        · simp [keyed] at unkeyed
      rw [if_neg other]
      split
      · rename_i rest _
        exact congrArg silent (readText_onto reading catalog 1 rest)
      · rfl

/-- The messages that are read to their ends from a reading on, in order. -/
def completed (reading : Reading) : List (List Char) → List Entry
  | [] => reading.finished
  | line :: rest =>
    (if Begins line then reading.finished else []) ++ (reading.advance line).completed rest

private theorem foldl_advance_onto (reading : Reading) (catalog : Catalog)
    (lines : List (List Char)) :
    (lines.foldl advance (reading.onto catalog)).flush.catalog =
      (reading.completed lines).foldl insert catalog := by
  induction lines generalizing reading catalog with
  | nil => exact congrArg Reading.catalog (flush_onto reading catalog)
  | cons line lines ih => rw [List.foldl_cons, advance_onto, ih, completed, List.foldl_append]

end Reading

def messages (lines : List (List Char)) : List Entry := (Reading.start (empty "")).completed lines

theorem foldl_advance_eq (lines : List (List Char)) (catalog : Catalog) :
    (lines.foldl Reading.advance (Reading.start catalog)).flush.catalog =
      (messages lines).foldl insert catalog :=
  Reading.foldl_advance_onto (Reading.start (empty "")) catalog lines

@[simp] theorem locale_parse (content locale : String) : (parse content locale).locale = locale := by
  rw [parse_eq_foldl, foldl_advance_eq, locale_foldl_insert]
  rfl

private theorem flush_flush (reading : Reading) : reading.flush.flush = reading.flush :=
  Reading.flush_of_stage (Reading.stage_flush reading)

theorem advance_flush {line : List Char} (begins : Begins line) (reading : Reading) :
    reading.flush.advance line = reading.advance line := by
  rcases begins with ⟨text, marked⟩ | ⟨text, marked⟩
  · rw [Reading.advance_metadata _ marked, Reading.advance_metadata _ marked, flush_flush]
  · rw [Reading.advance_keyWord _ marked, Reading.advance_keyWord _ marked]
    congr 1
    unfold Reading.readKey Reading.flush
    cases h : reading.stage <;> simp [h]

theorem foldl_advance_of_begins {lines : List (List Char)}
    (begins : ∀ line, lines.head? = some line → Begins line) {reading : Reading}
    (ready : reading.IsReady) (quiet : reading.skipped = []) :
    (lines.foldl Reading.advance reading).flush.catalog =
      (lines.foldl Reading.advance (Reading.start reading.flush.catalog)).flush.catalog := by
  have started : reading.flush = Reading.start reading.flush.catalog := by
    obtain ⟨catalog, stage, pending, skipped⟩ := reading
    obtain ⟨outside, fresh⟩ := ready
    cases stage with
    | outside => simp_all [Reading.flush, Reading.start]
    | key => exact absurd rfl outside
    | text => simp_all [Reading.flush, Reading.start]
  cases lines with
  | nil => rfl
  | cons line lines =>
    rw [List.foldl_cons, List.foldl_cons, ← started, advance_flush (begins line rfl)]

end Phrasebook.Catalog
