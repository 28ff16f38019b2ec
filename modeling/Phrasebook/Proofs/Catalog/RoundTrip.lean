import Phrasebook.Proofs.Catalog.Quoting
import Phrasebook.Proofs.Catalog.Reading
import Phrasebook.Proofs.Catalog.References

/-!
What is read back from a catalog that was written: the same keys, texts and flags, the lines of the
remarks one by one, and the places that the written references spell.
-/

set_option autoImplicit false

namespace Phrasebook

def Entry.reread (entry : Entry) : Entry :=
  { entry with
    occurrences :=
      ((entry.sortedOccurrences.flatMap fun occurrence =>
        Catalog.parseReferences occurrence.toChars).foldl Entry.addOccurrence
          (Entry.ofKey "")).occurrences
    comments := Entry.sortedDistinct
      ((entry.comments.flatMap fun remark => Text.lines remark.toList).map fun line =>
        String.ofList (Text.trim line)) }

@[simp] theorem Entry.key_reread (entry : Entry) : entry.reread.key = entry.key := rfl

@[simp] theorem Entry.localized_reread (entry : Entry) :
    entry.reread.localized = entry.localized := rfl

def Entry.PathsOnLines (entry : Entry) : Prop :=
  ∀ occurrence ∈ entry.occurrences, '\n' ∉ occurrence.path.toList

/-- What is left of an entry that was written, but for its places: the text, the flags, and the lines
of its remarks without blanks at their ends, sorted and distinct. -/
structure Entry.LivesOnIn (entry again : Entry) : Prop where
  localized : again.localized = entry.localized
  isFormat : again.isFormat = entry.isFormat
  isDocumentation : again.isDocumentation = entry.isDocumentation
  sorted : again.comments.Pairwise (· < ·)
  remarks : ∀ text, text ∈ again.comments ↔
    ∃ remark ∈ entry.comments, ∃ line ∈ Text.lines remark.toList, String.ofList (Text.trim line) = text

theorem Entry.livesOnIn_reread (entry : Entry) : entry.LivesOnIn entry.reread := by
  refine ⟨rfl, rfl, rfl, pairwise_sortedDistinct _, fun text => ?_⟩
  simp only [reread, mem_sortedDistinct, List.mem_map, List.mem_flatMap]
  constructor
  · rintro ⟨line, ⟨remark, known, within⟩, rfl⟩
    exact ⟨remark, known, line, within, rfl⟩
  · rintro ⟨remark, known, line, within, rfl⟩
    exact ⟨line, ⟨remark, known, within⟩, rfl⟩

namespace Catalog

open Text (IsLine IsTrimmed)

def blockLines (entry : Entry) : List (List Char) :=
  metadataLines entry ++ stringLines keyWord entry.key.toList ++
    stringLines textWord entry.localized.toList

private theorem trim_metadata (kind : Char) {text : List Char} (h : Text.isBlank kind = false)
    (last : ∀ c, text.getLast? = some c → Text.isBlank c = false) :
    Text.trim ('#' :: kind :: ' ' :: text) =
      '#' :: kind :: if text.isEmpty then [] else ' ' :: text := by
  have front : Text.trimStart ('#' :: kind :: ' ' :: text) = '#' :: kind :: ' ' :: text :=
    Text.trimStart_of_head (by simpa using (by decide : Text.isBlank '#' = false))
  rw [Text.trim, front]
  cases text with
  | nil => simp [Text.trimEnd, h, (by decide : Text.isBlank ' ' = true)]
  | cons c rest =>
    rw [Text.trimEnd_of_getLast (by simpa [List.getLast?_cons] using last)]
    rfl

private theorem isLine_metadata {kind : Char} {text : List Char} (h : kind ≠ '\n')
    (inside : '\n' ∉ text) (last : text.getLast? ≠ some '\r') :
    IsLine ('#' :: kind :: ' ' :: text) := by
  refine ⟨by simp [Ne.symm h, inside], ?_⟩
  cases text with
  | nil => simp
  | cons c rest => simpa [List.getLast?_cons] using last

private theorem splitAt_flagNames {entry : Entry} (flagged : flagNames entry ≠ []) :
    (Text.splitAt (· == ',') (' ' :: Text.joinWith [',', ' '] (flagNames entry))).map Text.trim =
      flagNames entry := by
  unfold flagNames at flagged ⊢
  cases hf : entry.isFormat <;> cases hd : entry.isDocumentation
  · simp [hf, hd] at flagged
  · rfl
  · rfl
  · rfl

private theorem getLast?_flagNames (entry : Entry) :
    ∀ c, (Text.joinWith [',', ' '] (flagNames entry)).getLast? = some c → Text.isBlank c = false := by
  unfold flagNames
  cases entry.isFormat <;> cases entry.isDocumentation <;> rintro c ⟨⟩ <;> decide

private theorem contains_flagNames (entry : Entry) :
    (flagNames entry).contains formatFlag = entry.isFormat ∧
      (flagNames entry).contains documentationFlag = entry.isDocumentation := by
  unfold flagNames
  cases entry.isFormat <;> cases entry.isDocumentation <;> decide

private theorem addFlags_flagNames {entry : Entry} (flagged : flagNames entry ≠ [])
    (grown : Entry) :
    addFlags grown (' ' :: Text.joinWith [',', ' '] (flagNames entry)) =
      { grown with
        isFormat := grown.isFormat || entry.isFormat
        isDocumentation := grown.isDocumentation || entry.isDocumentation } := by
  obtain ⟨format, documentation⟩ := contains_flagNames entry
  rw [addFlags, splitAt_flagNames flagged, format, documentation]

private def flagLines (entry : Entry) : List (List Char) :=
  if flagNames entry = [] then []
  else ["#, ".toList ++ Text.joinWith [',', ' '] (flagNames entry)]

private theorem metadataLines_eq (entry : Entry) :
    metadataLines entry =
      ((entry.comments.flatMap fun remark => Text.lines remark.toList).map fun line =>
        "#. ".toList ++ Text.trim line) ++
      (entry.sortedOccurrences.map fun occurrence => "#: ".toList ++ occurrence.toChars) ++
      flagLines entry := by
  unfold metadataLines flagLines
  cases flagNames entry <;> rfl

private theorem exists_of_mem_metadataLines {entry : Entry} {line : List Char}
    (h : line ∈ metadataLines entry) :
    ∃ kind text, line = '#' :: kind :: ' ' :: text ∧ Text.isBlank kind = false ∧
      (∀ c, text.getLast? = some c → Text.isBlank c = false) ∧
      (entry.PathsOnLines → '\n' ∉ text) := by
  simp only [metadataLines_eq, List.mem_append, List.mem_map] at h
  rcases h with (⟨remark, hr, rfl⟩ | ⟨occurrence, ho, rfl⟩) | hf
  · refine ⟨'.', Text.trim remark, rfl, by decide, (Text.isTrimmed_trim remark).2, fun _ hc => ?_⟩
    obtain ⟨text, _, member⟩ := List.mem_flatMap.mp hr
    exact Text.not_mem_of_mem_lines member (Text.mem_of_mem_trim hc)
  · refine ⟨':', occurrence.toChars, rfl, by decide, ?_, fun paths => ?_⟩
    · intro c hc
      obtain ⟨last, hl, solid⟩ := Occurrence.getLast?_toChars occurrence
      obtain rfl : last = c := Option.some.inj (hl.symm.trans hc)
      exact solid
    · have member := entry.sortedOccurrences_perm.mem_iff.mp ho
      exact Occurrence.lineFeed_not_mem_toChars (paths occurrence member)
  · by_cases flagged : flagNames entry = []
    · simp [flagLines, flagged] at hf
    · rw [flagLines, if_neg flagged, List.mem_singleton] at hf
      refine ⟨',', Text.joinWith [',', ' '] (flagNames entry), hf, by decide,
        getLast?_flagNames entry, fun _ => ?_⟩
      unfold flagNames
      cases entry.isFormat <;> cases entry.isDocumentation <;> decide

private theorem head?_trim_metadataLines {entry : Entry} {line : List Char}
    (h : line ∈ metadataLines entry) : (Text.trim line).head? = some '#' := by
  obtain ⟨kind, text, rfl, hk, last, -⟩ := exists_of_mem_metadataLines h
  rw [trim_metadata kind hk last]
  rfl

private theorem isLine_metadataLines {entry : Entry} (paths : entry.PathsOnLines)
    {line : List Char} (h : line ∈ metadataLines entry) : IsLine line := by
  obtain ⟨kind, text, rfl, hk, last, inside⟩ := exists_of_mem_metadataLines h
  refine isLine_metadata ?_ (inside paths) ?_
  · rintro rfl
    exact absurd hk (by decide)
  · intro hc
    exact absurd (last _ hc) (by decide)

private theorem foldl_tell_remarks (entry : Entry) (remarks : List (List Char))
    (sorted : entry.comments.Pairwise (· < ·)) :
    (remarks.map fun line => "#. ".toList ++ Text.trim line).foldl Reading.tell entry =
      { entry with
        comments := Entry.sortedDistinct
          (entry.comments ++ remarks.map fun line => String.ofList (Text.trim line)) } := by
  have told : ∀ (grown : Entry) (line : List Char),
      Reading.tell grown ("#. ".toList ++ Text.trim line) =
        grown.addComments [String.ofList (Text.trim line)] := by
    intro grown line
    have text := trim_metadata '.' (by decide) (Text.isTrimmed_trim line).2
    have read : Reading.tell grown ("#. ".toList ++ Text.trim line) =
        addMetadata grown (Text.trim ('#' :: '.' :: ' ' :: Text.trim line)).tail := rfl
    rw [read, text]
    cases h : Text.trim line with
    | nil => rfl
    | cons c rest =>
      have again : Text.trim (' ' :: c :: rest) = c :: rest := by
        rw [Text.trim_cons_of_isBlank (by decide), ← h, Text.trim_trim]
      simp [addMetadata, again]
  have step : (fun grown line => Reading.tell grown ("#. ".toList ++ Text.trim line)) =
      fun grown line => grown.addComments [String.ofList (Text.trim line)] := by
    funext grown line
    exact told grown line
  rw [List.foldl_map, step, ← Entry.foldl_addComments entry _ sorted, List.foldl_map]

private theorem foldl_tell_places {entry : Entry} (bare : entry.occurrences = [])
    (places : List Occurrence) :
    (places.map fun occurrence => "#: ".toList ++ occurrence.toChars).foldl Reading.tell entry =
      { entry with
        occurrences := ((places.flatMap fun occurrence =>
          parseReferences occurrence.toChars).foldl Entry.addOccurrence
            (Entry.ofKey "")).occurrences } := by
  have told : ∀ (grown : Entry) (occurrence : Occurrence),
      Reading.tell grown ("#: ".toList ++ occurrence.toChars) =
        (parseReferences occurrence.toChars).foldl Entry.addOccurrence grown := by
    intro grown occurrence
    obtain ⟨last, hl, solid⟩ := Occurrence.getLast?_toChars occurrence
    have full : occurrence.toChars ≠ [] := by
      intro h
      simp [h] at hl
    have ending : ∀ c, occurrence.toChars.getLast? = some c → Text.isBlank c = false := by
      simp [hl, solid]
    have text := trim_metadata ':' (by decide) ending
    have read : Reading.tell grown ("#: ".toList ++ occurrence.toChars) =
        addMetadata grown (Text.trim ('#' :: ':' :: ' ' :: occurrence.toChars)).tail := rfl
    rw [read, text]
    have words : Text.words (' ' :: occurrence.toChars) = Text.words occurrence.toChars :=
      Text.words_cons_of_isBlank (by decide)
    simp [full, addMetadata, parseReferences, words]
  have step : (fun grown (occurrence : Occurrence) =>
        Reading.tell grown ("#: ".toList ++ occurrence.toChars)) =
      fun grown occurrence =>
        (parseReferences occurrence.toChars).foldl Entry.addOccurrence grown := by
    funext grown occurrence
    exact told grown occurrence
  rw [List.foldl_map, step, ← List.foldl_flatMap]
  exact Entry.foldl_addOccurrence_congr bare _

private theorem foldl_tell_flags (entry grown : Entry) :
    (flagLines entry).foldl Reading.tell grown =
      { grown with
        isFormat := grown.isFormat || entry.isFormat
        isDocumentation := grown.isDocumentation || entry.isDocumentation } := by
  obtain ⟨format, documentation⟩ := contains_flagNames entry
  by_cases flagged : flagNames entry = []
  · rw [flagged] at format documentation
    simp [flagLines, flagged, ← format, ← documentation]
  · have full : (Text.joinWith [',', ' '] (flagNames entry)).isEmpty = false := by
      unfold flagNames at flagged ⊢
      cases hf : entry.isFormat <;> cases hd : entry.isDocumentation
      · simp [hf, hd] at flagged
      · rfl
      · rfl
      · rfl
    have text := trim_metadata ',' (by decide) (getLast?_flagNames entry)
    have read : Reading.tell grown ("#, ".toList ++ Text.joinWith [',', ' '] (flagNames entry)) =
        addMetadata grown
          (Text.trim ('#' :: ',' :: ' ' :: Text.joinWith [',', ' '] (flagNames entry))).tail := rfl
    rw [flagLines, if_neg flagged, List.foldl_cons, List.foldl_nil, read, text, full]
    exact addFlags_flagNames flagged grown

private theorem foldl_tell_metadataLines (entry : Entry) :
    (metadataLines entry).foldl Reading.tell (Entry.ofKey "") =
      { entry.reread with key := "", localized := "" } := by
  rw [metadataLines_eq, List.foldl_append, List.foldl_append,
    foldl_tell_remarks (Entry.ofKey "") _ List.Pairwise.nil, foldl_tell_places rfl,
    foldl_tell_flags]
  simp [Entry.reread, Entry.ofKey]

private theorem isLine_blockLines {entry : Entry} (paths : entry.PathsOnLines) {line : List Char}
    (h : line ∈ blockLines entry) : IsLine line := by
  simp only [blockLines, List.mem_append] at h
  rcases h with (h | h) | h
  · exact isLine_metadataLines paths h
  · exact isLine_stringLines (by decide) _ h
  · exact isLine_stringLines (by decide) _ h

private theorem foldl_advance_block (entry : Entry) {reading : Reading} (ready : reading.IsReady) :
    (blockLines entry).foldl Reading.advance reading =
      { catalog := reading.flush.catalog, stage := .text, pending := entry.reread } := by
  have marked : ∀ line ∈ metadataLines entry, (Text.trim line).head? = some '#' := fun line =>
    head?_trim_metadataLines
  rw [blockLines, stringLines_eq, stringLines_eq, Reading.foldl_advance_message ready marked,
    foldl_tell_metadataLines, stringPieces_flatten, stringPieces_flatten, String.ofList_toList,
    String.ofList_toList]
  rfl

private theorem isReady_advance_blank (reading : Reading) (ready : reading.IsReady) :
    (reading.advance []).IsReady ∧ (reading.advance []).flush.catalog = reading.flush.catalog := by
  rw [Reading.advance_blank reading Text.trim_nil]
  exact ⟨⟨ready.stage, by
    rw [← Reading.silent_flush]
    exact ready.fresh⟩, by rw [← Reading.silent_flush]; rfl⟩

private theorem renderEntry_eq (entry : Entry) :
    renderEntry entry = (blockLines entry).flatMap fun line => line ++ ['\n'] := rfl

private theorem foldl_advance_blocks {entries : List Entry}
    (paths : ∀ entry ∈ entries, entry.PathsOnLines) {reading : Reading} (ready : reading.IsReady) :
    ((Text.lines (Text.joinWith ['\n'] (entries.map renderEntry))).foldl Reading.advance
      reading).flush.catalog = (entries.map Entry.reread).foldl insert reading.flush.catalog := by
  induction entries generalizing reading with
  | nil => rfl
  | cons entry entries ih =>
    have lines : ∀ line ∈ blockLines entry, IsLine line := fun line =>
      isLine_blockLines (paths entry (by simp))
    have after : ((blockLines entry).foldl Reading.advance reading).IsReady := by
      rw [foldl_advance_block entry ready]
      exact ⟨by simp, rfl⟩
    have stored : ((blockLines entry).foldl Reading.advance reading).flush.catalog =
        reading.flush.catalog.insert entry.reread := by
      rw [foldl_advance_block entry ready]
      rfl
    cases entries with
    | nil =>
      have alone := Text.lines_flatMap_append lines []
      rw [List.append_nil] at alone
      rw [List.map_singleton, Text.joinWith_singleton, renderEntry_eq, alone]
      simpa [Text.lines, Text.splitLines, Text.splitAt, Text.lines.finish] using stored
    | cons next others =>
      obtain ⟨again, kept⟩ := isReady_advance_blank _ after
      have below := ih (fun other ho => paths other (by simp [ho])) again
      rw [List.map_cons, Text.joinWith_cons (by simp), renderEntry_eq, List.append_assoc,
        Text.lines_flatMap_append lines, List.singleton_append, ← List.nil_append ('\n' :: _),
        Text.lines_append_cons Text.isLine_nil, List.foldl_append, List.foldl_cons, below, kept,
        stored]
      rfl

/-- What is read back from a catalog that was written. -/
theorem parse_render {catalog : Catalog} (sound : catalog.IsSound)
    (paths : ∀ entry ∈ catalog.entries, entry.PathsOnLines) (locale : String) :
    parse catalog.render locale = { locale, entries := catalog.sorted.map Entry.reread } := by
  have ready : (Reading.start (empty locale)).IsReady := ⟨by simp [Reading.start], rfl⟩
  have within : ∀ entry ∈ catalog.sorted, entry ∈ catalog.entries := fun entry =>
    catalog.sorted_perm.mem_iff.mp
  have read := foldl_advance_blocks (fun entry he => paths entry (within entry he)) ready
  have distinct : ((catalog.sorted.map Entry.reread).map Entry.key).Nodup := by
    have same : (catalog.sorted.map Entry.key).Perm catalog.keys := catalog.sorted_perm.map _
    simpa [Function.comp_def] using same.nodup_iff.mpr sound.distinct
  have named : ∀ entry ∈ catalog.sorted.map Entry.reread, entry.key ≠ "" := by
    intro entry he
    obtain ⟨other, ho, rfl⟩ := List.mem_map.mp he
    exact sound.named other (within other ho)
  have stored : (catalog.sorted.map Entry.reread).foldl insert (empty locale) =
      { locale, entries := catalog.sorted.map Entry.reread } := foldl_insert named distinct
  rw [parse_eq_foldl, render, String.toList_ofList, renderChars, read]
  exact stored

theorem perm_parse_render {catalog : Catalog} (sound : catalog.IsSound)
    (paths : ∀ entry ∈ catalog.entries, entry.PathsOnLines) (locale : String) :
    (parse catalog.render locale).entries.Perm (catalog.entries.map Entry.reread) := by
  rw [parse_render sound paths]
  exact catalog.sorted_perm.map Entry.reread

theorem get?_parse_render {catalog : Catalog} (sound : catalog.IsSound)
    (paths : ∀ entry ∈ catalog.entries, entry.PathsOnLines) (locale key : String) :
    (parse catalog.render locale).get? key = (catalog.get? key).map Entry.reread :=
  get?_of_perm_map sound Entry.key_reread (perm_parse_render sound paths locale) key

/-- No remark, place or string of an entry is read as anything else, whatever it holds: what is read
back has the same keys, and each entry lives on under its key. -/
theorem livesOn_parse_render {catalog : Catalog} (sound : catalog.IsSound)
    (paths : ∀ entry ∈ catalog.entries, entry.PathsOnLines) (locale : String) :
    let again := parse catalog.render locale
    again.keys.Perm catalog.keys ∧ ∀ key entry, catalog.get? key = some entry →
      ∃ other, again.get? key = some other ∧ other.key = key ∧ entry.LivesOnIn other := by
  intro again
  have whole : again = { locale, entries := catalog.sorted.map Entry.reread } :=
    parse_render sound paths locale
  have perm : again.entries.Perm (catalog.entries.map Entry.reread) := by
    rw [whole]
    exact catalog.sorted_perm.map Entry.reread
  refine ⟨?_, fun key entry found => ?_⟩
  · have keys := perm.map Entry.key
    rw [List.map_map] at keys
    exact keys
  · have same := get?_of_perm_map sound Entry.key_reread perm key
    rw [found] at same
    exact ⟨entry.reread, same, (key_of_get? found).2, entry.livesOnIn_reread⟩

private def forged : Catalog where
  locale := "fr"
  entries := [
    { key := "Hi", occurrences := [⟨"x.ts", 1⟩], comments := ["first\nmsgstr \"evil\""] },
    { key := "Bye", localized := "#. Adieu\n\"\nmsgid \"Hi\"", isFormat := true }]

theorem livesOn_parse_render_forged :
    let again := parse forged.render "fr"
    again.keys.Perm ["Hi", "Bye"] ∧ ∀ key entry, forged.get? key = some entry →
      ∃ other, again.get? key = some other ∧ other.key = key ∧ entry.LivesOnIn other := by
  have sound : forged.IsSound := ⟨by decide, by decide⟩
  have paths : ∀ entry ∈ forged.entries, entry.PathsOnLines := by
    simp [forged, Entry.PathsOnLines]
  exact livesOn_parse_render sound paths "fr"

end Catalog

end Phrasebook
