import Phrasebook.Proofs.Catalog.RoundTrip

/-!
Catalogs that were read from a text are in normal form but for the order of their parts: writing one
and reading it back changes nothing else, and writing it once more gives the same text.
-/

set_option autoImplicit false

namespace Phrasebook

namespace Entry

/-- What reading puts in an entry: remarks of one line each, trimmed, sorted and distinct, and
distinct occurrences that were all spelled by words of one line. -/
structure IsRead (entry : Entry) : Prop where
  remarks : ∀ remark ∈ entry.comments, Text.IsTrimmed remark.toList ∧ '\n' ∉ remark.toList
  sorted : entry.comments.Pairwise (· < ·)
  distinct : entry.occurrences.Nodup
  spelled : ∀ occurrence ∈ entry.occurrences, ∃ found, Catalog.Spells found occurrence

/-- An entry with its occurrences in order and without an empty remark. -/
def settled (entry : Entry) : Entry :=
  { entry with
    occurrences := entry.sortedOccurrences
    comments := entry.comments.filter (!·.isEmpty) }

@[simp] theorem key_settled (entry : Entry) : entry.settled.key = entry.key := rfl

theorem IsRead.paths {entry : Entry} (read : entry.IsRead) : entry.PathsOnLines := by
  intro occurrence ho
  obtain ⟨found, spells⟩ := read.spelled occurrence ho
  exact spells.lineFeed_not_mem

theorem isRead_ofKey (key : String) : (ofKey key).IsRead :=
  ⟨by simp [ofKey], List.Pairwise.nil, List.nodup_nil, by simp [ofKey]⟩

private theorem isRead_addOccurrence {entry : Entry} (read : entry.IsRead)
    {occurrence : Occurrence} (spelled : ∃ found, Catalog.Spells found occurrence) :
    (entry.addOccurrence occurrence).IsRead := by
  have distinct := nodup_addOccurrence read.distinct occurrence
  have members : ∀ other ∈ (entry.addOccurrence occurrence).occurrences,
      ∃ found, Catalog.Spells found other := by
    intro other ho
    rcases mem_addOccurrence.mp ho with ho | rfl
    · exact read.spelled other ho
    · exact spelled
  rw [addOccurrence_eq]
  exact ⟨read.remarks, read.sorted, distinct, members⟩

private theorem isRead_foldl_addOccurrence {entry : Entry} (read : entry.IsRead)
    {added : List Occurrence} (spelled : ∀ occurrence ∈ added, ∃ found, Catalog.Spells found occurrence) :
    (added.foldl addOccurrence entry).IsRead := by
  induction added generalizing entry with
  | nil => exact read
  | cons occurrence added ih =>
    exact ih (isRead_addOccurrence read (spelled occurrence (by simp)))
      fun other ho => spelled other (by simp [ho])

private theorem isRead_addComments {entry : Entry} (read : entry.IsRead) {text : List Char}
    (trimmed : Text.IsTrimmed text) (line : '\n' ∉ text) :
    (entry.addComments [String.ofList text]).IsRead := by
  refine ⟨?_, pairwise_sortedDistinct _, read.distinct, read.spelled⟩
  intro remark hr
  rcases List.mem_append.mp (mem_sortedDistinct.mp hr) with hr | hr
  · exact read.remarks remark hr
  · rw [List.mem_singleton.mp hr, String.toList_ofList]
    exact ⟨trimmed, line⟩

theorem isRead_addMetadata {entry : Entry} (read : entry.IsRead) {text : List Char}
    (line : '\n' ∉ text) : (Catalog.addMetadata entry text).IsRead := by
  unfold Catalog.addMetadata
  split
  · rename_i rest
    refine isRead_foldl_addOccurrence read fun occurrence ho => ?_
    obtain ⟨found, spells, -⟩ := Catalog.exists_spells_of_mem ho
    exact ⟨found, spells⟩
  · rename_i rest
    refine isRead_addComments read (Text.isTrimmed_trim rest) fun hc => ?_
    exact line (List.mem_cons_of_mem _ (Text.mem_of_mem_trim hc))
  · exact ⟨read.remarks, read.sorted, read.distinct, read.spelled⟩
  · exact read

private theorem flatMap_parseReferences {places : List Occurrence}
    (spelled : ∀ occurrence ∈ places, ∃ found, Catalog.Spells found occurrence) :
    (places.flatMap fun occurrence => Catalog.parseReferences occurrence.toChars) = places := by
  induction places with
  | nil => rfl
  | cons occurrence places ih =>
    obtain ⟨found, spells⟩ := spelled occurrence (by simp)
    rw [List.flatMap_cons, Catalog.parseReferences_toChars spells,
      ih fun other ho => spelled other (by simp [ho]), List.singleton_append]

private theorem map_trim_lines {remarks : List String}
    (h : ∀ remark ∈ remarks, Text.IsTrimmed remark.toList ∧ '\n' ∉ remark.toList) :
    ((remarks.flatMap fun remark => Text.lines remark.toList).map fun line =>
      String.ofList (Text.trim line)) = remarks.filter (!·.isEmpty) := by
  induction remarks with
  | nil => rfl
  | cons remark remarks ih =>
    obtain ⟨trimmed, line⟩ := h remark (by simp)
    rw [List.flatMap_cons, List.map_append, ih fun other ho => h other (by simp [ho]),
      Text.lines_of_not_mem line, List.filter_cons]
    by_cases empty : remark = ""
    · simp [empty]
    · have full : remark.toList.isEmpty = false := by
        simpa using empty
      simp [full, empty, Text.trim_of_isTrimmed trimmed]

/-- An entry that was read once is read back as it is, with its parts in order. -/
theorem IsRead.reread_eq {entry : Entry} (read : entry.IsRead) : entry.reread = entry.settled := by
  have places : ∀ occurrence ∈ entry.sortedOccurrences,
      ∃ found, Catalog.Spells found occurrence := fun occurrence ho =>
    read.spelled occurrence (entry.sortedOccurrences_perm.mem_iff.mp ho)
  have distinct : ((ofKey "").occurrences ++ entry.sortedOccurrences).Nodup :=
    entry.sortedOccurrences_perm.nodup_iff.mpr read.distinct
  have sorted : (entry.comments.filter (!·.isEmpty)).Pairwise (· < ·) :=
    read.sorted.sublist List.filter_sublist
  rw [reread, flatMap_parseReferences places, foldl_addOccurrence distinct,
    map_trim_lines read.remarks, sortedDistinct_of_pairwise sorted]
  rfl

end Entry

namespace Catalog

structure Reading.IsRead (reading : Reading) : Prop where
  sound : reading.catalog.IsSound
  entries : ∀ entry ∈ reading.catalog.entries, entry.IsRead
  pending : reading.pending.IsRead

namespace Reading

private theorem isRead_flush {reading : Reading} (read : reading.IsRead) : reading.flush.IsRead := by
  unfold flush
  split
  · refine ⟨read.sound.insert reading.pending, ?_, Entry.isRead_ofKey ""⟩
    intro entry he
    rcases mem_insert he with rfl | he
    · exact read.pending
    · exact read.entries entry he
  · exact read

private theorem isRead_strings {entry : Entry} (read : entry.IsRead) (key localized : String) :
    ({ entry with key, localized } : Entry).IsRead :=
  ⟨read.remarks, read.sorted, read.distinct, read.spelled⟩

private theorem isRead_readKey {reading : Reading} (read : reading.IsRead) (number : Nat)
    (text : List Char) : (reading.readKey number text).IsRead := by
  have fresh := Entry.isRead_ofKey ""
  have flushed := isRead_flush read
  unfold readKey
  cases reading.stage <;> cases unquote? text <;>
    first
      | exact ⟨read.sound, read.entries, fresh⟩
      | exact ⟨flushed.sound, flushed.entries, fresh⟩
      | exact ⟨read.sound, read.entries, isRead_strings fresh _ _⟩
      | exact ⟨flushed.sound, flushed.entries, isRead_strings flushed.pending _ _⟩

private theorem isRead_readText {reading : Reading} (read : reading.IsRead) (number : Nat)
    (text : List Char) : (reading.readText number text).IsRead := by
  unfold readText
  split
  · split
    · exact ⟨read.sound, read.entries, isRead_strings read.pending _ _⟩
    · exact ⟨read.sound, read.entries, read.pending⟩
  · exact ⟨read.sound, read.entries, read.pending⟩

private theorem isRead_readContinuation {reading : Reading} (read : reading.IsRead) (number : Nat)
    (text : List Char) : (reading.readContinuation number text).IsRead := by
  unfold readContinuation
  split
  · exact ⟨read.sound, read.entries, read.pending⟩
  · split
    · exact ⟨read.sound, read.entries, isRead_strings read.pending _ _⟩
    · exact ⟨read.sound, read.entries, isRead_strings read.pending _ _⟩
    · exact ⟨read.sound, read.entries, read.pending⟩

private theorem isRead_readLine {reading : Reading} (read : reading.IsRead) (number : Nat)
    {text : List Char} (line : '\n' ∉ text) : (reading.readLine number text).IsRead := by
  unfold readLine
  split
  · exact read
  · rename_i rest
    have flushed := isRead_flush read
    have inside : '\n' ∉ rest := fun hc => line (List.mem_cons_of_mem _ hc)
    exact ⟨flushed.sound, flushed.entries, Entry.isRead_addMetadata flushed.pending inside⟩
  · exact isRead_readContinuation read number _
  · split
    · exact isRead_readKey read number _
    · split
      · exact isRead_readText read number _
      · exact ⟨read.sound, read.entries, read.pending⟩

private theorem isRead_foldl_advance {reading : Reading} (read : reading.IsRead)
    {lines : List (List Char)} (h : ∀ line ∈ lines, '\n' ∉ line) :
    (lines.foldl advance reading).IsRead := by
  induction lines generalizing reading with
  | nil => exact read
  | cons line lines ih =>
    have trimmed : '\n' ∉ Text.trim line := fun hc =>
      h line (by simp) (Text.mem_of_mem_trim hc)
    obtain ⟨sound, entries, pending⟩ := isRead_readLine read 1 trimmed
    exact ih ⟨sound, entries, pending⟩ fun other ho => h other (by simp [ho])

end Reading

/-- What a text spells is a catalog with entries as reading makes them, whatever the text. -/
theorem parse_isRead (content locale : String) :
    (parse content locale).IsSound ∧ ∀ entry ∈ (parse content locale).entries, entry.IsRead := by
  have start : (Reading.start (empty locale)).IsRead :=
    ⟨isSound_empty locale, by simp [Reading.start, empty], Entry.isRead_ofKey ""⟩
  have lines : ∀ line ∈ Text.lines content.toList, '\n' ∉ line := fun line =>
    Text.not_mem_of_mem_lines
  have read := Reading.isRead_flush (Reading.isRead_foldl_advance start lines)
  rw [parse_eq_foldl]
  exact ⟨read.sound, read.entries⟩

theorem parse_isSound (content locale : String) : (parse content locale).IsSound :=
  (parse_isRead content locale).1

theorem get?_parse_empty (content locale : String) : (parse content locale).get? "" = none := by
  rw [get?_eq_none_iff, keys, List.mem_map]
  rintro ⟨other, member, blank⟩
  exact (parse_isSound content locale).named other member blank

@[simp] theorem renderEntry_settled (entry : Entry) :
    renderEntry entry.settled = renderEntry entry := by
  have blank : ∀ remarks : List String,
      ((remarks.filter (!·.isEmpty)).flatMap fun remark => Text.lines remark.toList) =
        remarks.flatMap fun remark => Text.lines remark.toList := by
    intro remarks
    induction remarks with
    | nil => rfl
    | cons remark remarks ih =>
      by_cases empty : remark = ""
      · simpa [empty, Text.lines, Text.splitLines, Text.splitAt, Text.lines.finish] using ih
      · simp [empty, ih]
  rw [← renderEntry_ordered entry]
  simp only [renderEntry, metadataLines, Entry.settled, Entry.ordered, blank]
  rfl

private theorem parse_render_of_isRead {catalog : Catalog} (sound : catalog.IsSound)
    (read : ∀ entry ∈ catalog.entries, entry.IsRead) (locale : String) :
    parse catalog.render locale = { locale, entries := catalog.sorted.map Entry.settled } := by
  have same : catalog.sorted.map Entry.reread = catalog.sorted.map Entry.settled := by
    refine List.map_congr_left fun entry he => ?_
    exact (read entry (catalog.sorted_perm.mem_iff.mp he)).reread_eq
  rw [parse_render sound (fun entry he => (read entry he).paths), same]

private theorem sorted_map_settled (catalog : Catalog) (locale : String) :
    ({ locale, entries := catalog.sorted.map Entry.settled } : Catalog).sorted =
      catalog.sorted.map Entry.settled := by
  refine List.mergeSort_of_pairwise (List.pairwise_map.mpr ?_)
  refine catalog.pairwise_sorted.imp fun {a b} h => ?_
  have place : ∀ entry : Entry, entry.settled.place = entry.place := fun entry =>
    Entry.place_congr rfl entry.sortedOccurrences_ordered
  rw [Entry.atMost_iff, place, place]
  exact h

/-- Loading and saving is a normal form. What is read back from a catalog that was read before has the
same keys, each with the same text, flags, occurrences and remarks, but for the order of occurrences
and for an empty remark. Written once more, it is the same text. -/
theorem parse_render_parse (content locale : String) :
    let catalog := parse content locale
    let again := parse catalog.render locale
    again.keys.Perm catalog.keys ∧
      (∀ key, again.get? key = (catalog.get? key).map Entry.settled) ∧
      again.render = catalog.render := by
  intro catalog again
  obtain ⟨sound, read⟩ := parse_isRead content locale
  have whole : again = { locale, entries := catalog.sorted.map Entry.settled } :=
    parse_render_of_isRead sound read locale
  have perm : again.entries.Perm (catalog.entries.map Entry.settled) := by
    rw [whole]
    exact catalog.sorted_perm.map Entry.settled
  refine ⟨?_, get?_of_perm_map sound Entry.key_settled perm, ?_⟩
  · have keys := perm.map Entry.key
    rw [List.map_map] at keys
    exact keys
  · have blocks : again.sorted.map renderEntry = catalog.sorted.map renderEntry := by
      rw [whole, sorted_map_settled, List.map_map]
      exact List.map_congr_left fun entry _ => renderEntry_settled entry
    rw [render, render, renderChars, renderChars, blocks]

end Catalog

end Phrasebook
