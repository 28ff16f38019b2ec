import Phrasebook.Proofs.Catalog.Built
import Phrasebook.Proofs.Extraction.Routing

/-!
Catalogs of messages that are found. Their comments are in the form that a file holds exactly, so they are
read back as they were written.
-/

set_option autoImplicit false

namespace Phrasebook.Extraction

open Catalog (parse record_of_ne_empty key_of_get? mem_insert)

def useAt (message : Script.Message) (occurrence : Occurrence) : Catalog.Use where
  key := message.literal
  comments := message.comments
  occurrence
  isFormat := message.isFormat
  isDocumentation := message.isDocumentation

/-- A catalog of messages that are found: each is recorded at an occurrence on one line, and the whole may be
merged into any other catalog. -/
inductive IsGathered : Catalog → Prop
  | empty (locale : String) : IsGathered (.empty locale)
  | record {catalog : Catalog} (gathered : IsGathered catalog) {message : Script.Message}
    (found : Script.IsFound message) {occurrence : Occurrence}
    (path : '\n' ∉ occurrence.path.toList) : IsGathered (catalog.record (useAt message occurrence))
  | merge (existing : Catalog) {fresh : Catalog} (gathered : IsGathered fresh) :
    IsGathered (existing.merge fresh)

structure FitsLines (entry : Entry) : Prop where
  paths : entry.PathsOnLines
  remarks : ∀ remark ∈ entry.comments, Script.IsRemark remark

theorem fitsLines_ofKey (key : String) : FitsLines (.ofKey key) :=
  ⟨fun _ member => absurd member List.not_mem_nil, fun _ member => absurd member List.not_mem_nil⟩

theorem FitsLines.addTo {entry : Entry} (fits : FitsLines entry) {message : Script.Message}
    (found : Script.IsFound message) {occurrence : Occurrence}
    (path : '\n' ∉ occurrence.path.toList) : FitsLines ((useAt message occurrence).addTo entry) := by
  constructor
  · intro other member
    rw [Catalog.Use.occurrences_addTo, Entry.mem_addOccurrence] at member
    rcases member with member | rfl
    · exact fits.paths other member
    · exact path
  · intro remark member
    rw [Catalog.Use.comments_addTo, Entry.mem_sortedDistinct, List.mem_append] at member
    rcases member with member | member
    · exact fits.remarks remark member
    · exact found.isNormal.remarks remark member

theorem IsGathered.isTidy {catalog : Catalog} (gathered : IsGathered catalog) : catalog.IsTidy := by
  induction gathered with
  | empty locale => exact Catalog.isTidy_empty locale
  | record _ _ _ ih => exact ih.record _
  | merge existing _ ih => exact ih.merge existing

theorem IsGathered.fitsLines {catalog : Catalog} (gathered : IsGathered catalog) :
    ∀ entry ∈ catalog.entries, FitsLines entry := by
  induction gathered with
  | empty locale => exact fun _ member => absurd member List.not_mem_nil
  | @record catalog _ message found occurrence path ih =>
    intro entry member
    rcases mem_insert member with rfl | member
    · refine FitsLines.addTo ?_ found path
      cases known : catalog.get? (useAt message occurrence).key with
      | none => exact fitsLines_ofKey _
      | some entry => exact ih entry (key_of_get? known).1
    · exact ih entry member
  | merge existing _ ih =>
    intro entry member
    obtain ⟨other, inside, rfl⟩ := List.mem_map.mp member
    exact ⟨(ih other inside).paths, (ih other inside).remarks⟩

private theorem isGathered_foldl_record {catalog : Catalog} (gathered : IsGathered catalog)
    {uses : List Catalog.Use} (found : ∀ use ∈ uses, ∃ message occurrence, Script.IsFound message ∧
      '\n' ∉ occurrence.path.toList ∧ useAt message occurrence = use) :
    IsGathered (uses.foldl Catalog.record catalog) := by
  induction uses generalizing catalog with
  | nil => exact gathered
  | cons use uses ih =>
    obtain ⟨message, occurrence, member, path, rfl⟩ := found use List.mem_cons_self
    exact ih (gathered.record member path) fun other inside => found other (List.mem_cons_of_mem _ inside)

theorem isGathered_freshCatalog {tree : FileTree} {options : Options} {files : List String}
    (lines : ∀ file ∈ files, '\n' ∉ ((Path.fileName? file).getD file).toList) (directory : String) :
    IsGathered (freshCatalog directory (outcomes tree options files)) := by
  have start : ({} : Catalog) = .empty "" := rfl
  rw [freshCatalog, start]
  refine isGathered_foldl_record (.empty "") fun use member => ?_
  obtain ⟨outcome, inside, scan, searched, -, message, held, same⟩ := mem_usesIn.mp member
  obtain ⟨known, -, ran⟩ := mem_outcomes.mp inside
  have found := isFound_of_scanFile (ran.trans searched) held
  exact ⟨message, (useOf outcome.file message).occurrence, found, lines outcome.file known, same⟩

theorem comments_reread {entry : Entry} (sorted : entry.comments.Pairwise (· < ·))
    (remarks : ∀ remark ∈ entry.comments, Script.IsRemark remark) :
    entry.reread.comments = entry.comments := by
  have lines : entry.comments.flatMap (fun remark => Text.lines remark.toList) =
      entry.comments.map String.toList := by
    rw [← List.flatMap_pure_eq_map]
    refine List.flatMap_congr fun remark member => ?_
    have filled : remark.toList ≠ [] := by simpa using (remarks remark member).filled
    rw [Text.lines_of_not_mem (remarks remark member).lineFeed_not_mem, List.isEmpty_eq_false_iff.mpr filled]
    rfl
  have texts : (entry.comments.map String.toList).map (fun line => String.ofList (Text.trim line)) =
      entry.comments := by
    rw [List.map_map]
    refine (List.map_congr_left fun remark member => ?_).trans (List.map_id _)
    rw [Function.comp_apply, Text.trim_of_isTrimmed (remarks remark member).trimmed,
      String.ofList_toList]
    rfl
  simp only [Entry.reread]
  rw [lines, texts, Entry.sortedDistinct_of_pairwise sorted]

/-- Every message that is found is in normal form and is recorded wherever it occurs. The comments of a
catalog of such messages are read back from its file just as they are in the catalog, and what an extraction
gathers for a directory is such a catalog. -/
theorem normalForm_of_found :
    (∀ message, Script.IsFound message → message.IsNormal ∧
      ∀ (catalog : Catalog) (occurrence : Occurrence),
        (catalog.record (useAt message occurrence)).get? message.literal =
          some ((useAt message occurrence).addTo
            ((catalog.get? message.literal).getD (Entry.ofKey message.literal)))) ∧
    (∀ catalog, IsGathered catalog → ∀ locale key,
      ((parse catalog.render locale).get? key).map Entry.comments =
        (catalog.get? key).map Entry.comments) ∧
    ∀ (tree : FileTree) (options : Options) (files : List String),
      (∀ file ∈ files, '\n' ∉ ((Path.fileName? file).getD file).toList) → ∀ directory,
        IsGathered (freshCatalog directory (outcomes tree options files)) := by
  refine ⟨?_, ?_, fun _ _ _ lines => isGathered_freshCatalog lines⟩
  · intro message found
    refine ⟨found.isNormal, fun catalog occurrence => ?_⟩
    have named : (useAt message occurrence).key ≠ "" := found.isNormal.filled
    rw [record_of_ne_empty named]
    exact if_pos rfl
  · intro catalog gathered locale key
    have sound := gathered.isTidy.sound
    have paths : ∀ entry ∈ catalog.entries, entry.PathsOnLines := fun entry member =>
      (gathered.fitsLines entry member).paths
    rw [Catalog.get?_parse_render sound paths, Option.map_map]
    cases known : catalog.get? key with
    | none => rfl
    | some entry =>
      have member := (key_of_get? known).1
      exact congrArg some (comments_reread (gathered.isTidy.entries entry member).sorted
        (gathered.fitsLines entry member).remarks)

private def annotated : Script.Message := ⟨"Hi", 1, ["a b c"], false, false⟩

private theorem isFound_annotated : Script.IsFound annotated :=
  let source := "_(\"Hi\"); /* a  b\n\tc */".toList.toArray
  let comment := ⟨⟨9, 22⟩, true, true, " a  b\n\tc ".toList⟩
  let call := .call ⟨0, 7⟩ (.name "_") [.text (some "Hi") 2]
  .intro "app.ts" source [comment] {} (.group .statement [call]) (by decide +kernel)

theorem normalForm_of_found_annotated :
    let catalog := (Catalog.empty "fr").record (useAt annotated ⟨"app.ts", 1⟩)
    Script.IsFound annotated ∧ IsGathered catalog ∧ annotated.IsNormal ∧
      ((parse catalog.render "fr").get? "Hi").map Entry.comments = some ["a b c"] := by
  intro catalog
  have gathered : IsGathered catalog := (IsGathered.empty "fr").record isFound_annotated (by decide)
  refine ⟨isFound_annotated, gathered, (normalForm_of_found.1 annotated isFound_annotated).1, ?_⟩
  exact (normalForm_of_found.2.1 catalog gathered "fr" "Hi").trans (by decide +kernel)

end Phrasebook.Extraction
