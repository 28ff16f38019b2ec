import Phrasebook.Proofs.Catalog.Ends
import Phrasebook.Proofs.Catalog.NormalForm

/-!
Text that is appended to a written catalog. If its first line that is not blank is metadata or a key, it
is read as it is on its own, and what it says of a key takes the place of what the catalog says of it.
-/

set_option autoImplicit false

namespace Phrasebook.Catalog

open Text (solidLines)

theorem parse_eq_foldl_messages (content locale : String) :
    parse content locale = (messages (solidLines content.toList)).foldl insert (empty locale) := by
  rw [parse_eq_foldl_solidLines, foldl_advance_eq]

private theorem isReady_foldl_advance_render (catalog : Catalog) (locale : String) :
    ((solidLines catalog.renderChars).foldl Reading.advance
      (Reading.start (empty locale))).IsReady := by
  cases h : catalog.sorted.getLast? with
  | none =>
    have nothing : catalog.renderChars = [] := by
      rw [renderChars, List.getLast?_eq_none_iff.mp h]
      rfl
    rw [nothing]
    exact ⟨by simp [solidLines, Text.splitLines, Text.splitAt, Reading.start], rfl⟩
  | some last =>
    have quiet : (Reading.start (empty locale)).skipped = [] := rfl
    obtain ⟨stored, told, opened⟩ := exists_foldl_advance_render h quiet
    rw [opened]
    exact Reading.isReady_message _ _

private theorem parse_append_eq_foldl (catalog : Catalog) {rest : String}
    (begins : ∀ line, (solidLines rest.toList).head? = some line → Begins line) (locale : String) :
    parse (catalog.render ++ rest) locale =
      (messages (solidLines rest.toList)).foldl insert (parse catalog.render locale) := by
  have ready := isReady_foldl_advance_render catalog locale
  have quiet : ((solidLines catalog.renderChars).foldl Reading.advance
      (Reading.start (empty locale))).skipped = [] := skipped_foldl_advance rfl _
  rw [parse_eq_foldl_solidLines, parse_eq_foldl_solidLines, String.toList_append, render,
    String.toList_ofList, Text.solidLines_append (isEnded_renderChars catalog), List.foldl_append,
    foldl_advance_of_begins begins ready quiet, foldl_advance_eq]

/-- Appending to a written catalog is compositional. Whatever the appended lines are, as long as the
first one that is not blank is metadata or a key, a key has the entry that they spell for it on their
own, metadata included, and the entry of the written catalog if they spell none. -/
theorem get?_parse_append (catalog : Catalog) {rest : String}
    (begins : ∀ line, (solidLines rest.toList).head? = some line → Begins line)
    (locale key : String) :
    (parse (catalog.render ++ rest) locale).get? key =
      ((parse rest locale).get? key).or ((parse catalog.render locale).get? key) := by
  by_cases named : key = ""
  · subst named
    simp only [get?_parse_empty, Option.or_none]
  · have none_empty : (empty locale).get? key = none := rfl
    rw [parse_append_eq_foldl catalog begins, parse_eq_foldl_messages rest,
      get?_foldl_insert _ _ named, get?_foldl_insert _ _ named, none_empty, Option.or_none]

private def welcomed : Catalog where
  locale := "fr"
  entries := [{ key := "Bye", localized := "Adieu" },
    { key := "Hi", localized := "Salut", isFormat := true }]

private theorem parse_render_welcomed : parse welcomed.render "fr" = welcomed := by
  have sound : welcomed.IsSound := ⟨by decide, by decide⟩
  have sorted : welcomed.sorted = welcomed.entries := List.mergeSort_of_pairwise (by decide)
  rw [parse_render sound (by simp [welcomed, Entry.PathsOnLines]), sorted]
  simp [welcomed, Entry.reread, Entry.sortedOccurrences, Entry.ofKey, Entry.sortedDistinct,
    Entry.dropRepeats]

/-- A key without an end, a text without a key, an entry for a known key, and a key without a text. -/
private def addition : String :=
  "\n msgid \"Hi\nmsgstr \"lost\"\n#. shout\nmsgid \"Hi\"\nmsgstr \"Ohé\"\nmsgid \"Bye\"\n"

theorem get?_parse_append_greeting :
    (parse (welcomed.render ++ addition) "fr").get? "Hi" =
        some { key := "Hi", localized := "Ohé", comments := ["shout"] } ∧
      (parse (welcomed.render ++ addition) "fr").get? "Bye" =
        some { key := "Bye", localized := "Adieu" } := by
  have begins : ∀ line, (solidLines addition.toList).head? = some line → Begins line := by
    have first : (solidLines addition.toList).head? = some "msgid \"Hi".toList := by decide
    intro line h
    obtain rfl := Option.some.inj (first.symm.trans h)
    decide
  have alone : (parse addition "fr").entries =
      [{ key := "Hi", localized := "Ohé", comments := ["shout"] }] := by decide +kernel
  rw [get?_parse_append welcomed begins, get?_parse_append welcomed begins, parse_render_welcomed]
  simp [get?, alone, welcomed]

end Phrasebook.Catalog
