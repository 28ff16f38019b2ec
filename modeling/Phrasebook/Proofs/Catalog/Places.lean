import Mathlib.Data.List.Infix
import Phrasebook.Proofs.Catalog.References
import Phrasebook.Proofs.Text.Layout

/-!
Places on a line of references. All that are read are plain: single spaces join the words of their
written form, and no words at its start spell a place. Plain places are read one after the other,
whatever blanks are between them.
-/

set_option autoImplicit false

namespace Phrasebook

open Text (isBlank)

namespace Occurrence

/-- A place whose written form is read as this place: single spaces join the words, and no words at
its start spell a place themselves. -/
structure IsPlain (occurrence : Occurrence) : Prop where
  path : occurrence.path.toList ≠ []
  line : occurrence.line < lineBound
  normal : Text.joinWith [' '] (Text.words occurrence.toChars) = occurrence.toChars
  early : ∀ start, start <+: Text.words occurrence.toChars → start ≠ [] →
    start ≠ Text.words occurrence.toChars → ofChars? (Text.joinWith [' '] start) = none

instance (occurrence : Occurrence) : Decidable occurrence.IsPlain :=
  decidable_of_iff
    (occurrence.path.toList ≠ [] ∧ occurrence.line < lineBound ∧
      Text.joinWith [' '] (Text.words occurrence.toChars) = occurrence.toChars ∧
      ∀ start ∈ (Text.words occurrence.toChars).inits, start ≠ [] →
        start ≠ Text.words occurrence.toChars → ofChars? (Text.joinWith [' '] start) = none)
    ⟨fun ⟨path, line, normal, early⟩ =>
      ⟨path, line, normal, fun start started => early start ((List.mem_inits _ _).mpr started)⟩,
    fun plain => ⟨plain.path, plain.line, plain.normal, fun start started =>
      plain.early start ((List.mem_inits _ _).mp started)⟩⟩

variable {occurrence : Occurrence}

theorem parse?_render_eq_some_iff (small : occurrence.line < lineBound) :
    parse? occurrence.render = some occurrence ↔ occurrence.path ≠ "" := by
  have filled : occurrence.path.toList ≠ [] ↔ occurrence.path ≠ "" :=
    not_congr String.toList_eq_nil_iff
  rw [parse?, render, String.toList_ofList, ← filled]
  constructor
  · intro read
    obtain ⟨-, -, path, -⟩ := ofChars?_eq_some_iff.mp read
    exact path
  · exact fun path => ofChars?_toChars path small

theorem IsPlain.spells (plain : occurrence.IsPlain) :
    Catalog.Spells (Text.words occurrence.toChars) occurrence where
  words := fun _ => Text.isWord_of_mem_words
  whole := by rw [plain.normal, ofChars?_toChars plain.path plain.line]
  early := plain.early

end Occurrence

namespace Catalog

theorem Spells.isPlain {found : List (List Char)} {occurrence : Occurrence}
    (spelled : Spells found occurrence) : occurrence.IsPlain := by
  obtain ⟨number, -, path, -⟩ := Occurrence.ofChars?_eq_some_iff.mp spelled.whole
  obtain ⟨written, again, joined⟩ := spelled.exists_written
  have words : Text.words occurrence.toChars = written := by
    rw [← joined, Text.words_joinWith again.words]
  refine ⟨path, Occurrence.lt_lineBound_of_ofChars? spelled.whole, ?_, ?_⟩
  · rw [words, joined]
  · rw [words]
    exact again.early

theorem isPlain_of_mem {text : List Char} {occurrence : Occurrence}
    (read : occurrence ∈ parseReferences text) : occurrence.IsPlain := by
  obtain ⟨found, spelled, -⟩ := exists_spells_of_mem read
  exact spelled.isPlain

/-- Places with blanks before each of them, which only the first can lack. -/
structure IsSpaced (found : List (List Char × Occurrence)) : Prop where
  blank : ∀ place ∈ found, ∀ c ∈ place.1, isBlank c = true
  apart : ∀ place ∈ found.tail, place.1 ≠ []

variable {found : List (List Char × Occurrence)}

private theorem words_append_places (blank : ∀ place ∈ found, ∀ c ∈ place.1, isBlank c = true)
    (apart : ∀ place ∈ found, place.1 ≠ []) (start : List Char) :
    Text.words (start ++ found.flatMap fun place => place.1 ++ place.2.toChars) =
      Text.words start ++ found.flatMap fun place => Text.words place.2.toChars := by
  induction found generalizing start with
  | nil => simp
  | cons place found ih =>
    obtain ⟨c, rest, split⟩ := List.exists_cons_of_ne_nil (apart place (by simp))
    have space := blank place (by simp)
    rw [split] at space
    have below := ih (fun other ho => blank other (by simp [ho]))
      (fun other ho => apart other (by simp [ho])) place.2.toChars
    rw [List.flatMap_cons, List.flatMap_cons, split, List.append_assoc, List.cons_append,
      Text.words_append_of_isBlank (space c (by simp)),
      Text.words_append_left_of_forall fun d hd => space d (by simp [hd]), below]

theorem IsSpaced.words_eq (spaced : IsSpaced found) :
    Text.words (found.flatMap fun place => place.1 ++ place.2.toChars) =
      found.flatMap fun place => Text.words place.2.toChars := by
  cases found with
  | nil => rfl
  | cons place found =>
    have apart : ∀ other ∈ found, other.1 ≠ [] := spaced.apart
    have blank : ∀ other ∈ found, ∀ c ∈ other.1, isBlank c = true := fun other ho =>
      spaced.blank other (by simp [ho])
    rw [List.flatMap_cons, List.append_assoc,
      Text.words_append_left_of_forall (spaced.blank place (by simp)),
      words_append_places blank apart, List.flatMap_cons]

private theorem references_words (plain : ∀ place ∈ found, place.2.IsPlain) :
    references [] (found.flatMap fun place => Text.words place.2.toChars) = found.map Prod.snd := by
  induction found with
  | nil => rfl
  | cons place found ih =>
    rw [List.flatMap_cons, references_of_spells (plain place (by simp)).spells,
      ih fun other ho => plain other (by simp [ho]), List.map_cons]

theorem IsSpaced.parseReferences_eq (spaced : IsSpaced found)
    (plain : ∀ place ∈ found, place.2.IsPlain) :
    parseReferences (found.flatMap fun place => place.1 ++ place.2.toChars) = found.map Prod.snd := by
  rw [parseReferences, spaced.words_eq, references_words plain]

/-- A place alone is read back unless its path is empty. Places on a line are read back exactly if all are
plain, and whatever a line says, what is read from it is plain. -/
theorem places_readBack :
    (∀ occurrence : Occurrence, occurrence.line < Occurrence.lineBound →
      (Occurrence.parse? occurrence.render = some occurrence ↔ occurrence.path ≠ "")) ∧
    (∀ found : List (List Char × Occurrence), IsSpaced found →
      (parseReferences (found.flatMap fun place => place.1 ++ place.2.toChars) = found.map Prod.snd ↔
        ∀ place ∈ found, place.2.IsPlain)) ∧
    ∀ text, ∀ occurrence ∈ parseReferences text, occurrence.IsPlain := by
  refine ⟨fun occurrence => Occurrence.parse?_render_eq_some_iff, fun found spaced => ⟨?_, ?_⟩,
    fun text occurrence => isPlain_of_mem⟩
  · intro same place member
    have read : place.2 ∈ parseReferences (found.flatMap fun place => place.1 ++ place.2.toChars) := by
      rw [same]
      exact List.mem_map_of_mem member
    exact isPlain_of_mem read
  · exact spaced.parseReferences_eq

private def oddPlaces : List (List Char × Occurrence) :=
  [([], ⟨"b 1.ts", 7⟩), (['\n', '\t'], ⟨":3 y", 1⟩), ([' '], ⟨"C:99999999999999999999 d", 2⟩)]

theorem places_readBack_of_odd :
    (⟨":3 y", 1⟩ : Occurrence).line < Occurrence.lineBound ∧
      Occurrence.parse? ":3 y:1" = some ⟨":3 y", 1⟩ ∧ IsSpaced oddPlaces ∧
      parseReferences "b 1.ts:7\n\t:3 y:1 C:99999999999999999999 d:2".toList =
        [⟨"b 1.ts", 7⟩, ⟨":3 y", 1⟩, ⟨"C:99999999999999999999 d", 2⟩] ∧
      (⟨"b", 2⟩ : Occurrence) ∈ parseReferences "a:1 b:02".toList ∧ (⟨"b", 2⟩ : Occurrence).IsPlain := by
  obtain ⟨alone, together, read⟩ := places_readBack
  have small : (⟨":3 y", 1⟩ : Occurrence).line < Occurrence.lineBound := by decide
  have blank : (oddPlaces.all fun place => place.1.all isBlank) = true := by decide
  have spaced : IsSpaced oddPlaces := ⟨by simpa using blank, by decide⟩
  have plain : ∀ place ∈ oddPlaces, place.2.IsPlain := by decide
  have member : (⟨"b", 2⟩ : Occurrence) ∈ parseReferences "a:1 b:02".toList := by decide
  exact ⟨small, (alone _ small).mpr (by decide), spaced, (together _ spaced).mpr plain, member,
    read _ _ member⟩

/-- A path that holds a place is cut there. -/
example : ¬(⟨"a:1 b", 2⟩ : Occurrence).IsPlain ∧
    parseReferences (Occurrence.toChars ⟨"a:1 b", 2⟩) = [⟨"a", 1⟩, ⟨"b", 2⟩] := by decide

end Catalog

end Phrasebook
