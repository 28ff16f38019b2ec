import Phrasebook.Extraction
import Phrasebook.Proofs.Catalog.File
import Phrasebook.Proofs.Catalog.Refresh

/-!
The writing of one catalog: what the file holds afterwards, and what it has kept.
-/

set_option autoImplicit false

namespace Phrasebook

namespace FileTree

def textAt (tree : FileTree) (names : Names) : Option String :=
  match tree.item? names with
  | some (.file (.text text)) => some text
  | _ => none

theorem textAt_eq_some_iff {tree : FileTree} {names : Names} {text : String} :
    tree.textAt names = some text ↔ tree.item? names = some (.file (.text text)) := by
  unfold textAt
  constructor
  · intro h
    split at h
    · rename_i found
      rw [found, Option.some.inj h]
    · cases h
  · intro h
    rw [h]

end FileTree

namespace Extraction

open Catalog (filePath fileName)

variable {tree later : FileTree} {fresh : Catalog} {path locale : String}

theorem perform_writeLocale (tree : FileTree) (overwrite : Bool) (fresh : Catalog)
    (path locale : String) :
    tree.perform (writeLocale overwrite fresh path locale) =
      match existingCatalog tree overwrite path locale with
      | .error error => (.error error, tree)
      | .ok existing =>
        match tree.perform ((existing.merge fresh).save path) with
        | (.ok wrote, later) =>
          (.ok (if wrote then some (existing.merge fresh).size else none), later)
        | (.error error, later) => (.error error, later) := by
  rw [writeLocale, FileTree.perform_bind]
  change tree.perform (match existingCatalog tree overwrite path locale with
    | .error error => throw error
    | .ok existing => do
      if ← (existing.merge fresh).save path then return some (existing.merge fresh).size
      return none) = _
  cases existingCatalog tree overwrite path locale with
  | error error => rfl
  | ok existing =>
    simp only [FileTree.perform_bind]
    rcases tree.perform ((existing.merge fresh).save path) with ⟨_ | wrote, later⟩
    · rfl
    · cases wrote <;> rfl

theorem tree_writeLocale (tree : FileTree) (overwrite : Bool) (fresh : Catalog)
    (path locale : String) :
    (tree.perform (writeLocale overwrite fresh path locale)).2 =
      match existingCatalog tree overwrite path locale with
      | .error _ => tree
      | .ok existing => (tree.perform ((existing.merge fresh).save path)).2 := by
  rw [perform_writeLocale]
  cases existingCatalog tree overwrite path locale with
  | error error => rfl
  | ok existing =>
    simp only
    rcases tree.perform ((existing.merge fresh).save path) with ⟨_ | _, later⟩ <;> rfl

theorem tree_writeLocale_of_isEmpty (empty : fresh.isEmpty = true) (tree : FileTree)
    (overwrite : Bool) (path locale : String) :
    (tree.perform (writeLocale overwrite fresh path locale)).2 = tree := by
  rw [tree_writeLocale]
  cases existingCatalog tree overwrite path locale with
  | error error => rfl
  | ok existing =>
    have bare : (existing.merge fresh).isEmpty = true := by rw [Catalog.isEmpty_merge, empty]
    simp only [FileTree.perform_save_of_isEmpty tree bare]

theorem tree_writeLocale_of_error {tree : FileTree} {error : Catalog.FileError}
    (unmade : tree.perform (Catalog.makeParent path) = (.error error, tree)) (overwrite : Bool)
    (fresh : Catalog) (locale : String) :
    (tree.perform (writeLocale overwrite fresh path locale)).2 = tree := by
  rw [tree_writeLocale]
  cases existingCatalog tree overwrite path locale with
  | error error => rfl
  | ok existing =>
    simp only
    cases bare : (existing.merge fresh).isEmpty with
    | true => rw [FileTree.perform_save_of_isEmpty tree bare]
    | false => rw [FileTree.perform_save tree bare, unmade]

private theorem existingCatalog_cases {a b : String} (alike : Path.Alike a b) (tree : FileTree)
    (overwrite : Bool) (locale : String) :
    (∃ existing, existingCatalog tree overwrite a locale = .ok existing ∧
        existingCatalog tree overwrite b locale = .ok existing) ∨
      ∃ error other, existingCatalog tree overwrite a locale = .error error ∧
        existingCatalog tree overwrite b locale = .error other := by
  unfold existingCatalog Catalog.load
  rw [FileTree.isFile_congr (alike.locate_eq tree true),
    FileTree.readText_congr (alike.locate_eq tree true)]
  split
  · cases tree.readText b with
    | ok text => exact Or.inl ⟨_, rfl, rfl⟩
    | error fault => exact Or.inr ⟨_, _, rfl, rfl⟩
  · exact Or.inl ⟨_, rfl, rfl⟩

theorem tree_writeLocale_congr {other : Catalog}
    (texts : ∀ existing : Catalog, (existing.merge fresh).render = (existing.merge other).render)
    (empty : fresh.isEmpty = other.isEmpty) (tree : FileTree) (overwrite : Bool)
    (path locale : String) :
    (tree.perform (writeLocale overwrite fresh path locale)).2 =
      (tree.perform (writeLocale overwrite other path locale)).2 := by
  rw [tree_writeLocale, tree_writeLocale]
  cases existingCatalog tree overwrite path locale with
  | error error => rfl
  | ok existing =>
    have bare : (existing.merge fresh).isEmpty = (existing.merge other).isEmpty := by
      rw [Catalog.isEmpty_merge, Catalog.isEmpty_merge, empty]
    exact congrArg Prod.snd (FileTree.perform_save_congr tree (texts existing) bare path)

theorem tree_writeLocale_of_alike {a b : String}
    (alike : Path.Alike (filePath a locale) (filePath b locale))
    (beside : Path.Alike (Catalog.stagingPath (filePath a locale))
      (Catalog.stagingPath (filePath b locale))) (tree : FileTree) (overwrite : Bool) :
    (tree.perform (writeLocale overwrite fresh (filePath a locale) locale)).2 =
      (tree.perform (writeLocale overwrite fresh (filePath b locale) locale)).2 := by
  rw [tree_writeLocale, tree_writeLocale]
  rcases existingCatalog_cases alike tree overwrite locale with
    ⟨existing, first, second⟩ | ⟨_, _, first, second⟩
  · rw [first, second]
    exact FileTree.tree_save_of_alike tree alike beside _
  · rw [first, second]

def heldText (tree : FileTree) (names : Names) (locale key : String) : Option String :=
  (tree.textAt names).bind fun text => (Catalog.parse text locale).texts.lookup key

theorem isSound_of_existingCatalog {overwrite : Bool} {existing : Catalog}
    (h : existingCatalog tree overwrite path locale = .ok existing) : existing.IsSound := by
  unfold existingCatalog Catalog.load at h
  split at h
  · split at h
    · rw [← Except.ok.inj h]
      exact Catalog.parse_isSound _ locale
    · cases h
  · rw [← Except.ok.inj h]
    exact Catalog.isSound_empty locale

theorem lookup_existing (known : Locale.isRecognized locale = true) {directory : String}
    {home : Names} (lands : tree.Lands (filePath directory locale) (fileName locale))
    (before : ∀ other, tree.wayIn (filePath directory locale) = .ok other → other = home)
    {overwrite : Bool} {existing : Catalog}
    (h : existingCatalog tree overwrite (filePath directory locale) locale = .ok existing)
    (key : String) :
    existing.texts.lookup key =
      if overwrite = false ∧ tree.isFile (filePath directory locale) = true then
        heldText tree (home ++ [fileName locale]) locale key
      else none := by
  have last := Catalog.piecesOf_filePath known directory
  have proper := Catalog.isName_fileName known
  unfold existingCatalog at h
  split at h
  · rename_i reads
    have file : overwrite = false ∧ tree.isFile (filePath directory locale) = true := by
      simpa using reads
    unfold Catalog.load at h
    cases read : tree.readText (filePath directory locale) with
    | error fault =>
      rw [read] at h
      cases h
    | ok text =>
      rw [read] at h
      obtain rfl : Catalog.parse text locale = existing := Except.ok.inj h
      obtain ⟨other, way, item⟩ :=
        (FileTree.readText_eq_ok_iff_of_lands last proper lands).mp read
      obtain rfl := before other way
      rw [if_pos file, heldText, FileTree.textAt_eq_some_iff.mpr item]
      rfl
  · rename_i skips
    have drops : ¬(overwrite = false ∧ tree.isFile (filePath directory locale) = true) := by
      simpa using skips
    obtain rfl : Catalog.empty locale = existing := Except.ok.inj h
    rw [if_neg drops]
    rfl

/-- A catalog was written to a directory of the later tree: it holds the messages found, each with the
text that it had in the file there before. -/
structure Writes (tree later : FileTree) (fresh : Catalog) (directory locale : String) (home : Names)
    (text : String) : Prop where
  way : later.wayIn (filePath directory locale) = .ok home
  replaces : tree.Replaces later (home ++ [fileName locale]) locale (.text text)
  keys : (Catalog.parse text locale).keys.Perm fresh.keys
  texts : ∀ key, (Catalog.parse text locale).texts.lookup key =
    if tree.isFile (filePath directory locale) = true ∧ key ∈ fresh.keys then
      heldText tree (home ++ [fileName locale]) locale key
    else none

theorem exists_writes (known : Locale.isRecognized locale = true) (plain : tree.Plain locale)
    (clean : fresh.IsFresh) (full : fresh.isEmpty = false) {directory : String}
    {count : Option Nat}
    (written : tree.perform (writeLocale false fresh (filePath directory locale) locale) =
      (.ok count, later)) : ∃ home text, Writes tree later fresh directory locale home text := by
  rw [perform_writeLocale] at written
  cases old : existingCatalog tree false (filePath directory locale) locale with
  | error error =>
    rw [old] at written
    cases written
  | ok existing =>
    simp only [old] at written
    rcases saved : tree.perform ((existing.merge fresh).save (filePath directory locale)) with
      ⟨_ | wrote, after⟩
    · rw [saved] at written
      cases written
    · rw [saved] at written
      obtain rfl : after = later := congrArg Prod.snd written
      have filled : (existing.merge fresh).isEmpty = false := by rw [Catalog.isEmpty_merge, full]
      obtain ⟨home, way, replaces⟩ := FileTree.exists_of_save known plain filled saved
      have texts := lookup_existing known (plain.target.lands _)
        (fun other first => Except.ok.inj
          ((FileTree.wayIn_of_keeps replaces.keeps first).symm.trans way)) old
      refine ⟨home, _, way, replaces, Catalog.keys_render_merge clean existing locale, ?_⟩
      intro key
      rw [Catalog.lookup_render_merge clean (isSound_of_existingCatalog old), texts]
      by_cases member : key ∈ fresh.keys
      · simp [member]
      · simp [member]

end Extraction

end Phrasebook
