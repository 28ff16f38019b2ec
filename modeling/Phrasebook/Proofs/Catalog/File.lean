import Phrasebook.Catalog.File
import Phrasebook.Locale
import Phrasebook.Proofs.Catalog.Beside
import Phrasebook.Proofs.Files.Alike
import Phrasebook.Proofs.Files.Join
import Phrasebook.Proofs.Text.Layout

/-!
Catalogs as files. A catalog that is written stands under the name of its locale, and nothing else has
changed but the file beside it and new directories.
-/

set_option autoImplicit false

namespace Phrasebook

namespace Catalog

open FileTree (piecesOf IsName)

def fileName (locale : String) : String := locale ++ "." ++ fileExtension

def stagingName (locale : String) : String := "." ++ fileName locale ++ ".tmp"

theorem nameBeside_fileName (locale : String) :
    nameBeside (fileName locale) = stagingName locale := rfl

private theorem names_of_recognized : ∀ locale ∈ Locale.recognized,
    (fileName locale ≠ "" ∧ fileName locale ≠ "." ∧ fileName locale ≠ ".." ∧
      (fileName locale).utf8ByteSize ≤ 250 ∧ '/' ∉ (fileName locale).toList) ∧
    (stagingName locale ≠ "" ∧ stagingName locale ≠ "." ∧ stagingName locale ≠ ".." ∧
      (stagingName locale).utf8ByteSize ≤ 255 ∧ '/' ∉ (stagingName locale).toList) ∧
    (fileName locale).toList.head? ≠ some '.' := by
  decide

variable {locale : String}

private theorem mem_recognized (h : Locale.isRecognized locale = true) :
    locale ∈ Locale.recognized := by
  simpa [Locale.isRecognized] using h

theorem isName_fileName (h : Locale.isRecognized locale = true) : IsName (fileName locale) := by
  obtain ⟨⟨full, here, up, short, -⟩, -, -⟩ := names_of_recognized locale (mem_recognized h)
  exact ⟨full, here, up, short.trans (by decide)⟩

theorem not_mem_fileName (h : Locale.isRecognized locale = true) :
    '/' ∉ (fileName locale).toList :=
  (names_of_recognized locale (mem_recognized h)).1.2.2.2.2

theorem isName_stagingName (h : Locale.isRecognized locale = true) :
    IsName (stagingName locale) := by
  obtain ⟨-, ⟨full, here, up, short, -⟩, -⟩ := names_of_recognized locale (mem_recognized h)
  exact ⟨full, here, up, short⟩

theorem fileName_ne_stagingName {other : String} (h : Locale.isRecognized locale = true) :
    fileName locale ≠ stagingName other := by
  intro same
  have first := (names_of_recognized locale (mem_recognized h)).2.2
  rw [same] at first
  exact first (by simp [stagingName])

theorem append_stagingName_ne (h : Locale.isRecognized locale = true) (other : String)
    (annex home : Names) : annex ++ [stagingName other] ≠ home ++ [fileName locale] := by
  intro same
  have last := congrArg List.getLast? same
  rw [List.getLast?_concat, List.getLast?_concat] at last
  exact fileName_ne_stagingName h (Option.some.inj last).symm

theorem fileName_injective : Function.Injective fileName := by
  intro a b h
  have cut := congrArg String.toList h
  simp only [fileName, String.toList_append, List.append_assoc] at cut
  rw [← String.toList_inj]
  exact List.append_cancel_right cut

/-- The name that the catalog of a locale has in its directory: what follows the last slash. -/
def entryName (locale : String) : String := ((piecesOf (fileName locale)).getLast?).getD ""

private theorem exists_entryName (locale : String) : ∃ start : String,
    (piecesOf (fileName locale)).getLast? = some (start ++ ".po") := by
  have uncut : ∀ c ∈ ".po".toList, (c == '/') = false := by simp
  obtain ⟨outer, last, -, split⟩ := Text.exists_splitAt_append uncut locale.toList
  refine ⟨String.ofList last, ?_⟩
  have chars : (fileName locale).toList = locale.toList ++ ".po".toList := by
    simp [fileName, fileExtension, String.toList_append]
  rw [piecesOf, chars, split, List.map_append, List.map_singleton, List.getLast?_concat,
    String.ofList_append, String.ofList_toList]

private theorem getLast?_entryName (locale : String) :
    (entryName locale).toList.getLast? = some 'o' := by
  obtain ⟨start, last⟩ := exists_entryName locale
  rw [entryName, last, Option.getD_some, String.toList_append,
    List.getLast?_append_of_ne_nil _ (by decide)]
  rfl

theorem entryName_ne_nameBeside (locale name : String) : entryName locale ≠ nameBeside name := by
  intro same
  have ends := getLast?_entryName locale
  rw [same, nameBeside, String.toList_append, List.getLast?_append_of_ne_nil _ (by decide)] at ends
  exact absurd ends (by decide)

theorem isEntry_entryName (locale : String) : IsEntry (entryName locale) := by
  have ends := getLast?_entryName locale
  refine ⟨?_, ?_, ?_⟩ <;>
  · intro same
    rw [same] at ends
    exact absurd ends (by decide)

theorem getLast?_filePath (directory locale : String) :
    (piecesOf (filePath directory locale)).getLast? = some (entryName locale) := by
  obtain ⟨start, last⟩ := exists_entryName locale
  have joined := FileTree.getLast?_piecesOf_join directory (fileName locale)
  rw [last] at joined
  rw [entryName, last, Option.getD_some]
  exact joined

theorem ends_filePath (directory locale : String) :
    FileTree.Ends (piecesOf (filePath directory locale)) :=
  Or.inr ⟨entryName locale, getLast?_filePath directory locale, (isEntry_entryName locale).isSolid⟩

theorem piecesOf_filePath (h : Locale.isRecognized locale = true) (directory : String) :
    (piecesOf (filePath directory locale)).getLast? = some (fileName locale) := by
  exact FileTree.piecesOf_join (not_mem_fileName h) directory

theorem piecesOf_stagingPath (h : Locale.isRecognized locale = true) (directory : String) :
    (piecesOf (stagingPath (filePath directory locale))).getLast? = some (stagingName locale) :=
  FileTree.getLast?_stagingPath (piecesOf_filePath h directory) (.of_isName (isName_fileName h))

theorem exists_parent?_filePath (h : Locale.isRecognized locale = true) {directory : String}
    (full : directory ≠ "") :
    ∃ parent, Path.parent? (filePath directory locale) = some parent ∧
      Path.parts parent = Path.parts directory := by
  obtain ⟨parent, part, found, parts⟩ :=
    Path.exists_parent?_of_last (piecesOf_filePath h directory) (isName_fileName h).isSolid
  refine ⟨parent, found, ?_⟩
  have joined : Path.parts (filePath directory locale) =
      Path.parts directory ++ [.name (fileName locale)] :=
    Path.parts_join (isName_fileName h) (not_mem_fileName h) full
  exact (List.append_inj' (parts.symm.trans joined) rfl).1

section Spelling

variable {a b : String}

/-- The spelling of a directory does not matter to its catalogs, unless it is too long. -/
theorem alike_filePath (same : Path.parts a = Path.parts b) (full : a ≠ "")
    (shortA : (filePath a locale).utf8ByteSize < FileTree.pathLimit)
    (shortB : (filePath b locale).utf8ByteSize < FileTree.pathLimit) :
    Path.Alike (filePath a locale) (filePath b locale) := by
  refine Or.inr ⟨?_, ⟨ends_filePath a locale, shortA⟩, ⟨ends_filePath b locale, shortB⟩⟩
  cases fromRoot : Path.isAbsolute (fileName locale).toList with
  | true =>
    -- A tag that begins with a slash leads away from every directory.
    have whole := fun base => Path.join_of_isAbsolute base fromRoot
    exact congrArg Path.parts ((whole a).trans (whole b).symm)
  | false =>
    have fullB := Path.ne_empty_of_parts_eq same.symm full
    calc Path.parts (filePath a locale)
      _ = Path.parts a ++ Path.partsBehind (fileName locale) :=
        Path.parts_join_of_relative fromRoot full
      _ = Path.parts b ++ Path.partsBehind (fileName locale) := by rw [same]
      _ = Path.parts (filePath b locale) := (Path.parts_join_of_relative fromRoot fullB).symm

theorem alike_stagingPath (alike : Path.Alike (filePath a locale) (filePath b locale))
    (shortA : (stagingPath (filePath a locale)).utf8ByteSize < FileTree.pathLimit)
    (shortB : (stagingPath (filePath b locale)).utf8ByteSize < FileTree.pathLimit) :
    Path.Alike (stagingPath (filePath a locale)) (stagingPath (filePath b locale)) := by
  have lastA := getLast?_filePath a locale
  have lastB := getLast?_filePath b locale
  have entry := isEntry_entryName locale
  exact Or.inr ⟨FileTree.parts_stagingPath_congr lastA entry lastB alike.parts_eq,
    ⟨FileTree.ends_stagingPath lastA entry, shortA⟩, ⟨FileTree.ends_stagingPath lastB entry, shortB⟩⟩

end Spelling

end Catalog

namespace FileTree

open Catalog

theorem perform_step {α : Type} (tree : FileTree) (error : Fault → FileError) (change : Change α) :
    tree.perform (step error change) =
      ((tree.perform change).1.mapError error, (tree.perform change).2) := by
  have asked : tree.perform (liftM (change.run : StateM FileTree (Except Fault α)) : Writing _) =
      (.ok (tree.perform change).1, (tree.perform change).2) := rfl
  rw [step, perform_bind, asked]
  rcases tree.perform change with ⟨_ | _, later⟩ <;> rfl

theorem perform_makeParentOn (tree : FileTree) (disk : Disk) (path : String) :
    tree.perform (makeParentOn disk path) =
      match Path.parent? path with
      | none => (.ok (), tree)
      | some parent => tree.perform (step (.noDirectory parent) (disk.makeDirectories parent)) := by
  unfold makeParentOn
  cases Path.parent? path <;> rfl

theorem perform_makeParent (tree : FileTree) (path : String) :
    tree.perform (makeParent path) =
      match Path.parent? path with
      | none => (.ok (), tree)
      | some parent => tree.perform (step (.noDirectory parent) (Change.makeDirectories parent)) :=
  perform_makeParentOn tree .sound path

theorem perform_saveOn_of_isEmpty (tree : FileTree) (disk : Disk) {catalog : Catalog}
    (bare : catalog.isEmpty = true) (path : String) :
    tree.perform (catalog.saveOn disk path) = (.ok false, tree) := by
  simp [saveOn, bare]

theorem perform_save_of_isEmpty (tree : FileTree) {catalog : Catalog}
    (bare : catalog.isEmpty = true) (path : String) :
    tree.perform (catalog.save path) = (.ok false, tree) :=
  perform_saveOn_of_isEmpty tree .sound bare path

theorem perform_saveOn (tree : FileTree) (disk : Disk) {catalog : Catalog}
    (full : catalog.isEmpty = false) (path : String) :
    tree.perform (catalog.saveOn disk path) =
      match tree.perform (makeParentOn disk path) with
      | (.error error, later) => (.error error, later)
      | (.ok _, made) =>
        match made.perform (disk.write (stagingPath path) (.text catalog.render)) with
        | (.error fault, later) => (.error (.unwritable (stagingPath path) fault), later)
        | (.ok _, written) =>
          match written.perform (disk.rename (stagingPath path) path) with
          | (.ok _, later) => (.ok true, later)
          | (.error fault, later) =>
            (.error (.irreplaceable path fault),
              (later.perform (disk.remove (stagingPath path))).2) := by
  simp only [saveOn, full, Bool.false_eq_true, if_false]
  rw [perform_bind]
  rcases tree.perform (makeParentOn disk path) with ⟨_ | _, made⟩
  · rfl
  · simp only [perform_bind, perform_step]
    rcases made.perform (disk.write (stagingPath path) (.text catalog.render)) with
      ⟨_ | _, written⟩
    · rfl
    · simp only [Except.mapError, perform_tryCatch, perform_bind, perform_step]
      rcases written.perform (disk.rename (stagingPath path) path) with ⟨_ | _, later⟩
      · simp only
        rcases later.perform (disk.remove (stagingPath path)) with ⟨_ | _, last⟩ <;> rfl
      · rfl

theorem perform_save (tree : FileTree) {catalog : Catalog} (full : catalog.isEmpty = false)
    (path : String) :
    tree.perform (catalog.save path) =
      match tree.perform (makeParent path) with
      | (.error error, later) => (.error error, later)
      | (.ok _, made) =>
        match made.perform (Change.write (stagingPath path) (.text catalog.render)) with
        | (.error fault, later) => (.error (.unwritable (stagingPath path) fault), later)
        | (.ok _, written) =>
          match written.perform (Change.rename (stagingPath path) path) with
          | (.ok _, later) => (.ok true, later)
          | (.error fault, later) =>
            (.error (.irreplaceable path fault),
              (later.perform (Change.remove (stagingPath path))).2) :=
  perform_saveOn tree .sound full path

theorem perform_save_of_makeParent {tree made : FileTree} {path : String}
    (done : tree.perform (makeParent path) = (.ok (), made))
    (again : made.perform (makeParent path) = (.ok (), made)) {catalog : Catalog}
    (full : catalog.isEmpty = false) :
    tree.perform (catalog.save path) = made.perform (catalog.save path) := by
  rw [perform_save tree full, perform_save made full, done, again]

theorem perform_save_congr (tree : FileTree) {catalog other : Catalog}
    (texts : catalog.render = other.render) (empty : catalog.isEmpty = other.isEmpty)
    (path : String) : tree.perform (catalog.save path) = tree.perform (other.save path) := by
  cases bare : catalog.isEmpty with
  | true => rw [perform_save_of_isEmpty tree bare, perform_save_of_isEmpty tree (empty ▸ bare)]
  | false => rw [perform_save tree bare, perform_save tree (empty ▸ bare), texts]

section Alike

variable (tree : FileTree) {locale a b : String}
  (alike : Path.Alike (filePath a locale) (filePath b locale))
  (beside : Path.Alike (stagingPath (filePath a locale)) (stagingPath (filePath b locale)))

include alike beside

private theorem perform_rename_congr :
    tree.perform (Change.rename (stagingPath (filePath a locale)) (filePath a locale)) =
      tree.perform (Change.rename (stagingPath (filePath b locale)) (filePath b locale)) := by
  have entry := isEntry_entryName locale
  rw [perform_rename tree _ (getLast?_filePath a locale) entry.full entry.here entry.up,
    perform_rename tree _ (getLast?_filePath b locale) entry.full entry.here entry.up,
    beside.locate_eq, alike.locate_eq]

omit beside in
private theorem perform_makeParent_cases : ∃ later,
    tree.perform (makeParent (filePath a locale)) = (.ok (), later) ∧
        tree.perform (makeParent (filePath b locale)) = (.ok (), later) ∨
      ∃ error other, tree.perform (makeParent (filePath a locale)) = (.error error, later) ∧
        tree.perform (makeParent (filePath b locale)) = (.error other, later) := by
  rw [perform_makeParent, perform_makeParent]
  rcases alike.parent?_cases with ⟨first, second⟩ | ⟨p, q, first, second, outer⟩
  · rw [first, second]
    exact ⟨tree, Or.inl ⟨rfl, rfl⟩⟩
  · rw [first, second]
    simp only [perform_step, perform_makeDirectories_congr tree outer]
    rcases tree.perform (Change.makeDirectories q) with ⟨fault | _, later⟩
    · exact ⟨later, Or.inr ⟨_, _, rfl, rfl⟩⟩
    · exact ⟨later, Or.inl ⟨rfl, rfl⟩⟩

theorem tree_save_of_alike (catalog : Catalog) :
    (tree.perform (catalog.save (filePath a locale))).2 =
      (tree.perform (catalog.save (filePath b locale))).2 := by
  cases bare : catalog.isEmpty with
  | true => rw [perform_save_of_isEmpty tree bare, perform_save_of_isEmpty tree bare]
  | false =>
    rw [perform_save tree bare, perform_save tree bare]
    obtain ⟨made, ⟨first, second⟩ | ⟨_, _, first, second⟩⟩ := perform_makeParent_cases tree alike
    · rw [first, second]
      simp only [perform_write_congr made beside]
      rcases made.perform (Change.write (stagingPath (filePath b locale)) (.text catalog.render)) with
        ⟨_ | _, written⟩
      · rfl
      · simp only [perform_rename_congr written alike beside]
        rcases written.perform (Change.rename (stagingPath (filePath b locale))
          (filePath b locale)) with ⟨_ | _, later⟩
        · simp only [perform_remove_congr later beside]
        · rfl
    · rw [first, second]

end Alike

/-- No link bears the name of the catalog of a locale or of the file beside it. -/
structure Plain (tree : FileTree) (locale : String) : Prop where
  target : tree.Unlinked (fileName locale)
  staging : tree.Unlinked (stagingName locale)

/-- A later tree with a catalog under names: directories and links are kept, and nothing else has
changed but files beside catalogs and new directories. -/
structure Replaces (tree later : FileTree) (names : Names) (locale : String) (content : Content) :
    Prop where
  keeps : tree.Keeps later
  there : later.item? names = some (.file content)
  others : ∀ other, other ≠ names → other.getLast? ≠ some (stagingName locale) →
    later.item? other = tree.item? other ∨
      tree.item? other = none ∧ later.item? other = some .directory
  links : ∀ other target, later.item? other = some (.link target) →
    tree.item? other = some (.link target)

theorem Replaces.plain {tree later : FileTree} {names : Names} {locale : String} {content : Content}
    (replaces : tree.Replaces later names locale content) {other : String}
    (plain : tree.Plain other) : later.Plain other :=
  ⟨unlinked_of_links replaces.links plain.target, unlinked_of_links replaces.links plain.staging⟩

section Named

variable {tree later : FileTree} {path name : String}

private theorem exists_of_rename {source : String} {old : Names} {content : Content}
    (from_ : tree.locate false source = .ok (.item old (.file content)))
    (last : (piecesOf path).getLast? = some name) (proper : IsName name)
    (unlinked : tree.Unlinked name)
    (renamed : tree.perform (Change.rename source path) = (.ok (), later)) :
    ∃ home, tree.wayIn path = .ok home ∧ tree.TakesFile (home ++ [name]) ∧
      later = if old = home ++ [name] then tree
        else (tree.erase old).put (home ++ [name]) (.file content) := by
  rw [perform_rename tree source last proper.full proper.here proper.up, from_,
    locate_eq_wayIn last proper unlinked] at renamed
  cases way : tree.wayIn path with
  | error fault =>
    rw [way] at renamed
    cases renamed
  | ok home =>
    rw [way] at renamed
    simp only [Except.map, spotAt] at renamed
    refine ⟨home, rfl, ?_⟩
    cases found : tree.item? (home ++ [name]) with
    | none =>
      rw [found] at renamed
      exact ⟨Or.inl found, (congrArg Prod.snd renamed).symm⟩
    | some item =>
      rw [found] at renamed
      cases item with
      | file other => exact ⟨Or.inr ⟨other, found⟩, (congrArg Prod.snd renamed).symm⟩
      | directory => cases renamed
      | link target => exact absurd (by simp) (unlinked _ target found)

end Named

theorem grows_makeParent (tree : FileTree) (path : String) :
    tree.Grows (tree.perform (makeParent path)).2 := by
  rw [perform_makeParent]
  cases Path.parent? path with
  | none => exact Grows.refl tree
  | some parent =>
    simp only [perform_step]
    exact grows_makeDirectories tree parent

private theorem replaces_of_move {made : FileTree} {annex home : Names} {locale : String}
    {content : Content} (different : annex ++ [stagingName locale] ≠ home ++ [fileName locale])
    (beside : made.TakesFile (annex ++ [stagingName locale]))
    (takes : (made.put (annex ++ [stagingName locale]) (.file content)).TakesFile
      (home ++ [fileName locale])) :
    let written := made.put (annex ++ [stagingName locale]) (.file content)
    let later := (written.erase (annex ++ [stagingName locale])).put (home ++ [fileName locale])
      (.file content)
    written.Keeps later ∧ made.Replaces later (home ++ [fileName locale]) locale content := by
  intro written later
  have staged : written.TakesFile (annex ++ [stagingName locale]) :=
    Or.inr ⟨content, by simp [written, item?_put beside.below]⟩
  have moved : (written.erase (annex ++ [stagingName locale])).TakesFile
      (home ++ [fileName locale]) := by
    unfold TakesFile
    rw [item?_erase staged.below, if_neg (Ne.symm different)]
    exact takes
  have keeps : written.Keeps later := (keeps_erase staged).trans (keeps_put moved _)
  refine ⟨keeps, (keeps_put beside _).trans keeps, ?_, ?_, ?_⟩
  · rw [item?_put moved.below, if_pos rfl]
  · intro other notTarget notBeside
    have away : other ≠ annex ++ [stagingName locale] := by
      rintro rfl
      exact notBeside (by simp)
    rw [item?_put moved.below, if_neg notTarget, item?_erase staged.below, if_neg away,
      item?_put beside.below, if_neg away]
    exact Or.inl rfl
  · intro other target h
    have inErased := links_of_put moved content other target h
    exact links_of_put beside content other target
      (links_of_erase staged.below other target inErased)

private theorem replaces_of_grows {tree made later : FileTree} {names : Names} {locale : String}
    {content : Content} (grows : tree.Grows made)
    (replaces : made.Replaces later names locale content) :
    tree.Replaces later names locale content := by
  refine ⟨grows.keeps.trans replaces.keeps, replaces.there, ?_, ?_⟩
  · intro other notTarget notBeside
    rcases replaces.others other notTarget notBeside with same | ⟨free, new⟩
    · rw [same]
      exact grows.items other
    · rcases grows.items other with same | ⟨free, made⟩
      · exact Or.inr ⟨same ▸ free, new⟩
      · exact Or.inr ⟨free, new⟩
  · intro other target h
    exact links_of_grows grows other target (replaces.links other target h)

/-- A catalog that was saved is a file in the directory that its path leads into. -/
theorem exists_of_save {tree later : FileTree} {locale : String}
    (known : Locale.isRecognized locale = true) (plain : tree.Plain locale) {catalog : Catalog}
    (full : catalog.isEmpty = false) {directory : String} {wrote : Bool}
    (saved : tree.perform (catalog.save (filePath directory locale)) = (.ok wrote, later)) :
    ∃ home, later.wayIn (filePath directory locale) = .ok home ∧
      tree.Replaces later (home ++ [fileName locale]) locale (.text catalog.render) := by
  rw [perform_save tree full] at saved
  -- The directories on the way.
  rcases parent : tree.perform (makeParent (filePath directory locale)) with ⟨_ | _, made⟩
  · rw [parent] at saved
    cases saved
  have grows : tree.Grows made := by
    have grows := grows_makeParent tree (filePath directory locale)
    rwa [parent] at grows
  have madePlain : made.Plain locale :=
    ⟨unlinked_of_links (links_of_grows grows) plain.target,
      unlinked_of_links (links_of_grows grows) plain.staging⟩
  -- The file beside the catalog.
  simp only [parent] at saved
  rcases write : made.perform (Change.write (stagingPath (filePath directory locale))
    (.text catalog.render)) with ⟨_ | _, written⟩
  · rw [write] at saved
    cases saved
  obtain ⟨annex, wayBeside, takesBeside, rfl⟩ := exists_of_write
    (piecesOf_stagingPath known directory) (isName_stagingName known) madePlain.staging write
  have linksWritten := links_of_put takesBeside (.text catalog.render)
  have beside := locate_put (piecesOf_stagingPath known directory) (isName_stagingName known)
    wayBeside takesBeside (.text catalog.render)
  -- The move.
  simp only [write] at saved
  rcases rename : (made.put (annex ++ [stagingName locale])
    (.file (.text catalog.render))).perform (Change.rename (stagingPath (filePath directory locale))
      (filePath directory locale)) with ⟨_ | _, moved⟩
  · rw [rename] at saved
    cases saved
  obtain ⟨home, way, takes, eq⟩ := exists_of_rename beside (piecesOf_filePath known directory)
    (isName_fileName known) (unlinked_of_links linksWritten madePlain.target) rename
  have different := append_stagingName_ne known locale annex home
  rw [if_neg different] at eq
  rw [rename] at saved
  obtain rfl : moved = later := congrArg Prod.snd saved
  obtain ⟨keeps, replaces⟩ := replaces_of_move different takesBeside takes
  subst eq
  exact ⟨home, wayIn_of_keeps keeps way, replaces_of_grows grows replaces⟩

end FileTree

end Phrasebook
