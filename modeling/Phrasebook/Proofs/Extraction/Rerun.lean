import Phrasebook.Proofs.Extraction.Saving
import Phrasebook.Proofs.Extraction.Sharing

/-!
Runs over trees that a run has left. A turn that has failed fails again, and one that has written its
catalog writes it again, with the same texts in the end.
-/

set_option autoImplicit false

namespace Phrasebook.Extraction

open Catalog (filePath stagingPath fileName stagingName)

variable {options : Options} {found : List Outcome}

def Turn.after (options : Options) (found : List Outcome) (turn : Turn) : FileTree :=
  (performWrite options found turn.tree (turn.directory, turn.locale)).2

/-- The paths of a turn lead in a later tree to what they led to after the turn, but for texts, and the
catalog was there if it was written. -/
structure Turn.IsSettled (options : Options) (found : List Outcome) (turn : Turn)
    (last : FileTree) : Prop where
  stays : ∀ path ∈ Catalog.pathsOf turn.path, ∀ followsLast,
    last.leadsTo followsLast path = (turn.after options found).leadsTo followsLast path
  there : isWritten (turn.result options found) = true → ∃ names text,
    (turn.after options found).locate false turn.path = .ok (.item names (.file (.text text)))

section Turn

variable {tree next : FileTree} {directory locale : String}

theorem Spares.refl (tree : FileTree) (locale : String) (names : Option Names) :
    Spares tree tree locale names :=
  ⟨fun _ _ _ => Or.inl rfl, fun _ _ linked => linked⟩

theorem performWrite_of_isEmpty (empty : (freshCatalog directory found).isEmpty = true)
    (options : Options) (tree : FileTree) (locale : String) :
    isWritten (performWrite options found tree (directory, locale)).1 = false ∧
      (performWrite options found tree (directory, locale)).2 = tree := by
  refine ⟨?_, tree_writeLocale_of_isEmpty empty tree _ _ _⟩
  rw [performWrite, perform_writeLocale]
  cases existingCatalog tree options.overwrite (filePath directory locale) locale with
  | error error => rfl
  | ok existing =>
    have bare : (existing.merge (freshCatalog directory found)).isEmpty = true := by
      rw [Catalog.isEmpty_merge, empty]
    simp only [FileTree.perform_save_of_isEmpty tree bare]
    rfl

variable (known : Locale.isRecognized locale = true)

include known

theorem performWrite_saves (unlinked : tree.Unlinked (stagingName locale)) :
    let fresh := freshCatalog directory found
    let done := performWrite options found tree (directory, locale)
    let old := existingCatalog tree options.overwrite (filePath directory locale) locale
    isWritten done.1 = false ∧ done.2 = tree ∧
        (fresh.isEmpty = true ∨ ∃ error, old = .error error ∧ done.1 = .error error) ∨
      fresh.isEmpty = false ∧ ∃ existing result, old = .ok existing ∧
        Saves tree directory locale (existing.merge fresh).render result done.2 ∧
          done.1 = result.map fun _ => some (existing.merge fresh).size := by
  intro fresh done old
  cases empty : fresh.isEmpty with
  | true =>
    obtain ⟨unwritten, same⟩ := performWrite_of_isEmpty empty options tree locale
    exact Or.inl ⟨unwritten, same, Or.inl rfl⟩
  | false =>
    have result : done = _ := perform_writeLocale tree options.overwrite fresh
      (filePath directory locale) locale
    cases loaded : existingCatalog tree options.overwrite (filePath directory locale) locale with
    | error error =>
      simp only [loaded] at result
      rw [result]
      exact Or.inl ⟨rfl, rfl, Or.inr ⟨error, loaded, rfl⟩⟩
    | ok existing =>
      have filled : (existing.merge fresh).isEmpty = false := by rw [Catalog.isEmpty_merge, empty]
      rcases save : tree.perform ((existing.merge fresh).save (filePath directory locale)) with
        ⟨error | wrote, later⟩
      · have saves := saves_of_save known unlinked filled save
        simp only [loaded, save] at result
        rw [result]
        exact Or.inr ⟨rfl, existing, .error error, loaded, saves, rfl⟩
      · have saves := saves_of_save known unlinked filled save
        obtain ⟨rfl, -⟩ := saves.exists_stores known
        simp only [loaded, save] at result
        rw [result]
        exact Or.inr ⟨rfl, existing, .ok true, loaded, saves, rfl⟩

/-- A turn writes its catalog, or leaves all catalogs as they are. -/
theorem performWrite_cases (unlinked : tree.Unlinked (stagingName locale)) :
    let fresh := freshCatalog directory found
    let done := performWrite options found tree (directory, locale)
    isWritten done.1 = false ∧ Spares tree done.2 locale none ∨
      isWritten done.1 = true ∧ fresh.isEmpty = false ∧ ∃ existing home,
        existingCatalog tree options.overwrite (filePath directory locale) locale = .ok existing ∧
          Stores tree done.2 directory locale (existing.merge fresh).render home := by
  intro fresh done
  rcases @performWrite_saves options found tree directory locale known unlinked with
    ⟨unwritten, same, -⟩ | ⟨filled, existing, result, old, saves, written⟩
  · have unchanged : done.2 = tree := same
    refine Or.inl ⟨unwritten, ?_⟩
    rw [unchanged]
    exact Spares.refl tree locale none
  · have outcome : done.1 = _ := written
    rw [outcome]
    cases result with
    | error error => exact Or.inl ⟨rfl, saves.spares_of_error⟩
    | ok wrote =>
      obtain ⟨-, home, stores⟩ := saves.exists_stores known
      exact Or.inr ⟨rfl, filled, existing, home, old, stores⟩

omit known in
private theorem existingCatalog_again {path : String} {error : Catalog.FileError}
    (failed : existingCatalog tree options.overwrite path locale = .error error)
    (same : next.leadsTo true path = tree.leadsTo true path) :
    ∃ again, existingCatalog next options.overwrite path locale = .error again := by
  unfold existingCatalog at failed
  split at failed
  · rename_i reads
    obtain ⟨keeps, file⟩ := Bool.and_eq_true_iff.mp reads
    obtain ⟨names, content, located⟩ := FileTree.isFile_iff_locate.mp file
    cases content with
    | text text =>
      rw [Catalog.load, FileTree.readText_of_locate_text located] at failed
      cases failed
    | raw bytes =>
      obtain ⟨item, there, outline⟩ := FileTree.leadsTo_eq_item.mp
        (same.trans (FileTree.leadsTo_eq_item.mpr ⟨_, located, rfl⟩))
      obtain rfl := Item.outline_eq_raw.mp outline
      have nextFile : next.isFile path = true := FileTree.isFile_iff_locate.mpr ⟨_, _, there⟩
      unfold existingCatalog
      rw [keeps, nextFile, Bool.and_self, if_pos rfl, Catalog.load,
        FileTree.readText_of_locate_raw there]
      exact ⟨_, rfl⟩
  · cases failed

private theorem exists_existingCatalog_of_item {home : Names} {old : String}
    (way : tree.wayIn (filePath directory locale) = .ok home)
    (item : tree.item? (home ++ [fileName locale]) = some (.file (.text old)))
    (options : Options) :
    ∃ existing, existingCatalog tree options.overwrite (filePath directory locale) locale =
        .ok existing ∧
      ∀ key, existing.texts.lookup key = if options.overwrite = false then
        heldText tree (home ++ [fileName locale]) locale key else none := by
  have last := Catalog.piecesOf_filePath known directory
  have proper := Catalog.isName_fileName known
  have lands : tree.Lands (filePath directory locale) (fileName locale) := by
    intro other there target linked
    obtain rfl : home = other := Except.ok.inj (way.symm.trans there)
    rw [item] at linked
    cases linked
  have file : tree.isFile (filePath directory locale) = true :=
    (FileTree.isFile_iff_of_lands last proper lands).mpr ⟨home, _, way, item⟩
  have read : tree.readText (filePath directory locale) = .ok old :=
    (FileTree.readText_eq_ok_iff_of_lands last proper lands).mpr ⟨home, way, item⟩
  obtain ⟨existing, loaded⟩ : ∃ existing,
      existingCatalog tree options.overwrite (filePath directory locale) locale = .ok existing := by
    unfold existingCatalog
    split
    · exact ⟨_, by rw [Catalog.load, read]⟩
    · exact ⟨_, rfl⟩
  have texts := lookup_existing known lands
    (fun other there => Except.ok.inj (there.symm.trans way)) loaded
  exact ⟨existing, loaded, fun key => by simp [texts, file]⟩

section Again

variable (full : directory ≠ "") (filled : (freshCatalog directory found).isEmpty = false)
  (unlinkedNext : next.Unlinked (stagingName locale))
  (stays : ∀ path ∈ Catalog.pathsOf (filePath directory locale), ∀ followsLast,
    next.leadsTo followsLast path =
      (performWrite options found tree (directory, locale)).2.leadsTo followsLast path)

include full filled stays

theorem performWrite_again_of_not_isWritten (unlinked : tree.Unlinked (stagingName locale))
    (unwritten : isWritten (performWrite options found tree (directory, locale)).1 = false) :
    let again := performWrite options found next (directory, locale)
    isWritten again.1 = false ∧ again.2.place = next.place ∧
      ∀ names, again.2.item? names = next.item? names := by
  intro again
  have result : again = _ := perform_writeLocale next options.overwrite
    (freshCatalog directory found) (filePath directory locale) locale
  rcases @performWrite_saves options found tree directory locale known unlinked with
    ⟨-, same, empty | ⟨error, old, -⟩⟩ | ⟨-, existing, outcome, old, saves, written⟩
  · rw [filled] at empty
    cases empty
  · rw [same] at stays
    obtain ⟨other, fails⟩ := existingCatalog_again old (stays _ (Catalog.self_mem_pathsOf _) true)
    simp only [fails] at result
    rw [result]
    exact ⟨rfl, rfl, fun _ => rfl⟩
  · cases outcome with
    | ok wrote =>
      rw [written] at unwritten
      cases unwritten
    | error error =>
      cases new : existingCatalog next options.overwrite (filePath directory locale) locale with
      | error other =>
        simp only [new] at result
        rw [result]
        exact ⟨rfl, rfl, fun _ => rfl⟩
      | ok other =>
        have otherFilled : (other.merge (freshCatalog directory found)).isEmpty = false := by
          rw [Catalog.isEmpty_merge, filled]
        obtain ⟨fault, last, fails, place, items⟩ := saves.fails_again known full stays otherFilled
        simp only [new, fails] at result
        rw [result]
        exact ⟨rfl, place, items⟩

/-- A turn that has written its catalog writes it again where its paths lead to the same, and all else
stays as it is. -/
theorem performWrite_again_of_isWritten {text : String} {home : Names}
    (unlinkedNext : next.Unlinked (stagingName locale))
    (stores : Stores tree (performWrite options found tree (directory, locale)).2 directory locale
      text home) {names : Names} {content : String}
    (there : (performWrite options found tree (directory, locale)).2.locate false
      (filePath directory locale) = .ok (.item names (.file (.text content)))) :
    let again := performWrite options found next (directory, locale)
    ∃ existing : Catalog, existing.IsSound ∧
      (∀ key, existing.texts.lookup key = if options.overwrite = false then
        heldText next (home ++ [fileName locale]) locale key else none) ∧
      isWritten again.1 = true ∧ again.2.place = next.place ∧
        ∀ other, again.2.item? other = if other = home ++ [fileName locale] then
          some (.file (.text (existing.merge (freshCatalog directory found)).render))
        else next.item? other := by
  intro again
  obtain ⟨ready, ⟨old, item⟩, free⟩ := stores.ready known full stays there
  obtain ⟨existing, loaded, texts⟩ := exists_existingCatalog_of_item known ready.way item options
  have otherFilled : (existing.merge (freshCatalog directory found)).isEmpty = false := by
    rw [Catalog.isEmpty_merge, filled]
  have result : again = _ := perform_writeLocale next options.overwrite
    (freshCatalog directory found) (filePath directory locale) locale
  simp only [loaded, perform_save_of_ready known unlinkedNext ready otherFilled] at result
  refine ⟨existing, isSound_of_existingCatalog loaded, texts, ?_, ?_, fun other => ?_⟩
  · rw [result]
    rfl
  · rw [result]
    rfl
  · rw [result, item?_saved]
    split
    · rfl
    · split
      · rename_i beside
        rw [beside, free]
      · rfl

end Again

end Turn

theorem heldText_congr {tree later : FileTree} {names : Names}
    (same : later.item? names = tree.item? names) (locale key : String) :
    heldText later names locale key = heldText tree names locale key := by
  rw [heldText, heldText, FileTree.textAt, FileTree.textAt, same]

private theorem heldText_of_merge {tree : FileTree} {names : Names} {fresh existing : Catalog}
    (clean : fresh.IsFresh) (sound : existing.IsSound)
    (there : tree.item? names = some (.file (.text (existing.merge fresh).render)))
    (locale key : String) :
    heldText tree names locale key =
      if key ∈ fresh.keys then existing.texts.lookup key else none := by
  rw [heldText, FileTree.textAt_eq_some_iff.mpr there, Option.bind_some,
    Catalog.lookup_render_merge clean sound]

/-- The catalog under names is still there in a later tree, with no texts but those that it had. -/
structure Descends (keepsTexts : Bool) (tree later : FileTree) (names : Names) (locale : String) :
    Prop where
  there : ∃ text, later.item? names = some (.file (.text text))
  shrinks : keepsTexts = true → ∀ key localized,
    heldText later names locale key = some localized → heldText tree names locale key = some localized

namespace Descends

variable {keepsTexts : Bool} {tree next later : FileTree} {names : Names} {locale text : String}

theorem of_eq (there : tree.item? names = some (.file (.text text)))
    (same : later.item? names = tree.item? names) : Descends keepsTexts tree later names locale := by
  refine ⟨⟨text, same.trans there⟩, fun _ key localized held => ?_⟩
  rwa [← heldText_congr same]

theorem trans (first : Descends keepsTexts tree next names locale)
    (second : Descends keepsTexts next later names locale) :
    Descends keepsTexts tree later names locale :=
  ⟨second.there, fun keeps key localized held =>
    first.shrinks keeps key localized (second.shrinks keeps key localized held)⟩

end Descends

def Turn.target? (options : Options) (found : List Outcome) (turn : Turn) : Option Names :=
  if isWritten (turn.result options found) then
    match (turn.after options found).locate false turn.path with
    | .ok (.item names _) => some names
    | _ => none
  else none

structure Steady (options : Options) (found : List Outcome) (tree : FileTree)
    (places : List (String × String)) (last : FileTree) : Prop where
  known : ∀ place ∈ places, Locale.isRecognized place.2 = true
  full : ∀ place ∈ places, place.1 ≠ ""
  fresh : ∀ directory, (freshCatalog directory found).IsFresh
  unlinked : ∀ place ∈ places, tree.Unlinked (stagingName place.2)
  settled : ∀ turn ∈ turnsFrom options found tree places, (turn.fresh found).isEmpty = false →
    turn.IsSettled options found last

namespace Steady

variable {tree last : FileTree} {place : String × String} {places : List (String × String)}

private theorem head_cases (run : Steady options found tree (place :: places) last) :
    let fresh := freshCatalog place.1 found
    let turn : Turn := ⟨tree, place.1, place.2⟩
    let next := (performWrite options found tree place).2
    isWritten (turn.result options found) = false ∧ turn.target? options found = none ∧
        Spares tree next place.2 none ∨
      isWritten (turn.result options found) = true ∧ fresh.isEmpty = false ∧ ∃ existing home,
        existingCatalog tree options.overwrite (filePath place.1 place.2) place.2 = .ok existing ∧
          Stores tree next place.1 place.2 (existing.merge fresh).render home ∧
            turn.target? options found = some (home ++ [fileName place.2]) := by
  intro fresh turn next
  have known := run.known place (by simp)
  rcases @performWrite_cases options found tree place.1 place.2 known
    (run.unlinked place (by simp)) with
    ⟨unwritten, spares⟩ | ⟨written, filled, existing, home, old, stores⟩
  · have undone : isWritten (turn.result options found) = false := unwritten
    exact Or.inl ⟨unwritten, by rw [Turn.target?, undone, if_neg Bool.false_ne_true], spares⟩
  · have done : isWritten (turn.result options found) = true := written
    obtain ⟨names, text, there⟩ := (run.settled turn (by simp [turnsFrom, turn]) filled).there done
    obtain ⟨other, way, spot⟩ := FileTree.exists_wayIn_of_locate
      (Catalog.piecesOf_filePath known place.1) (Catalog.isName_fileName known) there
    obtain rfl := stores.after other way
    obtain ⟨rfl, -⟩ := FileTree.item?_of_spotAt_item spot
    refine Or.inr ⟨written, filled, existing, other, old, stores, ?_⟩
    rw [Turn.target?, done, if_pos rfl, there]

private theorem tail (run : Steady options found tree (place :: places) last) :
    Steady options found (performWrite options found tree place).2 places last := by
  refine ⟨fun other ho => run.known other (by simp [ho]), fun other ho => run.full other (by simp [ho]),
    run.fresh, fun other ho => ?_, fun turn ht => run.settled turn (by simp [turnsFrom, ht])⟩
  have unlinked := run.unlinked other (by simp [ho])
  rcases run.head_cases with ⟨-, -, spares⟩ | ⟨-, -, existing, home, -, stores, -⟩
  · exact FileTree.unlinked_of_links spares.links unlinked
  · exact FileTree.unlinked_of_links stores.spares.links unlinked

private theorem head_catalog (run : Steady options found tree (place :: places) last)
    {locale : String} (known : Locale.isRecognized locale = true) {home : Names} {text : String}
    (there : tree.item? (home ++ [fileName locale]) = some (.file (.text text))) :
    let names := home ++ [fileName locale]
    let next := (performWrite options found tree place).2
    next.item? names = tree.item? names ∨
      Turn.target? options found ⟨tree, place.1, place.2⟩ = some names ∧
        Descends (!options.overwrite) tree next names locale := by
  intro names next
  have kept : ∀ written : Option Names, Spares tree next place.2 written → some names ≠ written →
      next.item? names = tree.item? names := by
    intro written spares elsewhere
    have notBeside : names.getLast? ≠ some (stagingName place.2) := by
      simpa [names] using Catalog.fileName_ne_stagingName known
    rcases spares.others names elsewhere notBeside with same | ⟨free, -⟩
    · exact same
    · rw [there] at free
      cases free
  rcases run.head_cases with ⟨-, -, spares⟩ | ⟨-, filled, existing, other, old, stores, target⟩
  · exact Or.inl (kept none spares (by simp))
  -- Only the turn that writes the catalog under the names can change it.
  by_cases here : names = other ++ [fileName place.2]
  swap
  · exact Or.inl (kept _ stores.spares fun same => here (Option.some.inj same))
  obtain ⟨rfl, named⟩ := List.append_inj' here rfl
  obtain rfl : locale = place.2 := Catalog.fileName_injective (List.cons.inj named).1
  refine Or.inr ⟨target, ⟨_, stores.there⟩, fun _ key localized held => ?_⟩
  have lands : tree.Lands (filePath place.1 place.2) (fileName place.2) := by
    intro inner way targetToo linked
    obtain rfl := stores.before inner way
    rw [there] at linked
    cases linked
  rw [heldText_of_merge (run.fresh place.1) (isSound_of_existingCatalog old) stores.there,
    lookup_existing known lands stores.before old] at held
  split at held
  · split at held
    · exact held
    · cases held
  · cases held

private theorem descends_treeAfter (run : Steady options found tree places last) {locale : String}
    (known : Locale.isRecognized locale = true) {home : Names} {text : String}
    (there : tree.item? (home ++ [fileName locale]) = some (.file (.text text))) :
    Descends (!options.overwrite) tree (treeAfter options found tree places)
      (home ++ [fileName locale]) locale := by
  induction places generalizing tree text with
  | nil => exact .of_eq there rfl
  | cons place places ih =>
    have first : Descends (!options.overwrite) tree (performWrite options found tree place).2
        (home ++ [fileName locale]) locale := by
      rcases run.head_catalog known there with same | ⟨-, descends⟩
      · exact .of_eq there same
      · exact descends
    obtain ⟨next, thereNext⟩ := first.there
    exact first.trans (ih run.tail thereNext)

private theorem item?_treeAfter (run : Steady options found tree places last) {locale : String}
    (known : Locale.isRecognized locale = true) {home : Names} {text : String}
    (there : tree.item? (home ++ [fileName locale]) = some (.file (.text text)))
    (untouched : ∀ turn ∈ turnsFrom options found tree places,
      turn.target? options found ≠ some (home ++ [fileName locale])) :
    (treeAfter options found tree places).item? (home ++ [fileName locale]) =
      tree.item? (home ++ [fileName locale]) := by
  induction places generalizing tree with
  | nil => rfl
  | cons place places ih =>
    rcases run.head_catalog known there with same | ⟨target, -⟩
    · rw [treeAfter_cons, ih run.tail (same.trans there)
        fun turn ht => untouched turn (by simp [turnsFrom, ht]), same]
    · exact absurd target (untouched ⟨tree, place.1, place.2⟩ (by simp [turnsFrom]))

private theorem links_treeAfter (run : Steady options found tree places last) (other : Names)
    (target : String)
    (linked : (treeAfter options found tree places).item? other = some (.link target)) :
    tree.item? other = some (.link target) := by
  induction places generalizing tree with
  | nil => exact linked
  | cons place places ih =>
    have next := ih run.tail linked
    rcases run.head_cases with ⟨-, -, spares⟩ | ⟨-, -, existing, home, -, stores, -⟩
    · exact spares.links other target next
    · exact stores.spares.links other target next

end Steady

def Turn.summary (options : Options) (found : List Outcome) (turn : Turn) : String × String × Bool :=
  (turn.directory, turn.locale, isWritten (turn.result options found))

/-- A tree in a second run, which starts in the last tree of a first one, when the first run is at a tree
with places that are left: what differs from the last tree is the text of catalogs that are still to be
written, and the texts of their keys are the same. -/
structure Retraces (options : Options) (found : List Outcome) (tree : FileTree)
    (places : List (String × String)) (last current : FileTree) : Prop where
  outline : FileTree.SameOutline current last
  texts : options.overwrite = false → ∀ home locale, Locale.isRecognized locale = true → ∀ key,
    heldText current (home ++ [fileName locale]) locale key =
      heldText last (home ++ [fileName locale]) locale key
  pending : ∀ names, current.item? names = last.item? names ∨
    ∃ turn ∈ turnsFrom options found tree places, turn.target? options found = some names

namespace Retraces

variable {tree last current : FileTree} {place : String × String} {places : List (String × String)}

private theorem next_of_eq (retraces : Retraces options found tree (place :: places) last current)
    (untouched : Turn.target? options found ⟨tree, place.1, place.2⟩ = none) {later : FileTree}
    (placeSame : later.place = current.place)
    (same : ∀ names, later.item? names = current.item? names) :
    Retraces options found (performWrite options found tree place).2 places last later := by
  refine ⟨⟨placeSame.trans retraces.outline.place, fun names => ?_⟩, ?_, fun names => ?_⟩
  · rw [same]
    exact retraces.outline.items names
  · intro keeps home locale known key
    rw [heldText_congr (same _)]
    exact retraces.texts keeps home locale known key
  · rw [same]
    rcases retraces.pending names with settled | ⟨turn, ht, target⟩
    · exact Or.inl settled
    · rcases List.mem_cons.mp ht with rfl | ht
      · rw [untouched] at target
        cases target
      · exact Or.inr ⟨turn, ht, target⟩

/-- A turn that writes its catalog in both runs: in the first one over a catalog that was there, and in the
second one over another that has the texts which the current tree holds. -/
structure Rewrites (options : Options) (found : List Outcome) (tree : FileTree)
    (place : String × String) (current later : FileTree) (existing again : Catalog) (home : Names) :
    Prop where
  old : existingCatalog tree options.overwrite (filePath place.1 place.2) place.2 = .ok existing
  stores : Stores tree (performWrite options found tree place).2 place.1 place.2
    (existing.merge (freshCatalog place.1 found)).render home
  target : Turn.target? options found ⟨tree, place.1, place.2⟩ = some (home ++ [fileName place.2])
  sound : again.IsSound
  texts : ∀ key, again.texts.lookup key = if options.overwrite = false then
    heldText current (home ++ [fileName place.2]) place.2 key else none
  placeSame : later.place = current.place
  items : ∀ names, later.item? names = if names = home ++ [fileName place.2] then
    some (.file (.text (again.merge (freshCatalog place.1 found)).render))
    else current.item? names

namespace Rewrites

variable {later : FileTree} {existing again : Catalog} {home : Names}
  (rewrites : Rewrites options found tree place current later existing again home)
  (run : Steady options found tree (place :: places) last)
  (ends : treeAfter options found tree (place :: places) = last)
  (retraces : Retraces options found tree (place :: places) last current)

include rewrites

private theorem there : later.item? (home ++ [fileName place.2]) =
    some (.file (.text (again.merge (freshCatalog place.1 found)).render)) := by
  rw [rewrites.items, if_pos rfl]

include run

private theorem heldText_next (key : String) :
    heldText (performWrite options found tree place).2 (home ++ [fileName place.2]) place.2 key =
      if key ∈ (freshCatalog place.1 found).keys then existing.texts.lookup key else none :=
  heldText_of_merge (run.fresh place.1) (isSound_of_existingCatalog rewrites.old)
    rewrites.stores.there place.2 key

include ends

private theorem descends :
    Descends (!options.overwrite) (performWrite options found tree place).2 last
      (home ++ [fileName place.2]) place.2 := by
  have descends := run.tail.descends_treeAfter (run.known place (by simp)) rewrites.stores.there
  rwa [← treeAfter_cons, ends] at descends

include retraces

private theorem outline : FileTree.SameOutline later last := by
  refine ⟨rewrites.placeSame.trans retraces.outline.place, fun names => ?_⟩
  rw [rewrites.items]
  split
  · rename_i here
    obtain ⟨text, final⟩ := (rewrites.descends run ends).there
    rw [here, final]
    rfl
  · exact retraces.outline.items names

private theorem heldText_later (keeps : options.overwrite = false) (key : String) :
    heldText later (home ++ [fileName place.2]) place.2 key =
      heldText last (home ++ [fileName place.2]) place.2 key := by
  have known := run.known place (by simp)
  rw [heldText_of_merge (run.fresh place.1) rewrites.sound rewrites.there, rewrites.texts, if_pos keeps,
    retraces.texts keeps home place.2 known key]
  split
  · rfl
  · rename_i absent
    cases held : heldText last (home ++ [fileName place.2]) place.2 key with
    | none => rfl
    | some localized =>
      have before := (rewrites.descends run ends).shrinks (by simp [keeps]) key localized held
      rw [rewrites.heldText_next run, if_neg absent] at before
      cases before

private theorem item?_later (untouched : ∀ turn ∈ turnsFrom options found
      (performWrite options found tree place).2 places,
      turn.target? options found ≠ some (home ++ [fileName place.2])) :
    later.item? (home ++ [fileName place.2]) = last.item? (home ++ [fileName place.2]) := by
  have known := run.known place (by simp)
  have final := run.tail.item?_treeAfter known rewrites.stores.there untouched
  rw [← treeAfter_cons, ends] at final
  have texts : ∀ key ∈ (freshCatalog place.1 found).keys,
      again.texts.lookup key = existing.texts.lookup key := by
    intro key member
    rw [rewrites.texts]
    split
    · rename_i keeps
      rw [retraces.texts keeps home place.2 known key, heldText_congr final,
        rewrites.heldText_next run, if_pos member]
    · rename_i drops
      have empty : Catalog.empty place.2 = existing := by
        simpa [existingCatalog, drops] using rewrites.old
      rw [← empty]
      rfl
  rw [rewrites.there, final, rewrites.stores.there,
    Catalog.render_merge_congr rewrites.sound (isSound_of_existingCatalog rewrites.old) texts]

private theorem retraces_later :
    Retraces options found (performWrite options found tree place).2 places last later := by
  refine ⟨rewrites.outline run ends retraces, fun keeps inner locale known key => ?_, fun names => ?_⟩
  · by_cases here : inner ++ [fileName locale] = home ++ [fileName place.2]
    · obtain ⟨rfl, named⟩ := List.append_inj' here rfl
      obtain rfl : locale = place.2 := Catalog.fileName_injective (List.cons.inj named).1
      exact rewrites.heldText_later run ends retraces keeps key
    · have kept := rewrites.items (inner ++ [fileName locale])
      rw [if_neg here] at kept
      rw [heldText_congr kept]
      exact retraces.texts keeps inner locale known key
  · by_cases here : names = home ++ [fileName place.2]
    · subst here
      by_cases untouched : ∀ turn ∈ turnsFrom options found
          (performWrite options found tree place).2 places,
          turn.target? options found ≠ some (home ++ [fileName place.2])
      · exact Or.inl (rewrites.item?_later run ends retraces untouched)
      · right
        simpa using untouched
    · rw [rewrites.items, if_neg here]
      rcases retraces.pending names with settled | ⟨turn, ht, targets⟩
      · exact Or.inl settled
      · rcases List.mem_cons.mp ht with rfl | ht
        · exact absurd (Option.some.inj (targets.symm.trans rewrites.target)) here
        · exact Or.inr ⟨turn, ht, targets⟩

end Rewrites

/-- A turn does in the second run what it has done in the first one. -/
private theorem next (run : Steady options found tree (place :: places) last)
    (ends : treeAfter options found tree (place :: places) = last)
    (retraces : Retraces options found tree (place :: places) last current) :
    let first := performWrite options found tree place
    let again := performWrite options found current place
    isWritten again.1 = isWritten first.1 ∧ Retraces options found first.2 places last again.2 := by
  intro first again
  have known := run.known place (by simp)
  have full := run.full place (by simp)
  have unlinked := run.unlinked place (by simp)
  cases filled : (freshCatalog place.1 found).isEmpty with
  | true =>
    obtain ⟨unwritten, -⟩ := performWrite_of_isEmpty filled options tree place.2
    obtain ⟨unwrittenAgain, same⟩ := performWrite_of_isEmpty filled options current place.2
    have untouched : Turn.target? options found ⟨tree, place.1, place.2⟩ = none := by
      rw [Turn.target?, Turn.result, unwritten, if_neg Bool.false_ne_true]
    refine ⟨unwrittenAgain.trans unwritten.symm, retraces.next_of_eq untouched ?_ fun names => ?_⟩
    · exact congrArg FileTree.place same
    · exact congrArg (FileTree.item? · names) same
  | false =>
    -- In the second run the paths of the turn lead to what they led to after the first one.
    have settled := run.settled ⟨tree, place.1, place.2⟩ (by simp [turnsFrom]) filled
    have stays : ∀ path ∈ Catalog.pathsOf (filePath place.1 place.2), ∀ followsLast,
        current.leadsTo followsLast path =
          (performWrite options found tree place).2.leadsTo followsLast path := by
      intro path hp followsLast
      rw [retraces.outline.leadsTo]
      exact settled.stays path hp followsLast
    have unlinkedCurrent : current.Unlinked (stagingName place.2) := by
      refine FileTree.unlinked_of_links (fun other target linked => ?_) unlinked
      have final := retraces.outline.item?_link linked
      rw [← ends] at final
      exact run.links_treeAfter other target final
    rcases run.head_cases with
      ⟨unwritten, untouched, -⟩ | ⟨written, -, existing, home, old, stores, target⟩
    · obtain ⟨unwrittenAgain, placeSame, items⟩ :=
        performWrite_again_of_not_isWritten known full filled stays unlinked unwritten
      exact ⟨unwrittenAgain.trans unwritten.symm, retraces.next_of_eq untouched placeSame items⟩
    · obtain ⟨names, content, there⟩ := settled.there written
      obtain ⟨other, sound, texts, writtenAgain, placeSame, items⟩ :=
        performWrite_again_of_isWritten known full filled stays unlinkedCurrent stores there
      have rewrites : Rewrites options found tree place current again.2 existing other home :=
        ⟨old, stores, target, sound, texts, placeSame, items⟩
      exact ⟨writtenAgain.trans written.symm, rewrites.retraces_later run ends retraces⟩

/-- A second run comes to the last tree of the first one, and writes the same catalogs. -/
theorem item?_treeAfter (run : Steady options found tree places last)
    (ends : treeAfter options found tree places = last)
    (retraces : Retraces options found tree places last current) :
    let again := treeAfter options found current places
    again.place = last.place ∧ (∀ names, again.item? names = last.item? names) ∧
      (turnsFrom options found current places).map (Turn.summary options found) =
        (turnsFrom options found tree places).map (Turn.summary options found) := by
  induction places generalizing tree current with
  | nil =>
    refine ⟨retraces.outline.place, fun names => ?_, rfl⟩
    rcases retraces.pending names with settled | ⟨turn, ht, -⟩
    · exact settled
    · cases ht
  | cons place places ih =>
    obtain ⟨written, rest⟩ := retraces.next run ends
    obtain ⟨final, items, summaries⟩ := ih run.tail ends rest
    refine ⟨final, items, ?_⟩
    have head : Turn.summary options found ⟨current, place.1, place.2⟩ =
        Turn.summary options found ⟨tree, place.1, place.2⟩ :=
      congrArg (fun wrote => (place.1, place.2, wrote)) written
    rw [turnsFrom, turnsFrom, List.map_cons, List.map_cons, summaries, head]

end Retraces

end Phrasebook.Extraction
