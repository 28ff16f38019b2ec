import Phrasebook.Proofs.Extraction.Ready
import Phrasebook.Proofs.Extraction.Sharing

/-!
What an extraction keeps: the messages that it has found, and their texts.
-/

set_option autoImplicit false

namespace Phrasebook.Extraction

open Catalog (filePath fileName)

def textIn? (tree : FileTree) (path locale key : String) : Option String :=
  match tree.readText path with
  | .ok text => (Catalog.parse text locale).texts.lookup key
  | .error _ => none

/-- The catalog at a path holds a key in the later tree, with the text that it had before, if any. -/
def IsKept (before after : FileTree) (path locale key : String) : Prop :=
  (∃ text, after.readText path = .ok text ∧ key ∈ (Catalog.parse text locale).keys) ∧
    ∀ localized, textIn? before path locale key = some localized →
      textIn? after path locale key = some localized

section Named

variable {tree : FileTree} {path name locale key : String}
  (last : (FileTree.piecesOf path).getLast? = some name) (proper : FileTree.IsName name)
  (unlinked : tree.Unlinked name)

include last proper unlinked

theorem textIn?_eq_heldText {home : Names} (way : tree.wayIn path = .ok home) :
    textIn? tree path locale key = heldText tree (home ++ [name]) locale key := by
  cases there : tree.textAt (home ++ [name]) with
  | some text =>
    have read := (FileTree.readText_eq_ok_iff last proper unlinked).mpr
      ⟨home, way, FileTree.textAt_eq_some_iff.mp there⟩
    rw [textIn?, read, heldText, there]
    rfl
  | none =>
    rw [heldText, there, textIn?]
    cases read : tree.readText path with
    | error fault => rfl
    | ok text =>
      obtain ⟨other, wayToo, item⟩ := (FileTree.readText_eq_ok_iff last proper unlinked).mp read
      obtain rfl : home = other := Except.ok.inj (way.symm.trans wayToo)
      rw [FileTree.textAt_eq_some_iff.mpr item] at there
      cases there

theorem heldText_of_textIn? {later : FileTree} (keeps : tree.Keeps later) {home : Names}
    (way : later.wayIn path = .ok home) {localized : String}
    (h : textIn? tree path locale key = some localized) :
    heldText tree (home ++ [name]) locale key = some localized := by
  cases first : tree.wayIn path with
  | ok other =>
    obtain rfl : other = home :=
      Except.ok.inj ((FileTree.wayIn_of_keeps keeps first).symm.trans way)
    rwa [← textIn?_eq_heldText last proper unlinked first]
  | error fault =>
    unfold textIn? at h
    cases read : tree.readText path with
    | error fault => simp [read] at h
    | ok text =>
      obtain ⟨other, wayToo, -⟩ := (FileTree.readText_eq_ok_iff last proper unlinked).mp read
      rw [first] at wayToo
      cases wayToo

end Named

namespace Smooth

variable {options : Options} {found : List Outcome} {tree : FileTree}
  {places : List (String × String)}

private theorem exists_last (run : Smooth options found tree places) {turn : Turn}
    (member : turn ∈ turnsFrom options found tree places)
    (full : (turn.fresh found).isEmpty = false) :
    let after := treeAfter options found tree places
    ∃ last text, (writers options found tree places (after.namesOf? turn.path)).getLast? =
        some last ∧
      after.readText turn.path = .ok text ∧
        (Catalog.parse text turn.locale).keys.Perm (last.fresh found).keys := by
  intro after
  have mine := run.locale_mem member
  have known := run.known _ mine
  obtain ⟨home, _, way, -, leads⟩ := run.exists_namesOf? member full
  have writes : turn ∈ writers options found tree places (after.namesOf? turn.path) := by
    simp [writers, member, full, after]
  obtain ⟨last, final⟩ := Option.ne_none_iff_exists'.mp
    (mt List.getLast?_eq_none_iff.mp (List.ne_nil_of_mem writes))
  rw [leads] at final
  obtain ⟨text, there, keys⟩ := run.exists_keys mine final
  refine ⟨last, text, by rwa [leads], ?_, keys⟩
  exact (FileTree.readText_eq_ok_iff (Catalog.piecesOf_filePath known _)
    (Catalog.isName_fileName known) (run.plain_treeAfter _ mine).target).mpr
      ⟨home, way, FileTree.textAt_eq_some_iff.mp there⟩

private theorem textIn?_of_textIn? (run : Smooth options found tree places) {turn : Turn}
    (member : turn ∈ turnsFrom options found tree places)
    (full : (turn.fresh found).isEmpty = false) {key localized : String}
    (old : textIn? tree turn.path turn.locale key = some localized) :
    let after := treeAfter options found tree places
    textIn? after turn.path turn.locale key =
      if ∀ other ∈ writers options found tree places (after.namesOf? turn.path),
        other.Carries found key then some localized
      else none := by
  intro after
  have mine := run.locale_mem member
  have known := run.known _ mine
  have last := Catalog.piecesOf_filePath known turn.directory
  have proper := Catalog.isName_fileName known
  obtain ⟨home, _, way, -, leads⟩ := run.exists_namesOf? member full
  have held := heldText_of_textIn? last proper (run.plain _ mine).target run.keeps way old
  have final : textIn? after turn.path turn.locale key =
      heldText after (home ++ [fileName turn.locale]) turn.locale key :=
    textIn?_eq_heldText last proper (run.plain_treeAfter _ mine).target way
  rw [final, run.heldText_treeAfter mine home key, held, leads]

/-- A key is kept if the last turn has found it, and each one has carried it over if it had a text. -/
theorem isKept_iff_of_mem (run : Smooth options found tree places) {turn : Turn}
    (member : turn ∈ turnsFrom options found tree places)
    (full : (turn.fresh found).isEmpty = false) (key : String) :
    let after := treeAfter options found tree places
    let sharing := writers options found tree places (after.namesOf? turn.path)
    IsKept tree after turn.path turn.locale key ↔
      (∀ last, sharing.getLast? = some last → key ∈ (last.fresh found).keys) ∧
        ((textIn? tree turn.path turn.locale key).isSome = true →
          ∀ other ∈ sharing, other.Carries found key) := by
  intro after sharing
  obtain ⟨last, text, final, read, keys⟩ := run.exists_last member full
  have inside : (∃ text, after.readText turn.path = .ok text ∧
      key ∈ (Catalog.parse text turn.locale).keys) ↔ key ∈ (last.fresh found).keys := by
    rw [← keys.mem_iff]
    constructor
    · rintro ⟨other, readToo, member⟩
      obtain rfl : text = other := Except.ok.inj (read.symm.trans readToo)
      exact member
    · exact fun member => ⟨text, read, member⟩
  have stays : ∀ localized, textIn? tree turn.path turn.locale key = some localized →
      (textIn? after turn.path turn.locale key = some localized ↔
        ∀ other ∈ sharing, other.Carries found key) := by
    intro localized old
    rw [run.textIn?_of_textIn? member full old]
    simp [sharing, after]
  refine and_congr ?_ ?_
  · rw [inside]
    constructor
    · intro member other same
      obtain rfl : last = other := Option.some.inj (final.symm.trans same)
      exact member
    · exact fun all => all last final
  · constructor
    · intro kept old
      obtain ⟨localized, old⟩ := Option.isSome_iff_exists.mp old
      exact (stays localized old).mp (kept localized old)
    · intro carried localized old
      exact (stays localized old).mpr (carried (by rw [old]; rfl))

end Smooth

section Whole

variable (options : Options) (files : List String) (tree : FileTree)

def treeAfterAll : FileTree := ((extract options files).run tree).2

/-- The turns of an extraction that write the catalog that a path leads to in the end. -/
def sharing (path : String) : List Turn :=
  let found := outcomes tree options files
  writers options found tree (writes options found) ((treeAfterAll options files tree).namesOf? path)

/-- What it takes to keep a key in the catalog at a path: of the turns that share the catalog, the last
one has found the key, and all of them have carried it over if it had a text. -/
structure IsSafe (path locale key : String) : Prop where
  short : path.utf8ByteSize < FileTree.pathLimit
  found : ∀ last, (sharing options files tree path).getLast? = some last →
    key ∈ (last.fresh (outcomes tree options files)).keys
  carried : (textIn? tree path locale key).isSome = true →
    ∀ turn ∈ sharing options files tree path, turn.Carries (outcomes tree options files) key

/-- What is asked of an extraction: that it keeps the texts of known locales, that files have names of
one line, and that no link stands for a catalog. -/
structure IsOrdinary : Prop where
  known : ∀ locale ∈ options.locales, Locale.isRecognized locale = true
  keepsTexts : options.overwrite = false
  lines : ∀ file ∈ files, '\n' ∉ ((Path.fileName? file).getD file).toList
  plain : ∀ locale ∈ options.locales, tree.Plain locale

end Whole

section Kept

variable {options : Options} {files : List String} {tree : FileTree}

theorem mem_writes {found : List Outcome} {place : String × String} :
    place ∈ writes options found ↔ place.1 ∈ directoriesOf found ∧ place.2 ∈ options.locales := by
  simp [writes, Prod.ext_iff, eq_comm]

theorem smooth_of_failures (ordinary : IsOrdinary options files tree)
    (clean : ((extract options files).run tree).1.failures = []) :
    Smooth options (outcomes tree options files) tree
      (writes options (outcomes tree options files)) := by
  refine ⟨ordinary.known, ordinary.keepsTexts, ?_, ?_, ordinary.plain, ?_⟩
  · exact isFresh_freshCatalog fun outcome ho => ordinary.lines _ (mem_outcomes.mp ho).1
  · exact fun place hp => (mem_writes.mp hp).2
  · intro turn ht
    rw [failures_extract, List.append_eq_nil_iff, List.flatMap_eq_nil_iff] at clean
    have silent := clean.2 turn ht
    unfold Turn.failures at silent
    split at silent
    · rename_i count done
      exact ⟨count, done⟩
    · cases silent

private theorem exists_turn_of_message {file directory locale : String} (member : file ∈ files)
    (routed : outputDirectory file options.directory = .ok directory) {scan : Script.Scan}
    (searched : scanFile tree options.markers file = .ok scan) {message : Script.Message}
    (found : message ∈ scan.messages) (target : locale ∈ options.locales) :
    ∃ turn ∈ turns options files tree, Path.parts directory = Path.parts turn.directory ∧
      turn.locale = locale ∧ (turn.fresh (outcomes tree options files)).isEmpty = false := by
  have here : (⟨file, directory, .ok scan⟩ : Outcome) ∈ outcomes tree options files :=
    mem_outcomes.mpr ⟨member, routed, searched⟩
  obtain ⟨spelled, hs, same⟩ := exists_mem_directoriesOf here
  simp only at same
  have ofPlace : (spelled, locale) ∈ writes options (outcomes tree options files) :=
    mem_writes.mpr ⟨hs, target⟩
  obtain ⟨turn, ht, rfl, rfl⟩ :=
    exists_turn_of_mem options (outcomes tree options files) ofPlace tree
  have inside := mem_keys_freshCatalog here rfl found (literal_ne_empty_of_scanFile searched found)
  rw [freshCatalog_congr same] at inside
  exact ⟨turn, ht, same, rfl, isEmpty_of_mem_keys inside⟩

/-- A message that an extraction without failures has found is kept in the catalog of its file exactly
if the turns that share the catalog carry it to the end. -/
theorem isKept_iff (ordinary : IsOrdinary options files tree)
    (clean : ((extract options files).run tree).1.failures = []) {file directory locale : String}
    (member : file ∈ files) (routed : outputDirectory file options.directory = .ok directory)
    {scan : Script.Scan} (searched : scanFile tree options.markers file = .ok scan)
    {message : Script.Message} (found : message ∈ scan.messages)
    (target : locale ∈ options.locales) :
    let path := filePath directory locale
    IsKept tree (treeAfterAll options files tree) path locale message.literal ↔
      IsSafe options files tree path locale message.literal := by
  intro path
  have run := smooth_of_failures ordinary clean
  have known := ordinary.known locale target
  obtain ⟨turn, ht, same, rfl, full⟩ :=
    exists_turn_of_message member routed searched found target
  obtain ⟨home, _, way, -⟩ := run.exists_wayIn ht full
  have after : treeAfterAll options files tree = treeAfter options (outcomes tree options files) tree
      (writes options (outcomes tree options files)) := tree_extract options files tree
  by_cases short : path.utf8ByteSize < FileTree.pathLimit
  · have locates : ∀ other : FileTree, other.locate true path = other.locate true turn.path :=
      fun other => (Catalog.alike_filePath same (outputDirectory_ne_empty routed) short
        (FileTree.short_of_wayIn way)).locate_eq other true
    have reads : ∀ other : FileTree, other.readText path = other.readText turn.path :=
      fun other => FileTree.readText_congr (locates other)
    have shares : sharing options files tree path =
        writers options (outcomes tree options files) tree
          (writes options (outcomes tree options files))
          ((treeAfterAll options files tree).namesOf? turn.path) := by
      rw [sharing, FileTree.namesOf?, FileTree.resolve, locates]
      rfl
    have texts : ∀ other : FileTree, textIn? other path turn.locale message.literal =
        textIn? other turn.path turn.locale message.literal := by
      intro other
      rw [textIn?, textIn?, reads]
    have kept := run.isKept_iff_of_mem ht full message.literal
    simp only [← after, ← shares, ← texts] at kept
    rw [IsKept, reads, texts, texts]
    exact kept.trans ⟨fun all => ⟨short, all.1, all.2⟩, fun safe => ⟨safe.found, safe.carried⟩⟩
  · -- The turn may spell the directory shorter, but nothing is read under this path.
    refine iff_of_false ?_ fun safe => short safe.short
    rintro ⟨⟨text, read, -⟩, -⟩
    exact short (FileTree.short_of_readText read)

end Kept

/-! ### Two directories that share one -/

def siblingTree : FileTree where
  items := [(["a"], .directory), (["a", "x.ts"], .file (.text "_(\"A\");")),
    (["b"], .directory), (["b", "y.ts"], .file (.text "_(\"B\");")), (["locales"], .directory)]

def siblingFiles : List String := ["a/x.ts", "b/y.ts"]

def siblingOptions : Options := { locales := ["fr"], directory := "../locales" }

namespace Sibling

private theorem unlinked (name : String) : siblingTree.Unlinked name :=
  FileTree.unlinked_of_items (by simp [siblingTree]) name

private theorem ordinary : IsOrdinary siblingOptions siblingFiles siblingTree :=
  ⟨by decide, rfl, by decide, fun _ _ => ⟨unlinked _, unlinked _⟩⟩

private def scanOf (literal : String) : Script.Scan := ⟨[⟨literal, 1, [], false, false⟩], []⟩

private theorem scanFile_x : scanFile siblingTree {} "a/x.ts" = .ok (scanOf "A") := by
  have last : (FileTree.piecesOf "a/x.ts").getLast? = some "x.ts" := by decide
  have way : siblingTree.wayIn "a/x.ts" = .ok ["a"] :=
    FileTree.wayIn_of_descend (by decide) (by decide)
  have there : siblingTree.item? ["a", "x.ts"] = some (.file (.text "_(\"A\");")) := by decide
  exact scanFile_eq_ok last ⟨by decide, by decide, by decide, by decide⟩ (unlinked _) way there
    (by decide +kernel)

private theorem scanFile_y : scanFile siblingTree {} "b/y.ts" = .ok (scanOf "B") := by
  have last : (FileTree.piecesOf "b/y.ts").getLast? = some "y.ts" := by decide
  have way : siblingTree.wayIn "b/y.ts" = .ok ["b"] :=
    FileTree.wayIn_of_descend (by decide) (by decide)
  have there : siblingTree.item? ["b", "y.ts"] = some (.file (.text "_(\"B\");")) := by decide
  exact scanFile_eq_ok last ⟨by decide, by decide, by decide, by decide⟩ (unlinked _) way there
    (by decide +kernel)

private theorem outcomes_eq : outcomes siblingTree siblingOptions siblingFiles =
    [⟨"a/x.ts", "a/../locales", .ok (scanOf "A")⟩,
      ⟨"b/y.ts", "b/../locales", .ok (scanOf "B")⟩] := by
  have routedX : outputDirectory "a/x.ts" siblingOptions.directory = .ok "a/../locales" := by rfl
  have routedY : outputDirectory "b/y.ts" siblingOptions.directory = .ok "b/../locales" := by rfl
  simp only [outcomes, siblingFiles, List.filterMap_cons, List.filterMap_nil, routedX, routedY]
  rw [← scanFile_x, ← scanFile_y]
  rfl

private theorem writes_eq :
    writes siblingOptions (outcomes siblingTree siblingOptions siblingFiles) =
      [("a/../locales", "fr"), ("b/../locales", "fr")] := by
  rw [outcomes_eq]
  decide

private theorem ready {directory : String}
    (member : directory = "a/../locales" ∨ directory = "b/../locales") :
    Ready siblingTree directory "fr" ["locales"] ["locales"] := by
  rcases member with rfl | rfl
  · exact ready_of_descend (by decide) (by decide) (by decide)
      (by decide) (by decide)
  · exact ready_of_descend (by decide) (by decide) (by decide)
      (by decide) (by decide)

private theorem failures_eq_nil :
    ((extract siblingOptions siblingFiles).run siblingTree).1.failures = [] := by
  have searched : (searchReport siblingOptions siblingFiles
      (outcomes siblingTree siblingOptions siblingFiles)).failures = [] := by
    rw [outcomes_eq]
    decide
  have places : ∀ place ∈ writes siblingOptions (outcomes siblingTree siblingOptions siblingFiles),
      place.2 = "fr" ∧ (place.1 = "a/../locales" ∨ place.1 = "b/../locales") := by
    rw [writes_eq]
    simp
  have succeeds : ∀ turn ∈ turns siblingOptions siblingFiles siblingTree, ∃ count,
      turn.result siblingOptions (outcomes siblingTree siblingOptions siblingFiles) = .ok count := by
    refine succeeds_of_ready rfl _ (fun place hp => ?_) (fun place hp => ?_) fun place hp => ?_
    · rw [(places place hp).1]
      decide
    · exact ⟨unlinked _, unlinked _⟩
    · rw [(places place hp).1]
      exact ⟨_, _, ready (places place hp).2⟩
  rw [failures_extract, searched, List.nil_append, List.flatMap_eq_nil_iff]
  intro turn ht
  obtain ⟨count, done⟩ := succeeds turn ht
  rw [Turn.failures, done]

private theorem run : Smooth siblingOptions (outcomes siblingTree siblingOptions siblingFiles)
    siblingTree (writes siblingOptions (outcomes siblingTree siblingOptions siblingFiles)) :=
  smooth_of_failures ordinary failures_eq_nil

private theorem mem_keys {directory literal : String}
    (member : directory = "a/../locales" ∧ literal = "A" ∨ directory = "b/../locales" ∧ literal = "B")
    (key : String) :
    key ∈ (freshCatalog directory (outcomes siblingTree siblingOptions siblingFiles)).keys ↔
      key = literal := by
  have uses : (usesIn directory (outcomes siblingTree siblingOptions siblingFiles)).map
      Catalog.Use.key = [literal] := by
    rw [outcomes_eq]
    rcases member with ⟨rfl, rfl⟩ | ⟨rfl, rfl⟩ <;> decide
  have named : literal ≠ "" := by
    rcases member with ⟨-, rfl⟩ | ⟨-, rfl⟩ <;> decide
  rw [freshCatalog_eq, Catalog.mem_keys_collect, uses, List.mem_singleton]
  constructor
  · exact fun h => h.2
  · rintro rfl
    exact ⟨named, rfl⟩

private theorem full {directory : String}
    (member : directory = "a/../locales" ∨ directory = "b/../locales") :
    (freshCatalog directory (outcomes siblingTree siblingOptions siblingFiles)).isEmpty = false := by
  rcases member with rfl | rfl
  · exact isEmpty_of_mem_keys ((mem_keys (Or.inl ⟨rfl, rfl⟩) "A").mpr rfl)
  · exact isEmpty_of_mem_keys ((mem_keys (Or.inr ⟨rfl, rfl⟩) "B").mpr rfl)

private theorem namesOf?_eq {turn : Turn}
    (member : turn ∈ turns siblingOptions siblingFiles siblingTree) :
    (treeAfterAll siblingOptions siblingFiles siblingTree).namesOf? turn.path =
        some ["locales", "fr.po"] ∧
      (turn.fresh (outcomes siblingTree siblingOptions siblingFiles)).isEmpty = false := by
  obtain ⟨place, hp, directory, locale⟩ := exists_place_of_mem_turnsFrom member
  have known : turn.locale = "fr" ∧
      (turn.directory = "a/../locales" ∨ turn.directory = "b/../locales") := by
    rw [writes_eq] at hp
    rw [directory, locale]
    rcases List.mem_cons.mp hp with rfl | hp
    · simp
    · obtain rfl := List.mem_singleton.mp hp
      simp
  refine ⟨?_, full known.2⟩
  obtain ⟨home, _, there, -, leads⟩ := run.exists_namesOf? member (full known.2)
  have first := FileTree.wayIn_of_keeps run.keeps (ready known.2).way
  rw [Turn.path, known.1] at there
  obtain rfl : home = ["locales"] := Except.ok.inj (there.symm.trans first)
  rw [treeAfterAll, tree_extract, leads, known.1]
  rfl

private theorem sharing_eq {directory : String}
    (member : directory = "a/../locales" ∨ directory = "b/../locales") :
    sharing siblingOptions siblingFiles siblingTree (filePath directory "fr") =
      turns siblingOptions siblingFiles siblingTree := by
  have place : (directory, "fr") ∈
      writes siblingOptions (outcomes siblingTree siblingOptions siblingFiles) := by
    rw [writes_eq]
    simpa using member
  obtain ⟨mine, hm, spelled, locale⟩ := exists_turn_of_mem siblingOptions
    (outcomes siblingTree siblingOptions siblingFiles) place siblingTree
  have path : filePath directory "fr" = mine.path := by rw [Turn.path, spelled, locale]
  rw [sharing, path, (namesOf?_eq hm).1]
  refine List.filter_eq_self.mpr fun turn ht => ?_
  have leads := (namesOf?_eq ht).1
  rw [treeAfterAll, tree_extract] at leads
  simp [leads, (namesOf?_eq ht).2]

private theorem last_turn : ∃ last,
    (turns siblingOptions siblingFiles siblingTree).getLast? = some last ∧
      last.directory = "b/../locales" := by
  rw [turns, writes_eq]
  exact ⟨_, rfl, rfl⟩

end Sibling

theorem isKept_sibling :
    IsKept siblingTree (treeAfterAll siblingOptions siblingFiles siblingTree)
      (filePath "b/../locales" "fr") "fr" "B" := by
  have message : (⟨"B", 1, [], false, false⟩ : Script.Message) ∈ (Sibling.scanOf "B").messages := by
    decide
  refine (isKept_iff Sibling.ordinary Sibling.failures_eq_nil (by decide) rfl Sibling.scanFile_y
    message (by decide)).mpr ⟨by decide, ?_, ?_⟩
  · intro last final
    obtain ⟨other, same, spelled⟩ := Sibling.last_turn
    rw [Sibling.sharing_eq (Or.inr rfl)] at final
    obtain rfl : other = last := Option.some.inj (same.symm.trans final)
    rw [Turn.fresh, spelled]
    exact (Sibling.mem_keys (Or.inr ⟨rfl, rfl⟩) "B").mpr rfl
  · intro old
    have free : siblingTree.textAt ["locales", fileName "fr"] = none := by decide
    rw [textIn?_eq_heldText (Catalog.piecesOf_filePath (by decide) _)
      (Catalog.isName_fileName (by decide)) (Sibling.unlinked _) (Sibling.ready (Or.inr rfl)).way,
      heldText, List.singleton_append, free] at old
    cases old

/-- The message that the first directory holds is in no catalog afterwards, though nothing has failed. -/
theorem not_isKept_sibling :
    IsOrdinary siblingOptions siblingFiles siblingTree ∧
      ((extract siblingOptions siblingFiles).run siblingTree).1.failures = [] ∧
      (∃ scan, scanFile siblingTree siblingOptions.markers "a/x.ts" = .ok scan ∧
        "A" ∈ scan.messages.map Script.Message.literal) ∧
      outputDirectory "a/x.ts" siblingOptions.directory = .ok "a/../locales" ∧
      ¬IsKept siblingTree (treeAfterAll siblingOptions siblingFiles siblingTree)
        (filePath "a/../locales" "fr") "fr" "A" := by
  refine ⟨Sibling.ordinary, Sibling.failures_eq_nil, ⟨_, Sibling.scanFile_x, by decide⟩, rfl, ?_⟩
  have place : ("a/../locales", "fr") ∈
      writes siblingOptions (outcomes siblingTree siblingOptions siblingFiles) := by
    rw [Sibling.writes_eq]
    simp
  obtain ⟨mine, hm, spelled, locale⟩ := exists_turn_of_mem siblingOptions
    (outcomes siblingTree siblingOptions siblingFiles) place siblingTree
  have path : filePath "a/../locales" "fr" = mine.path := by rw [Turn.path, spelled, locale]
  have shares := Sibling.sharing_eq (Or.inl rfl)
  obtain ⟨last, final, there⟩ := Sibling.last_turn
  have kept := Sibling.run.isKept_iff_of_mem hm (Sibling.namesOf?_eq hm).2 "A"
  rw [sharing, path, treeAfterAll, tree_extract] at shares
  simp only [shares, locale] at kept
  rw [path, treeAfterAll, tree_extract]
  intro h
  have found := (kept.mp h).1 last final
  rw [Turn.fresh, there] at found
  have other := (Sibling.mem_keys (Or.inr ⟨rfl, rfl⟩) "A").mp found
  exact absurd other (by decide)

end Phrasebook.Extraction
