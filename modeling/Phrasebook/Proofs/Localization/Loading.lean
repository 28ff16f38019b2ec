import Phrasebook.Proofs.Catalog.File
import Phrasebook.Proofs.Files.Selection
import Phrasebook.Proofs.Localization.Lookups

/-!
What is loaded from a directory: for every recognized locale, the texts of the file that bears its name.
Nothing else in the directory counts, nor does the order in which it is listed.
-/

set_option autoImplicit false

namespace Phrasebook

open FileTree (IsName piecesOf)

namespace Catalog

variable {path name locale : String}

theorem extension?_of_fileName (named : Path.fileName? path = some (fileName locale))
    (full : locale ≠ "") :
    Path.extension? path = some fileExtension ∧ Path.stem? path = some locale := by
  have reversed : (fileName locale).toList.reverse =
      fileExtension.toList.reverse ++ '.' :: locale.toList.reverse := by
    simp [fileName, fileExtension]
  obtain ⟨last, before, split⟩ :=
    List.exists_cons_of_ne_nil (l := locale.toList.reverse) (by simpa using full)
  have whole : (last :: before).reverse = locale.toList := by rw [← split, List.reverse_reverse]
  rw [Path.extension?, Path.stem?, named]
  simp only [Option.bind_eq_bind, Option.bind_some, reversed, split]
  refine ⟨rfl, ?_⟩
  change some (String.ofList (last :: before).reverse) = some locale
  rw [whole, String.ofList_toList]

theorem eq_fileName_of_extension? (named : Path.fileName? path = some name)
    (ends : Path.extension? path = some fileExtension) :
    name = fileName ((Path.stem? path).getD "") := by
  have whole := List.takeWhile_append_dropWhile (p := (· != '.')) (l := name.toList.reverse)
  rw [Path.extension?, named] at ends
  rw [Path.stem?, named]
  simp only [Option.bind_eq_bind, Option.bind_some] at ends ⊢
  split at ends
  · rename_i point last before cut
    have dot : point = '.' := by
      have first := List.head?_dropWhile_not (· != '.') name.toList.reverse
      rw [cut] at first
      simpa using first
    have after : (name.toList.reverse.takeWhile (· != '.')).reverse = fileExtension.toList := by
      rw [← Option.some.inj ends, String.toList_ofList]
    rw [cut] at whole ⊢
    simp only [Option.getD_some]
    rw [← String.toList_inj, ← List.reverse_reverse name.toList, ← whole, List.reverse_append, after,
      dot]
    simp [fileName]
  · cases ends

end Catalog

namespace FileTree

variable {tree : FileTree} {directory name : String} {names : Names}

theorem wayIn_join (there : tree.resolve directory = .ok (names, .directory))
    (unsplit : '/' ∉ name.toList) (sound : pathFault? (Path.join directory name) = none) :
    tree.wayIn (Path.join directory name) = .ok names := by
  have relative := Path.isAbsolute_of_not_mem unsplit
  obtain ⟨pieces, split, same⟩ : ∃ pieces,
      piecesOf (Path.join directory name) = pieces ++ [name] ∧
        pieces.filter Path.isSolid = (piecesOf directory).filter Path.isSolid := by
    rcases Path.join_cases directory relative with ⟨rfl, -⟩ | ⟨start, rfl, joined⟩ | ⟨-, joined⟩
    · cases there
    · refine ⟨piecesOf start, by rw [joined, piecesOf_append, piecesOf_of_not_mem unsplit], ?_⟩
      have closed := piecesOf_append start ""
      rw [String.append_empty] at closed
      rw [closed, List.filter_append, (by decide : (piecesOf "").filter Path.isSolid = []),
        List.append_nil]
    · exact ⟨piecesOf directory, by rw [joined, piecesOf_append, piecesOf_of_not_mem unsplit], rfl⟩
  rw [wayIn, sound, split, List.dropLast_concat, startOf_join relative, ← enter_walk_filter, same,
    enter_walk_filter]
  have located := resolve_eq_ok.mp there
  rw [locate_eq] at located
  cases fault : pathFault? directory with
  | some fault =>
    rw [fault] at located
    cases located
  | none =>
    rw [fault] at located
    simp only at located
    rw [located]
    rfl

theorem mem_map_childrenOf {item : Item} (there : tree.item? (names ++ [name]) = some item) :
    name ∈ (tree.childrenOf names).map (·.1) := by
  unfold item? at there
  rw [if_neg (by simp)] at there
  obtain ⟨⟨taken, item⟩, found, -⟩ := Option.map_eq_some_iff.mp there
  obtain rfl : taken = names ++ [name] := by simpa using List.find?_some found
  have child : (name, item) ∈ tree.childrenOf names :=
    mem_childrenOf.mpr (List.mem_of_find?_eq_some found)
  exact List.mem_map_of_mem (f := (·.1)) child

theorem mem_childrenOf_of_resolve (there : tree.resolve directory = .ok (names, .directory))
    (proper : IsName name) (unsplit : '/' ∉ name.toList) {other : Names} {item : Item}
    (found : tree.resolve (Path.join directory name) = .ok (other, item)) :
    name ∈ (tree.childrenOf names).map (·.1) := by
  obtain ⟨home, way, taken⟩ := exists_wayIn_of_resolve (piecesOf_join unsplit directory) proper found
  obtain rfl : names = home :=
    Except.ok.inj ((wayIn_join there unsplit (sound_of_wayIn way)).symm.trans way)
  rcases taken with ⟨rfl, there⟩ | ⟨target, linked⟩
  · exact mem_map_childrenOf there
  · exact mem_map_childrenOf linked

end FileTree

namespace Texts

variable {tree : FileTree} {directory locale : String}

def catalogText? (tree : FileTree) (directory locale : String) : Option String :=
  (tree.readText (Catalog.filePath directory locale)).toOption

def textsIn (tree : FileTree) (directory locale : String) : List (String × String) :=
  (catalogText? tree directory locale).elim [] fun text => (Catalog.parse text locale).texts

/-- The texts of a directory that is listed in some order. -/
def loadListed (tree : FileTree) (directory : String) (listing : List (String × Item)) : Texts :=
  listing.foldl (fun texts child => addFile tree texts (Path.join directory child.1)) unfilled

theorem lookup_addFile {name : String} (proper : IsName name) (unsplit : '/' ∉ name.toList)
    (known : Locale.isRecognized locale = true) (texts : Texts) :
    (addFile tree texts (Path.join directory name)).lookup locale =
      if name = Catalog.fileName locale ∧ (catalogText? tree directory locale).isSome then
        some (textsIn tree directory locale)
      else texts.lookup locale := by
  have named := Path.fileName?_of_getLast? proper (FileTree.piecesOf_join unsplit directory)
  by_cases own : name = Catalog.fileName locale
  · subst own
    have full : locale ≠ "" := by
      rintro rfl
      exact absurd known (by decide)
    obtain ⟨ends, stem⟩ := Catalog.extension?_of_fileName named full
    have path : Path.join directory (Catalog.fileName locale) = Catalog.filePath directory locale := rfl
    rw [path] at ends stem ⊢
    rw [addFile, isCatalogPath, stem, ends, Option.getD_some, known]
    cases reads : tree.readText (Catalog.filePath directory locale) with
    | ok text =>
      obtain ⟨names, found⟩ := FileTree.readText_eq_ok.mp reads
      have file : tree.isFile (Catalog.filePath directory locale) = true := by
        rw [FileTree.isFile, found]
      simp [file, textsIn, catalogText?, Catalog.load, reads, Except.toOption, Pairs.lookup_put]
    | error fault => simp [catalogText?, Catalog.load, reads, Except.toOption]
  · rw [if_neg fun both => own both.1, addFile]
    split
    · rename_i catalogPath
      simp only [isCatalogPath, Bool.and_eq_true, beq_iff_eq] at catalogPath
      have other : locale ≠ (Path.stem? (Path.join directory name)).getD "" := by
        intro same
        exact own (same ▸ Catalog.eq_fileName_of_extension? named catalogPath.1.2)
      simp only
      split
      · rw [Pairs.lookup_put, if_neg other]
      · rfl
    · rfl

theorem lookup_foldl_addFile {listing : List (String × Item)}
    (proper : ∀ child ∈ listing, IsName child.1 ∧ '/' ∉ child.1.toList)
    (known : Locale.isRecognized locale = true) (texts : Texts) :
    (listing.foldl (fun texts child => addFile tree texts (Path.join directory child.1)) texts).lookup
        locale =
      if Catalog.fileName locale ∈ listing.map (·.1) ∧ (catalogText? tree directory locale).isSome then
        some (textsIn tree directory locale)
      else texts.lookup locale := by
  induction listing generalizing texts with
  | nil => simp
  | cons child listing ih =>
    obtain ⟨properChild, unsplit⟩ := proper child List.mem_cons_self
    rw [List.foldl_cons, ih (fun other member => proper other (List.mem_cons_of_mem _ member)),
      lookup_addFile properChild unsplit known]
    simp only [List.map_cons, List.mem_cons, eq_comm (a := Catalog.fileName locale)]
    by_cases read : (catalogText? tree directory locale).isSome = true
    · by_cases later : Catalog.fileName locale ∈ listing.map (·.1)
      · simp [read, later]
      · simp [read, later]
    · simp [read]

/-- The texts of a listing that has all catalogs are those of the catalogs. -/
theorem loadListed_eq {listing : List (String × Item)}
    (proper : ∀ child ∈ listing, IsName child.1 ∧ '/' ∉ child.1.toList)
    (complete : ∀ locale, Locale.isRecognized locale = true →
      (catalogText? tree directory locale).isSome → Catalog.fileName locale ∈ listing.map (·.1)) :
    loadListed tree directory listing =
      Locale.recognized.map fun locale => (locale, textsIn tree directory locale) := by
  have isProper : (loadListed tree directory listing).IsProper :=
    List.foldlRecOn listing _ isProper_unfilled fun texts proper child _ => proper.addFile tree _
  have names : (loadListed tree directory listing).map (·.1) = Locale.recognized := isProper.locales
  rw [← names]
  refine Pairs.eq_map_of_lookup (by rw [names]; decide) fun locale member => ?_
  rw [names] at member
  have known : Locale.isRecognized locale = true := List.contains_iff_mem.mpr member
  rw [loadListed, lookup_foldl_addFile proper known]
  split
  · rfl
  · rename_i unread
    have none : catalogText? tree directory locale = none := by
      rw [← Option.not_isSome_iff_eq_none]
      exact fun read => unread ⟨complete locale known read, read⟩
    have bare : unfilled.lookup locale = some [] := (Pairs.lookup_map _ _ _).trans (if_pos member)
    refine bare.trans ?_
    rw [textsIn, none, Option.elim_none]

theorem load_of_not_isDirectory (absent : tree.isDirectory directory = false) :
    load tree directory = [] := by
  rw [load, if_neg (by simp [absent])]

theorem load_eq_loadListed {names : Names} (there : tree.resolve directory = .ok (names, .directory)) :
    load tree directory = loadListed tree directory (tree.childrenOf names) := by
  rw [load, if_pos (FileTree.isDirectory_iff_resolve.mpr ⟨names, there⟩), FileTree.children, there]
  rfl

theorem mem_childrenOf_of_catalogText? {names : Names}
    (there : tree.resolve directory = .ok (names, .directory))
    (known : Locale.isRecognized locale = true)
    (read : (catalogText? tree directory locale).isSome = true) :
    Catalog.fileName locale ∈ (tree.childrenOf names).map (·.1) := by
  cases reads : tree.readText (Catalog.filePath directory locale) with
  | error fault => simp [catalogText?, reads, Except.toOption] at read
  | ok text =>
    obtain ⟨other, found⟩ := FileTree.readText_eq_ok.mp reads
    exact FileTree.mem_childrenOf_of_resolve there (Catalog.isName_fileName known)
      (Catalog.not_mem_fileName known) found

theorem loadListed_of_perm (named : tree.IsNamed) {names : Names}
    (there : tree.resolve directory = .ok (names, .directory)) {listing : List (String × Item)}
    (perm : listing.Perm (tree.childrenOf names)) :
    loadListed tree directory listing =
      Locale.recognized.map fun locale => (locale, textsIn tree directory locale) := by
  refine loadListed_eq (fun child member => ?_) fun locale known read => ?_
  · exact named.of_mem_childrenOf (perm.mem_iff.mp member)
  · exact (perm.map _).mem_iff.mpr (mem_childrenOf_of_catalogText? there known read)

theorem load_eq (named : tree.IsNamed) (there : tree.isDirectory directory = true) :
    load tree directory =
      Locale.recognized.map fun locale => (locale, textsIn tree directory locale) := by
  obtain ⟨names, there⟩ := FileTree.isDirectory_iff_resolve.mp there
  rw [load_eq_loadListed there]
  exact loadListed_of_perm named there (List.Perm.refl _)

/-- Only the catalogs of a directory count. Anything but a directory has no texts. A directory has texts for
the recognized locales: those of the file that bears the name of the locale, or none if there is no such
file or it holds no text. The order in which the directory is listed does not matter, and neither does
what else there is: directories with the same catalog for a locale have the same texts for it, whatever the
catalogs for the others are, and directories with the same catalogs have the same texts. -/
theorem load_of_catalogs {tree : FileTree} (named : tree.IsNamed) (directory : String) :
    (tree.isDirectory directory = false → load tree directory = []) ∧
    (tree.isDirectory directory = true →
      (load tree directory).locales = Locale.recognized ∧
      (∀ locale, Locale.isRecognized locale = true →
        (load tree directory).lookup locale = some (textsIn tree directory locale)) ∧
      ∃ names, tree.resolve directory = .ok (names, .directory) ∧
        ∀ listing, listing.Perm (tree.childrenOf names) →
          loadListed tree directory listing = load tree directory) ∧
    ∀ other : FileTree, other.IsNamed → ∀ elsewhere,
      other.isDirectory elsewhere = tree.isDirectory directory →
      (∀ locale, Locale.isRecognized locale = true →
        catalogText? other elsewhere locale = catalogText? tree directory locale →
        (load other elsewhere).lookup locale = (load tree directory).lookup locale) ∧
      ((∀ locale, Locale.isRecognized locale = true →
        catalogText? other elsewhere locale = catalogText? tree directory locale) →
        load other elsewhere = load tree directory) := by
  have lookups : ∀ {tree : FileTree}, tree.IsNamed → ∀ {directory locale},
      tree.isDirectory directory = true → Locale.isRecognized locale = true →
        (load tree directory).lookup locale = some (textsIn tree directory locale) := by
    intro tree named directory locale there known
    rw [load_eq named there]
    exact (Pairs.lookup_map _ _ _).trans (if_pos (List.contains_iff_mem.mp known))
  refine ⟨load_of_not_isDirectory, fun there => ⟨?_, fun locale => lookups named there, ?_⟩,
    fun other named' elsewhere alike => ?_⟩
  · rw [locales_load, if_pos there]
  · obtain ⟨names, resolved⟩ := FileTree.isDirectory_iff_resolve.mp there
    refine ⟨names, resolved, fun listing perm => ?_⟩
    rw [loadListed_of_perm named resolved perm, load_eq named there]
  · cases there : tree.isDirectory directory with
    | false =>
      rw [load_of_not_isDirectory there, load_of_not_isDirectory (alike.trans there)]
      exact ⟨fun _ _ _ => rfl, fun _ => rfl⟩
    | true =>
      refine ⟨fun locale known same => ?_, fun same => ?_⟩
      · rw [lookups named there known, lookups named' (alike.trans there) known, textsIn, textsIn, same]
      · rw [load_eq named there, load_eq named' (alike.trans there)]
        refine List.map_congr_left fun locale member => ?_
        rw [textsIn, textsIn, same locale (List.contains_iff_mem.mpr member)]

private def greeting : String := "msgid \"Hi\"\nmsgstr \"Salut\"\n"

private def cluttered : FileTree where
  items := [(["l"], .directory), (["l", "base.po"], .directory), (["l", "de.po"], .file (.raw [255])),
    (["l", "fr.po"], .link "new.po"), (["l", "new.po"], .file (.text greeting))]

private def tidy : FileTree where
  items := [(["c"], .directory), (["c", "fr.po"], .file (.text greeting))]

private theorem resolve_cluttered : cluttered.resolve "/l" = .ok (["l"], .directory) :=
  FileTree.resolve_of_descend (by decide) (by decide)

private theorem resolve_tidy : tidy.resolve "/c" = .ok (["c"], .directory) :=
  FileTree.resolve_of_descend (by decide) (by decide)

private theorem isName_po : IsName "fr.po" ∧ IsName "de.po" ∧ IsName "new.po" := by decide

private theorem catalogText?_cluttered_fr : catalogText? cluttered "/l" "fr" = some greeting := by
  have path : Catalog.filePath "/l" "fr" = "/l/fr.po" := by decide
  have pieces : piecesOf "/l/fr.po" = ["", "l"] ++ ["fr.po"] := by decide
  have outer : cluttered.descend (cluttered.startOf "/l/fr.po") ["", "l"] = some ["l"] := by decide
  have link : cluttered.item? (["l"] ++ ["fr.po"]) = some (.link "new.po") := by decide
  have file : cluttered.item? (["l"] ++ ["new.po"]) = some (.file (.text greeting)) := by decide
  have located : cluttered.locate true "/l/fr.po" =
      .ok (.item ["l", "new.po"] (.file (.text greeting))) := by
    rw [FileTree.locate_eq, (by decide : FileTree.pathFault? "/l/fr.po" = none)]
    simp only
    rw [pieces, FileTree.walk_append_of_descend outer, FileTree.linkLimit,
      FileTree.walk_link isName_po.1 (Or.inr rfl) link, if_neg (by decide),
      (by decide : piecesOf "new.po" ++ [] = ["new.po"]), FileTree.walk_file isName_po.2.2 file]
    rfl
  rw [catalogText?, path, FileTree.readText_of_locate_text located]
  rfl

private theorem catalogText?_cluttered_de : catalogText? cluttered "/l" "de" = none := by
  have path : Catalog.filePath "/l" "de" = "/l/de.po" := by decide
  have way : cluttered.wayIn "/l/de.po" = .ok ["l"] :=
    FileTree.wayIn_of_descend (by decide) (by decide)
  have raw : cluttered.item? ["l", "de.po"] = some (.file (.raw [255])) := by decide
  have located := FileTree.locate_of_wayIn (by decide) isName_po.2.1 way (by simp [raw]) true
  simp only [FileTree.spotAt, List.cons_append, List.nil_append, raw] at located
  rw [catalogText?, path, FileTree.readText_of_locate_raw located]
  rfl

private theorem catalogText?_tidy_fr : catalogText? tidy "/c" "fr" = some greeting := by
  have path : Catalog.filePath "/c" "fr" = "/c/fr.po" := by decide
  have way : tidy.wayIn "/c/fr.po" = .ok ["c"] := FileTree.wayIn_of_descend (by decide) (by decide)
  have file : tidy.item? ["c", "fr.po"] = some (.file (.text greeting)) := by decide
  have located := FileTree.locate_of_wayIn (by decide) isName_po.1 way (by simp [file]) true
  simp only [FileTree.spotAt, List.cons_append, List.nil_append, file] at located
  rw [catalogText?, path, FileTree.readText_of_locate_text located]
  rfl

private theorem catalogText?_of_not_mem {names : Names}
    (there : tree.resolve directory = .ok (names, .directory))
    (known : Locale.isRecognized locale = true)
    (absent : names ++ [Catalog.fileName locale] ∉ tree.items.map (·.1)) :
    catalogText? tree directory locale = none := by
  rw [← Option.not_isSome_iff_eq_none]
  intro read
  obtain ⟨child, inside, same⟩ :=
    List.mem_map.mp (mem_childrenOf_of_catalogText? there known read)
  exact absent (same ▸ List.mem_map_of_mem (FileTree.mem_childrenOf.mp inside))

private theorem catalogText?_agree (known : Locale.isRecognized locale = true) :
    catalogText? tidy "/c" locale = catalogText? cluttered "/l" locale := by
  have member : locale ∈ Locale.recognized := List.contains_iff_mem.mp known
  have absent : ∀ locale ∈ Locale.recognized, locale ≠ "fr" →
      ["c"] ++ [Catalog.fileName locale] ∉ tidy.items.map (·.1) ∧
        (locale ≠ "de" → ["l"] ++ [Catalog.fileName locale] ∉ cluttered.items.map (·.1)) := by
    decide
  by_cases french : locale = "fr"
  · rw [french, catalogText?_tidy_fr, catalogText?_cluttered_fr]
  rw [catalogText?_of_not_mem resolve_tidy known (absent locale member french).1]
  by_cases german : locale = "de"
  · rw [german, catalogText?_cluttered_de]
  · rw [catalogText?_of_not_mem resolve_cluttered known ((absent locale member french).2 german)]

theorem load_of_catalogs_of_cluttered :
    load cluttered "/l" = load tidy "/c" ∧
    loadListed cluttered "/l" (cluttered.childrenOf ["l"]).reverse = load tidy "/c" ∧
    (load cluttered "/l").lookup "fr" = some [("Hi", "Salut")] ∧
    (load cluttered "/l").lookup "de" = some [] := by
  have named : cluttered.IsNamed := by decide
  have namedTidy : tidy.IsNamed := by decide
  have there : cluttered.isDirectory "/l" = true :=
    FileTree.isDirectory_iff_resolve.mpr ⟨_, resolve_cluttered⟩
  have thereTidy : tidy.isDirectory "/c" = true :=
    FileTree.isDirectory_iff_resolve.mpr ⟨_, resolve_tidy⟩
  obtain ⟨-, loads, agrees⟩ := load_of_catalogs named "/l"
  obtain ⟨-, lookups, names, resolved, listed⟩ := loads there
  have same := (agrees tidy namedTidy "/c" (thereTidy.trans there.symm)).2 fun _ =>
    catalogText?_agree
  obtain rfl : ["l"] = names := by
    rw [resolve_cluttered] at resolved
    exact congrArg Prod.fst (Except.ok.inj resolved)
  have texts : (Catalog.parse greeting "fr").texts = [("Hi", "Salut")] := by decide +kernel
  refine ⟨same.symm, (listed _ (List.reverse_perm _)).trans same.symm, ?_, ?_⟩
  · rw [lookups "fr" (by decide), textsIn, catalogText?_cluttered_fr, Option.elim_some, texts]
  · rw [lookups "de" (by decide), textsIn, catalogText?_cluttered_de, Option.elim_none]

end Texts

end Phrasebook
