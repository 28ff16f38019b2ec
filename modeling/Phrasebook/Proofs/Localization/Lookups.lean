import Phrasebook.Proofs.Files.Outline
import Phrasebook.Proofs.Files.Way
import Phrasebook.Proofs.Localization.Registry
import Phrasebook.Proofs.Pairs

/-!
Lookups in a localizer. The ways of looking up a key agree with one another, and all of them answer, with
the key itself where there is no text.
-/

set_option autoImplicit false

namespace Phrasebook

theorem Catalog.ne_empty_of_mem_texts {catalog : Catalog} {key text : String}
    (h : (key, text) ∈ catalog.texts) : text ≠ "" := by
  obtain ⟨entry, he, same⟩ := List.mem_map.mp h
  obtain ⟨-, rfl⟩ := Prod.mk.inj same
  simpa [Entry.isLocalized] using (List.mem_filter.mp he).2

namespace Texts

structure IsProper (texts : Texts) : Prop where
  locales : texts.locales = Locale.recognized
  texts : ∀ locale pairs, (locale, pairs) ∈ texts → ∀ key text, (key, text) ∈ pairs → text ≠ ""

theorem isProper_unfilled : unfilled.IsProper where
  locales := by simp [unfilled, Texts.locales, Function.comp_def]
  texts locale pairs member key text within := by
    obtain ⟨known, -, same⟩ := List.mem_map.mp member
    obtain ⟨-, rfl⟩ := Prod.mk.inj same
    cases within

theorem IsProper.addFile {texts : Texts} (proper : texts.IsProper) (tree : FileTree) (path : String) :
    (addFile tree texts path).IsProper := by
  unfold Texts.addFile
  split
  · rename_i catalogPath
    have recognized : Locale.isRecognized ((Path.stem? path).getD "") = true := by
      simp only [isCatalogPath, Bool.and_eq_true] at catalogPath
      exact catalogPath.2
    simp only
    split
    · rename_i catalog _
      have known : (Path.stem? path).getD "" ∈ texts.map (·.1) := by
        rw [show texts.map (·.1) = Locale.recognized from proper.locales]
        exact List.contains_iff_mem.mp recognized
      refine ⟨?_, fun locale pairs member => ?_⟩
      · rw [Texts.locales, Pairs.map_fst_put_of_mem known]
        exact proper.locales
      · rcases Pairs.mem_put member with same | member
        · obtain ⟨-, rfl⟩ := Prod.mk.inj same
          exact fun key text within => catalog.ne_empty_of_mem_texts within
        · exact proper.texts locale pairs member
    · exact proper
  · exact proper

theorem isProper_load {tree : FileTree} {directory : String} (h : tree.isDirectory directory = true) :
    (load tree directory).IsProper := by
  rw [load, if_pos h]
  split
  · rename_i found _
    exact List.foldlRecOn found _ isProper_unfilled fun texts proper child _ => proper.addFile tree _
  · exact isProper_unfilled

theorem locales_load (tree : FileTree) (directory : String) :
    (load tree directory).locales = if tree.isDirectory directory then Locale.recognized else [] := by
  split
  · rename_i there
    exact (isProper_load there).locales
  · rename_i absent
    rw [load, if_neg absent]
    rfl

theorem nodup_locales_load (tree : FileTree) (directory : String) :
    (load tree directory).locales.Nodup := by
  rw [locales_load]
  split
  · decide
  · exact List.nodup_nil

theorem get?_of_not_mem {texts : Texts} {locale : String} (absent : locale ∉ texts.locales)
    (key : String) : texts.get? locale key = none := by
  rw [get?, Pairs.lookup_eq_none_of_not_mem absent]
  rfl

theorem ne_empty_of_get?_load {tree : FileTree} {directory locale key text : String}
    (h : (load tree directory).get? locale key = some text) : text ≠ "" := by
  obtain ⟨pairs, ofName, found⟩ := Option.bind_eq_some_iff.mp h
  have member : (locale, pairs) ∈ load tree directory := Pairs.mem_of_lookup ofName
  cases there : tree.isDirectory directory with
  | true => exact (isProper_load there).texts locale pairs member key text (Pairs.mem_of_lookup found)
  | false =>
    rw [load, if_neg (by simp [there])] at member
    cases member

end Texts

namespace Localizer

theorem mem_map_fst_resolveAll {localizer : Localizer} {key locale : String} :
    locale ∈ (localizer.resolveAll key).map (·.1) ↔
      locale = Locale.base ∨ locale ∈ localizer.texts.locales := by
  refine (Pairs.mem_map_fst_foldl_put _).trans ?_
  simp [Texts.locales]

theorem nodup_map_fst_resolveAll (localizer : Localizer) (key : String) :
    ((localizer.resolveAll key).map (·.1)).Nodup :=
  Pairs.nodup_foldl_put _ (List.nodup_singleton _)

theorem lookup_resolveAll {localizer : Localizer} (distinct : localizer.texts.locales.Nodup)
    {key locale : String} (answered : locale ∈ (localizer.resolveAll key).map (·.1)) :
    (localizer.resolveAll key).lookup locale = some (localizer.resolve key locale) := by
  rw [resolveAll, Pairs.lookup_foldl_put _ distinct, resolve, Texts.get?]
  cases found : localizer.texts.lookup locale with
  | some pairs => rfl
  | none =>
    -- Without texts, a locale is answered in by being the base locale.
    rcases mem_map_fst_resolveAll.mp answered with rfl | loaded
    · simp
    · obtain ⟨pair, member, rfl⟩ := List.mem_map.mp loaded
      exact absurd (List.lookup_eq_none_iff.mp found pair member) (by simp)

theorem resolve_of_not_mem {localizer : Localizer} {key locale : String}
    (absent : locale ∉ (localizer.resolveAll key).map (·.1)) : localizer.resolve key locale = key := by
  have unloaded : locale ∉ localizer.texts.locales := fun loaded =>
    absent (mem_map_fst_resolveAll.mpr (Or.inr loaded))
  rw [resolve, Texts.get?_of_not_mem unloaded]
  rfl

theorem resolve_ne_empty {localizer : Localizer} {tree : FileTree}
    (loaded : localizer.texts = Texts.load tree localizer.directory) {key : String} (named : key ≠ "")
    (locale : String) : localizer.resolve key locale ≠ "" := by
  rw [resolve, loaded]
  cases found : (Texts.load tree localizer.directory).get? locale key with
  | none => exact named
  | some text => exact Texts.ne_empty_of_get?_load found

end Localizer

theorem Request.locale_of_choice {request : Request} {preference : Preference} {locale : String}
    (chosen : request.choice preference = some locale) (named : locale ≠ "") (ambient : Ambient) :
    request.locale preference ambient = locale := by
  simp [Request.locale, chosen, Option.filter, named]

theorem Request.locale_of_no_choice {request : Request} {preference : Preference}
    (unnamed : request.choice preference = none ∨ request.choice preference = some "")
    (ambient : Ambient) : request.locale preference ambient = ambient.current := by
  rcases unnamed with absent | empty
  · simp [Request.locale, absent]
  · simp [Request.locale, empty, Option.filter]

namespace Registry

/-- All ways of looking up a key in a localizer agree. It is answered once in every locale that was loaded,
which are the recognized ones if the directory existed when it was loaded last and none otherwise, and in
the base locale; and it is answered in each as it is answered in that locale alone, which is by the key
itself in any other locale. A key that is not empty has no empty answer. A message has the text of its
locale and the texts of all, whether the locale is given, in effect, or the one that a request names. -/
theorem lookups_agree {start : FileTree} {events : List Event} {number : Nat} {localizer : Localizer}
    (made : (after start events).localizer? number = some localizer) (key : String) :
    let variants := localizer.resolveAll key
    let locales := variants.map (·.1)
    (∃ tree, IsLoadedFrom start events number tree ∧ ∀ locale, locale ∈ locales ↔
      if tree.isDirectory localizer.directory then Locale.isRecognized locale = true
      else locale = Locale.base) ∧
    locales.Nodup ∧
    (∀ locale, locale ∈ locales ↔ locale ∈ localizer.locales ∨ locale = Locale.base) ∧
    (∀ locale ∈ locales, variants.lookup locale = some (localizer.resolve key locale)) ∧
    (∀ locale, locale ∉ locales → localizer.resolve key locale = key) ∧
    (key ≠ "" → ∀ locale, localizer.resolve key locale ≠ "") ∧
    (∀ locale, localizer.localizeIn key locale = ⟨localizer.resolve key locale, variants⟩) ∧
    (∀ ambient, localizer.localize ambient key = localizer.localizeIn key ambient.current) ∧
    (∀ (ambient : Ambient) (request : Request) (preference : Preference),
      (∀ locale, request.choice preference = some locale → locale ≠ "" →
        localizer.localizeFor ambient request preference key = localizer.localizeIn key locale) ∧
      (request.choice preference = none ∨ request.choice preference = some "" →
        localizer.localizeFor ambient request preference key =
          localizer.localizeIn key ambient.current)) ∧
    ∀ description,
      localizer.commandTexts key description = ⟨variants, localizer.resolveAll description⟩ := by
  obtain ⟨-, tree, from_, loaded⟩ := exists_of_localizer? made
  intro variants locales
  have distinct : localizer.texts.locales.Nodup := by
    rw [loaded]
    exact Texts.nodup_locales_load tree localizer.directory
  refine ⟨⟨tree, from_, fun locale => ?_⟩, localizer.nodup_map_fst_resolveAll key, fun locale => ?_,
    fun locale member => Localizer.lookup_resolveAll distinct member,
    fun locale absent => Localizer.resolve_of_not_mem absent,
    fun named => Localizer.resolve_ne_empty loaded named, fun _ => rfl, fun _ => rfl,
    fun ambient request preference => ⟨fun locale chosen named => ?_, fun unnamed => ?_⟩,
    fun _ => rfl⟩
  · rw [Localizer.mem_map_fst_resolveAll, loaded, Texts.locales_load]
    split
    · have base : Locale.base ∈ Locale.recognized := by decide
      simp only [Locale.isRecognized, List.contains_iff_mem, or_iff_right_iff_imp]
      rintro rfl
      exact base
    · simp
  · rw [Localizer.mem_map_fst_resolveAll, Localizer.locales, List.mem_mergeSort, or_comm]
  · rw [Localizer.localizeFor, Request.locale_of_choice chosen named]
  · rw [Localizer.localizeFor, Request.locale_of_no_choice unnamed]

private def shelf : FileTree where
  items := [(["l"], .directory),
    (["l", "fr.po"], .file (.text "msgid \"Hi\"\nmsgstr \"Salut\"\n"))]

private theorem resolve_shelf : shelf.resolve "/l" = .ok (["l"], .directory) :=
  FileTree.resolve_of_descend (by decide) (by decide)

private theorem addFile_shelf :
    Texts.addFile shelf Texts.unfilled "/l/fr.po" =
      Pairs.put "fr" [("Hi", "Salut")] Texts.unfilled := by
  have last : (FileTree.piecesOf "/l/fr.po").getLast? = some "fr.po" := by decide
  have proper : FileTree.IsName "fr.po" := ⟨by decide, by decide, by decide, by decide⟩
  have file : shelf.item? ["l", "fr.po"] =
      some (.file (.text "msgid \"Hi\"\nmsgstr \"Salut\"\n")) := by decide
  have way : shelf.wayIn "/l/fr.po" = .ok ["l"] :=
    FileTree.wayIn_of_descend (by decide) (by decide)
  have there := FileTree.locate_of_wayIn last proper way (by simp [file]) true
  simp only [FileTree.spotAt, List.cons_append, List.nil_append, file] at there
  have reads : shelf.isFile "/l/fr.po" = true := FileTree.isFile_iff_locate.mpr ⟨_, _, there⟩
  have catalogPath : Texts.isCatalogPath shelf "/l/fr.po" = true := by
    rw [Texts.isCatalogPath, reads]
    decide
  have stem : (Path.stem? "/l/fr.po").getD "" = "fr" := by decide
  have texts : (Catalog.parse "msgid \"Hi\"\nmsgstr \"Salut\"\n" "fr").texts = [("Hi", "Salut")] := by
    decide +kernel
  simp only [Texts.addFile, catalogPath, if_true, stem, Catalog.load,
    FileTree.readText_of_locate_text there, texts]

private theorem get?_shelf : (Texts.load shelf "/l").get? "fr" "Hi" = some "Salut" := by
  have directory : shelf.isDirectory "/l" = true := by
    rw [FileTree.isDirectory, resolve_shelf]
  have listed : shelf.children "/l" = .ok (shelf.childrenOf ["l"]) := by
    rw [FileTree.children, resolve_shelf]
    rfl
  have paths : (shelf.childrenOf ["l"]).map (fun child => Path.join "/l" child.1) = ["/l/fr.po"] := by
    decide +kernel
  have loaded : Texts.load shelf "/l" = Pairs.put "fr" [("Hi", "Salut")] Texts.unfilled := by
    rw [Texts.load, if_pos directory, listed, ← addFile_shelf]
    simp only [← List.foldl_map, paths]
    rfl
  rw [Texts.get?, loaded, Pairs.lookup_put, if_pos rfl]
  rfl

theorem lookups_agree_of_shelf :
    ∃ localizer : Localizer,
      (after shelf [.acquire "bot" "/l", .change {}]).localizer? 0 = some localizer ∧
      (localizer.resolveAll "Hi").lookup "fr" = some "Salut" ∧
      localizer.localizeIn "Hi" "fr" = ⟨"Salut", localizer.resolveAll "Hi"⟩ ∧
      (∀ locale, locale ∉ (localizer.resolveAll "Hi").map (·.1) →
        localizer.resolve "Hi" locale = "Hi") ∧
      ∀ locale, localizer.resolve "Hi" locale ≠ "" := by
  have made : (after shelf [.acquire "bot" "/l", .change {}]).localizer? 0 =
      some ⟨"bot", "/l", Texts.load shelf "/l"⟩ := by
    have whole : shelf.canonical "/l" = .ok "/l" := by
      rw [FileTree.canonical, resolve_shelf]
      decide
    have path : Path.ofParts [.root, .name "l"] = "/l" := by decide
    have parts : (shelf.absoluteParts "/l").reverse = [.name "l", .root] := by decide
    have settled : shelf.settled "/l" = "/l" := by
      simp only [FileTree.settled, parts, FileTree.settle?, List.reverse_cons, List.reverse_nil,
        List.nil_append, List.cons_append, path]
      rw [if_neg (by decide), (by decide : "/l" ++ FileTree.endingOf "/l" = "/l"), whole]
      rfl
    simp only [after, List.foldl, State.next, State.localizer?, acquire, find?, settled]
    rfl
  have text : (⟨"bot", "/l", Texts.load shelf "/l"⟩ : Localizer).resolve "Hi" "fr" = "Salut" := by
    rw [Localizer.resolve, get?_shelf]
    rfl
  obtain ⟨-, -, -, found, absent, filled, message, -⟩ := lookups_agree made "Hi"
  refine ⟨_, made, ?_, by rw [message, text], absent, filled (by decide)⟩
  rw [found "fr", text]
  by_contra missing
  exact absurd (text.symm.trans (absent "fr" missing)) (by decide)

end Registry

end Phrasebook
