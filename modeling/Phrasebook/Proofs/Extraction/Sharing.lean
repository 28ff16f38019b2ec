import Phrasebook.Proofs.Extraction.Routing
import Phrasebook.Proofs.Extraction.Run
import Phrasebook.Proofs.Extraction.Writing

/-!
Catalogs that several turns of an extraction write. Directories that are spelled with different parts
may be one directory of the tree; then each turn drops the keys that it has not found itself.
-/

set_option autoImplicit false

namespace Phrasebook

def FileTree.namesOf? (tree : FileTree) (path : String) : Option Names :=
  (tree.resolve path).toOption.map (·.1)

theorem FileTree.namesOf?_eq {tree : FileTree} {path name : String}
    (last : (piecesOf path).getLast? = some name) (proper : IsName name)
    (unlinked : tree.Unlinked name) {home : Names} (way : tree.wayIn path = .ok home) {found : Item}
    (there : tree.item? (home ++ [name]) = some found) :
    tree.namesOf? path = some (home ++ [name]) := by
  have resolved := (resolve_eq_ok_iff last proper unlinked).mpr ⟨home, way, rfl, there⟩
  rw [namesOf?, resolved]
  rfl

namespace Extraction

open Catalog (filePath fileName stagingName)

def Turn.path (turn : Turn) : String := filePath turn.directory turn.locale

def Turn.fresh (found : List Outcome) (turn : Turn) : Catalog := freshCatalog turn.directory found

/-- A turn carries a key over if it reads the catalog that it writes, and finds the key. -/
def Turn.Carries (found : List Outcome) (key : String) (turn : Turn) : Prop :=
  turn.tree.isFile turn.path = true ∧ key ∈ (turn.fresh found).keys

instance (found : List Outcome) (key : String) : DecidablePred (Turn.Carries found key) :=
  fun turn => inferInstanceAs (Decidable (turn.tree.isFile turn.path = true ∧ _))

/-- The turns of a run that write what has the names in the end. -/
def writers (options : Options) (found : List Outcome) (tree : FileTree)
    (places : List (String × String)) (names : Option Names) : List Turn :=
  (turnsFrom options found tree places).filter fun turn =>
    !(turn.fresh found).isEmpty &&
      (treeAfter options found tree places).namesOf? turn.path == names

section Write

variable {tree later : FileTree} {fresh : Catalog} {directory locale : String} {home : Names}
  {text : String}

private theorem Writes.textAt_self (wrote : Writes tree later fresh directory locale home text) :
    later.textAt (home ++ [fileName locale]) = some text :=
  FileTree.textAt_eq_some_iff.mpr wrote.replaces.there

private theorem Writes.textAt_of_ne (wrote : Writes tree later fresh directory locale home text)
    {other : String} (known : Locale.isRecognized other = true) {elsewhere : Names}
    (different : elsewhere ++ [fileName other] ≠ home ++ [fileName locale]) :
    later.textAt (elsewhere ++ [fileName other]) = tree.textAt (elsewhere ++ [fileName other]) := by
  have notBeside : (elsewhere ++ [fileName other]).getLast? ≠ some (stagingName locale) := by
    simpa using Catalog.fileName_ne_stagingName known
  rcases wrote.replaces.others _ different notBeside with same | ⟨free, made⟩
  · rw [FileTree.textAt, FileTree.textAt, same]
  · rw [FileTree.textAt, FileTree.textAt, free, made]

private theorem Writes.exists_textAt (wrote : Writes tree later fresh directory locale home text)
    {other : String} (known : Locale.isRecognized other = true) {elsewhere : Names} {old : String}
    (there : tree.textAt (elsewhere ++ [fileName other]) = some old) :
    ∃ new, later.textAt (elsewhere ++ [fileName other]) = some new := by
  by_cases here : elsewhere ++ [fileName other] = home ++ [fileName locale]
  · exact ⟨text, here ▸ wrote.textAt_self⟩
  · exact ⟨old, (wrote.textAt_of_ne known here).trans there⟩

end Write

/-- A run in which every turn succeeds and keeps the texts that are there. -/
structure Smooth (options : Options) (found : List Outcome) (tree : FileTree)
    (places : List (String × String)) : Prop where
  known : ∀ locale ∈ options.locales, Locale.isRecognized locale = true
  keepsTexts : options.overwrite = false
  fresh : ∀ directory, (freshCatalog directory found).IsFresh
  locales : ∀ place ∈ places, place.2 ∈ options.locales
  plain : ∀ locale ∈ options.locales, tree.Plain locale
  succeeds : ∀ turn ∈ turnsFrom options found tree places,
    ∃ count, turn.result options found = .ok count

namespace Smooth

variable {options : Options} {found : List Outcome} {tree : FileTree} {place : String × String}
  {places : List (String × String)}

private theorem head_cases (run : Smooth options found tree (place :: places)) :
    let next := (performWrite options found tree place).2
    (freshCatalog place.1 found).isEmpty = true ∧ next = tree ∨
      (freshCatalog place.1 found).isEmpty = false ∧ ∃ home text,
        Writes tree next (freshCatalog place.1 found) place.1 place.2 home text := by
  intro next
  have mine := run.locales place (by simp)
  obtain ⟨count, done⟩ := run.succeeds ⟨tree, place.1, place.2⟩ (by simp [turnsFrom])
  cases empty : (freshCatalog place.1 found).isEmpty with
  | true => exact Or.inl ⟨rfl, tree_writeLocale_of_isEmpty empty tree _ _ _⟩
  | false =>
    have written : performWrite options found tree place = (.ok count, next) := Prod.ext done rfl
    rw [performWrite, run.keepsTexts] at written
    exact Or.inr ⟨rfl, exists_writes (run.known _ mine) (run.plain _ mine) (run.fresh place.1)
      empty written⟩

private theorem tail (run : Smooth options found tree (place :: places)) :
    Smooth options found (performWrite options found tree place).2 places := by
  refine ⟨run.known, run.keepsTexts, run.fresh, ?_, ?_, ?_⟩
  · exact fun other ho => run.locales other (by simp [ho])
  · intro locale hl
    rcases run.head_cases with ⟨-, same⟩ | ⟨-, home, text, wrote⟩
    · rw [same]
      exact run.plain locale hl
    · exact wrote.replaces.plain (run.plain locale hl)
  · exact fun turn ht => run.succeeds turn (by simp [turnsFrom, ht])

theorem keeps (run : Smooth options found tree places) :
    tree.Keeps (treeAfter options found tree places) := by
  induction places generalizing tree with
  | nil => exact FileTree.Keeps.refl tree
  | cons place places ih =>
    have rest := ih run.tail
    rw [treeAfter_cons]
    rcases run.head_cases with ⟨-, same⟩ | ⟨-, home, text, wrote⟩
    · rwa [same] at rest ⊢
    · exact wrote.replaces.keeps.trans rest

theorem plain_treeAfter (run : Smooth options found tree places) :
    ∀ locale ∈ options.locales, (treeAfter options found tree places).Plain locale := by
  induction places generalizing tree with
  | nil => exact run.plain
  | cons place places ih => exact ih run.tail

private theorem exists_textAt (run : Smooth options found tree places) {locale : String}
    (member : locale ∈ options.locales) {home : Names} {text : String}
    (there : tree.textAt (home ++ [fileName locale]) = some text) :
    ∃ new, (treeAfter options found tree places).textAt (home ++ [fileName locale]) = some new := by
  induction places generalizing tree text with
  | nil => exact ⟨text, there⟩
  | cons place places ih =>
    rw [treeAfter_cons]
    rcases run.head_cases with ⟨-, same⟩ | ⟨-, _, _, wrote⟩
    · exact ih run.tail (same ▸ there)
    · obtain ⟨new, moved⟩ := wrote.exists_textAt (run.known locale member) there
      exact ih run.tail moved

theorem exists_wayIn (run : Smooth options found tree places) {turn : Turn}
    (member : turn ∈ turnsFrom options found tree places)
    (full : (turn.fresh found).isEmpty = false) :
    ∃ home text, (treeAfter options found tree places).wayIn turn.path = .ok home ∧
      (treeAfter options found tree places).textAt (home ++ [fileName turn.locale]) = some text := by
  induction places generalizing tree with
  | nil => cases member
  | cons place places ih =>
    rcases List.mem_cons.mp member with rfl | member
    · rcases run.head_cases with ⟨empty, -⟩ | ⟨-, home, text, wrote⟩
      · rw [Turn.fresh, empty] at full
        cases full
      · obtain ⟨new, there⟩ := run.tail.exists_textAt (run.locales place (by simp)) wrote.textAt_self
        exact ⟨home, new, FileTree.wayIn_of_keeps run.tail.keeps wrote.way, there⟩
    · exact ih run.tail member

theorem locale_mem (run : Smooth options found tree places) {turn : Turn}
    (member : turn ∈ turnsFrom options found tree places) : turn.locale ∈ options.locales := by
  obtain ⟨place, hp, -, same⟩ := exists_place_of_mem_turnsFrom member
  rw [same]
  exact run.locales place hp

theorem exists_namesOf? (run : Smooth options found tree places) {turn : Turn}
    (member : turn ∈ turnsFrom options found tree places)
    (full : (turn.fresh found).isEmpty = false) :
    ∃ home text, (treeAfter options found tree places).wayIn turn.path = .ok home ∧
      (treeAfter options found tree places).textAt (home ++ [fileName turn.locale]) = some text ∧
        (treeAfter options found tree places).namesOf? turn.path =
          some (home ++ [fileName turn.locale]) := by
  have mine := run.locale_mem member
  have known := run.known _ mine
  obtain ⟨home, text, way, there⟩ := run.exists_wayIn member full
  refine ⟨home, text, way, there, ?_⟩
  exact FileTree.namesOf?_eq (Catalog.piecesOf_filePath known turn.directory)
    (Catalog.isName_fileName known) (run.plain_treeAfter _ mine).target way
    (FileTree.textAt_eq_some_iff.mp there)

private theorem writers_cons (run : Smooth options found tree (place :: places)) {locale : String}
    (member : locale ∈ options.locales) (home : Names) :
    let next := (performWrite options found tree place).2
    let names := home ++ [fileName locale]
    let rest := writers options found next places (some names)
    writers options found tree (place :: places) (some names) = rest ∧
        next.textAt names = tree.textAt names ∨
      writers options found tree (place :: places) (some names) = ⟨tree, place.1, locale⟩ :: rest ∧
        ∃ text, Writes tree next (freshCatalog place.1 found) place.1 locale home text := by
  intro next names rest
  rcases run.head_cases with ⟨empty, same⟩ | ⟨full, other, text, wrote⟩
  · refine Or.inl ⟨?_, congrArg (FileTree.textAt · names) same⟩
    exact List.filter_cons_of_neg (by simp [Turn.fresh, empty])
  · have first : (⟨tree, place.1, place.2⟩ : Turn) ∈
        turnsFrom options found tree (place :: places) := by simp [turnsFrom]
    obtain ⟨last, _, way, _, leads⟩ := run.exists_namesOf? first full
    obtain rfl : other = last :=
      Except.ok.inj ((FileTree.wayIn_of_keeps run.tail.keeps wrote.way).symm.trans way)
    by_cases here : other ++ [fileName place.2] = names
    · obtain ⟨rfl, named⟩ := List.append_inj' here rfl
      obtain rfl : place.2 = locale := Catalog.fileName_injective (List.cons.inj named).1
      refine Or.inr ⟨List.filter_cons_of_pos ?_, text, wrote⟩
      simp only [Turn.fresh, full, Bool.not_false, Bool.true_and, beq_iff_eq]
      exact leads
    · refine Or.inl ⟨List.filter_cons_of_neg ?_, ?_⟩
      · simp only [Turn.fresh, full, Bool.not_false, Bool.true_and, beq_iff_eq]
        rw [leads]
        exact fun equal => here (Option.some.inj equal)
      · exact wrote.textAt_of_ne (run.known locale member) (Ne.symm here)

private theorem textAt_of_writers_eq_nil (run : Smooth options found tree places)
    {locale : String} (member : locale ∈ options.locales) {home : Names}
    (unwritten : writers options found tree places (some (home ++ [fileName locale])) = []) :
    (treeAfter options found tree places).textAt (home ++ [fileName locale]) =
      tree.textAt (home ++ [fileName locale]) := by
  induction places generalizing tree with
  | nil => rfl
  | cons place places ih =>
    rcases run.writers_cons member home with ⟨same, kept⟩ | ⟨more, -⟩
    · rw [treeAfter_cons, ih run.tail (same ▸ unwritten), kept]
    · rw [more] at unwritten
      cases unwritten

theorem exists_keys (run : Smooth options found tree places) {locale : String}
    (member : locale ∈ options.locales) {home : Names} {last : Turn}
    (written : (writers options found tree places (some (home ++ [fileName locale]))).getLast? =
      some last) :
    ∃ text, (treeAfter options found tree places).textAt (home ++ [fileName locale]) = some text ∧
      (Catalog.parse text locale).keys.Perm (last.fresh found).keys := by
  induction places generalizing tree with
  | nil => cases written
  | cons place places ih =>
    rw [treeAfter_cons]
    rcases run.writers_cons member home with ⟨same, -⟩ | ⟨more, text, wrote⟩
    · exact ih run.tail (same ▸ written)
    · rw [more] at written
      by_cases bare : writers options found (performWrite options found tree place).2 places
          (some (home ++ [fileName locale])) = []
      · rw [bare] at written
        obtain rfl := Option.some.inj written
        refine ⟨text, ?_, wrote.keys⟩
        rw [run.tail.textAt_of_writers_eq_nil member bare, wrote.textAt_self]
      · rw [List.getLast?_cons_of_ne_nil bare] at written
        exact ih run.tail written

/-- A key of a catalog has the text that it had before the run if each turn that writes the catalog
carries it over; otherwise it has none. -/
theorem heldText_treeAfter (run : Smooth options found tree places) {locale : String}
    (member : locale ∈ options.locales) (home : Names) (key : String) :
    heldText (treeAfter options found tree places) (home ++ [fileName locale]) locale key =
      if ∀ turn ∈ writers options found tree places (some (home ++ [fileName locale])),
          turn.Carries found key then
        heldText tree (home ++ [fileName locale]) locale key
      else none := by
  induction places generalizing tree with
  | nil => simp [writers, turnsFrom, treeAfter]
  | cons place places ih =>
    rw [treeAfter_cons, ih run.tail]
    rcases run.writers_cons member home with ⟨same, kept⟩ | ⟨more, text, wrote⟩
    · rw [same, heldText, kept, ← heldText]
    · have first : heldText (performWrite options found tree place).2 (home ++ [fileName locale])
          locale key =
          if Turn.Carries found key ⟨tree, place.1, locale⟩ then
            heldText tree (home ++ [fileName locale]) locale key
          else none := by
        rw [heldText, wrote.textAt_self]
        exact wrote.texts key
      simp only [first, more, List.forall_mem_cons]
      by_cases rest : ∀ turn ∈ writers options found (performWrite options found tree place).2
          places (some (home ++ [fileName locale])), turn.Carries found key
      · rw [if_pos rest]
        simp only [eq_true rest, and_true]
      · rw [if_neg rest, if_neg fun all => rest all.2]

end Smooth

end Extraction

end Phrasebook
