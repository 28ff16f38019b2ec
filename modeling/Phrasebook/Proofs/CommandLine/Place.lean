import Phrasebook.Proofs.CommandLine.Run
import Phrasebook.Proofs.Files.Selection

/-!
The directory that the program is started from: which files an extraction selects there by the settings
of a directory above it.
-/

set_option autoImplicit false

namespace Phrasebook.CommandLine

open FileTree (absolute pathLimit IsPlace IsName)
open Selection (reached)
open Exclusion (LeavesOut)

def settingsIn (home : Names) : String := Path.join (absolute home) Settings.fileName

theorem isAbsolute_settingsIn (home : Names) : Path.isAbsolute (settingsIn home).toList = true := by
  rw [settingsIn, Path.isAbsolute_join _ Settings.isAbsolute_fileName, FileTree.isAbsolute_absolute]

section Lookup

variable {tree : FileTree} {home : Names} {settings : Settings}
  (valid : Settings.ofFile tree (settingsIn home) = .ok settings)

include valid

theorem exists_readText_settingsIn : ∃ text, tree.readText (settingsIn home) = .ok text := by
  unfold Settings.ofFile at valid
  cases read : tree.readText (settingsIn home) with
  | error fault =>
    rw [read] at valid
    cases valid
  | ok text => exact ⟨text, rfl⟩

theorem clean_of_ofFile : '\x00' ∉ (absolute home).toList := by
  obtain ⟨text, read⟩ := exists_readText_settingsIn valid
  exact FileTree.clean_of_pathFault?_join Settings.isAbsolute_fileName
    (FileTree.pathFault?_of_readText read)

theorem isPresent_settingsIn (elsewhere : Names) :
    (tree.seenFrom elsewhere).isPresent (settingsIn home) = true := by
  have located := FileTree.locate_seenFrom tree elsewhere (isAbsolute_settingsIn home) true
  obtain ⟨text, read⟩ := exists_readText_settingsIn valid
  rw [FileTree.isPresent, FileTree.resolve, located, ← FileTree.resolve]
  rw [FileTree.readText] at read
  cases there : tree.resolve (settingsIn home) with
  | error fault =>
    rw [there] at read
    cases read
  | ok found => rfl

theorem find?_home : Settings.find? (tree.seenFrom home) (absolute home) = some (settingsIn home) :=
  Settings.findWithin_of_isPresent (isPresent_settingsIn valid home) _

theorem load_of_find? {elsewhere : Names}
    (reaches : Settings.find? (tree.seenFrom elsewhere) (absolute elsewhere) = some (settingsIn home)) :
    Settings.load (tree.seenFrom elsewhere) (absolute elsewhere) =
      .ok (settings, some (settingsIn home)) := by
  have located := FileTree.locate_seenFrom tree elsewhere (isAbsolute_settingsIn home) true
  have read : (tree.seenFrom elsewhere).readText (settingsIn home) =
      tree.readText (settingsIn home) := by
    rw [FileTree.readText, FileTree.readText, FileTree.resolve, FileTree.resolve, located]
  have same : Settings.ofFile (tree.seenFrom elsewhere) (settingsIn home) = .ok settings := by
    rw [Settings.ofFile, read]
    exact valid
  simp only [Settings.load, reaches, same]
  rfl

end Lookup

section Plans

variable {tree : FileTree} {home start : Names} (place : tree.IsPlace home)

include place

theorem parent?_settingsIn : Path.parent? (settingsIn home) = some (absolute home) := by
  by_cases root : home = []
  · subst root
    decide
  · exact FileTree.parent?_join_absolute place.proper root
      ⟨by decide, by decide, by decide, by decide⟩ (by decide)

theorem fromSettings_home (entry : String) :
    fromSettings (absolute home) (some (settingsIn home)) entry = entry := by
  simp [fromSettings, parent?_settingsIn place, Path.same]

theorem fromSettings_elsewhere (proper : ∀ name ∈ start, IsName name ∧ '/' ∉ name.toList)
    (other : home ≠ start) (entry : String) :
    fromSettings (absolute start) (some (settingsIn home)) entry =
      Path.join (absolute home) entry := by
  have different : Path.same (absolute home) (absolute start) = false := by
    rw [Bool.eq_false_iff]
    exact mt (FileTree.same_absolute_iff place.proper proper).mp other
  simp [fromSettings, parent?_settingsIn place, different]

end Plans

/-- What an extraction without paths of its own is to do when the paths of the settings are spelled in
a certain way. -/
def planWith (spell : String → String) (settings : Settings) (given : ExtractArguments)
    (locales : List String) : Plan where
  inputs := settings.includes.map spell
  excludes := settings.excludes.map fun text => if Glob.isPattern text then text else spell text
  recursive := given.recursive || settings.recursive
  options := {
    locales
    directory := settings.catalogDirectory
    overwrite := given.overwrite
    markers := settings.markersOf }

theorem plan_eq_planWith {given : ExtractArguments} (noPaths : given.paths = [])
    (noExcludes : given.excludes = []) {settings : Settings} {locales : List String}
    (asked : askedLocales settings given = .ok locales) (full : locales ≠ []) (place : String)
    (file : Option String) :
    plan place settings file given =
      .ok (planWith (fromSettings place file) settings given locales) := by
  rw [plan, targetLocales_eq_ok_iff.mpr ⟨asked, full⟩, noPaths, noExcludes]
  simp only [Except.map, List.isEmpty_nil, if_true, List.append_nil]
  rfl

section Planned

variable {tree : FileTree} {home start : Names} {settings : Settings} {given : ExtractArguments}
  {locales : List String} (place : tree.IsPlace home) (noPaths : given.paths = [])
  (noExcludes : given.excludes = []) (asked : askedLocales settings given = .ok locales)
  (someLocales : locales ≠ [])

include place noPaths noExcludes asked someLocales

theorem plan_home : plan (absolute home) settings (some (settingsIn home)) given =
    .ok (planWith id settings given locales) := by
  have spell : fromSettings (absolute home) (some (settingsIn home)) = id :=
    funext (fromSettings_home place)
  rw [plan_eq_planWith noPaths noExcludes asked someLocales, spell]

theorem plan_elsewhere (proper : ∀ name ∈ start, IsName name ∧ '/' ∉ name.toList)
    (other : home ≠ start) :
    plan (absolute start) settings (some (settingsIn home)) given =
      .ok (planWith (Path.join (absolute home)) settings given locales) := by
  have spell : fromSettings (absolute start) (some (settingsIn home)) = Path.join (absolute home) :=
    funext (fromSettings_elsewhere place proper other)
  rw [plan_eq_planWith noPaths noExcludes asked someLocales, spell]

end Planned

/-- An entry of the settings of a directory leaves a path out when both are joined to the directory;
patterns stay as they are. -/
def LeavesOutBelow (base text path : String) : Prop :=
  LeavesOut (if Glob.isPattern text then text else Path.join base text) (Path.join base path)

instance (base text path : String) : Decidable (LeavesOutBelow base text path) :=
  inferInstanceAs (Decidable (LeavesOut _ _))

/-- Below the directory of the settings an entry without wildcards leaves out all that it names, with or
without a point at the start of its spelling. -/
theorem leavesOutBelow_iff {base text path : String} (full : base ≠ "")
    (plain : Glob.isPattern base = false) (literal : Glob.isPattern text = false)
    (textInside : Path.isAbsolute text.toList = false)
    (pathInside : Path.isAbsolute path.toList = false) :
    LeavesOutBelow base text path ↔ Path.partsBehind text <+: Path.partsBehind path := by
  have joined : Glob.isPattern (Path.join base text) = false := by
    rw [Path.join_eq _ textInside, Path.opened, if_neg (by simp [full])]
    simp only [Glob.isPattern, List.any_eq_false] at plain literal ⊢
    intro c inside
    rw [String.toList_append, List.mem_append] at inside
    rcases inside with before | inside
    · split at before
      · exact plain c before
      · rw [String.toList_append, List.mem_append] at before
        rcases before with before | slash
        · exact plain c before
        · obtain rfl : c = '/' := by simpa using slash
          decide
    · exact literal c inside
  rw [LeavesOutBelow, literal, LeavesOut]
  simp only [Bool.false_eq_true, if_false, joined]
  rw [Path.parts_join_of_relative textInside full, Path.parts_join_of_relative pathInside full,
    List.prefix_append_right_inj]

/-- So it does in that directory itself if the entry and the path are spelled with the same start. -/
theorem leavesOut_iff_leavesOutBelow {base text path : String} (full : base ≠ "")
    (plain : Glob.isPattern base = false) (literal : Glob.isPattern text = false)
    (textInside : Path.isAbsolute text.toList = false)
    (pathInside : Path.isAbsolute path.toList = false)
    (heads : Path.headParts text.toList = Path.headParts path.toList) :
    LeavesOut text path ↔ LeavesOutBelow base text path := by
  rw [leavesOutBelow_iff full plain literal textInside pathInside, LeavesOut, literal,
    if_neg Bool.false_ne_true, Path.partsBehind, Path.partsBehind, Path.parts_eq, Path.parts_eq, heads,
    List.prefix_append_right_inj]

section Selections

variable {tree : FileTree} {home start : Names} {settings : Settings} {given : ExtractArguments}

/-- A path that the settings of a directory reach leads to the file under the names. -/
def Reaches (tree : FileTree) (home : Names) (settings : Settings) (recursive : Bool) (path : String)
    (names : Names) : Prop :=
  (∃ entry ∈ settings.includes, path ∈ reached (tree.seenFrom home) recursive entry) ∧
    ∃ content, (tree.seenFrom home).resolve path = .ok (names, .file content)

variable (named : tree.IsNamed) (place : tree.IsPlace home)
  (short : ∀ entry ∈ settings.includes,
    ∀ path ∈ entry :: reached (tree.seenFrom home) (given.recursive || settings.recursive) entry,
      (Path.join (absolute home) path).utf8ByteSize < pathLimit)
  (locales : List String)

include named short

theorem holds_home {names : Names} :
    ((planWith id settings given locales).select (tree.seenFrom home)).Holds (tree.seenFrom home)
        names ↔
      ∃ path, Reaches tree home settings (given.recursive || settings.recursive) path names ∧
        ∀ text ∈ settings.excludes, ¬LeavesOut text path := by
  have spelled : (planWith id settings given locales).excludes = settings.excludes := by
    simp [planWith]
  have inputs : (planWith id settings given locales).inputs = settings.includes := by
    simp [planWith]
  have fits : ∀ entry ∈ settings.includes,
      ∀ path ∈ reached (tree.seenFrom home) (given.recursive || settings.recursive) entry,
        path.utf8ByteSize < pathLimit := by
    intro entry he path hp
    exact (Path.utf8ByteSize_le_join _ _).trans_lt (short entry he path (by simp [hp]))
  rw [Plan.select, spelled, inputs]
  refine (Selection.holds_collect_iff (named.seenFrom home) fits).trans ?_
  constructor
  · rintro ⟨entry, he, path, inside, kept, leads⟩
    exact ⟨path, ⟨⟨entry, he, inside⟩, leads⟩, kept⟩
  · rintro ⟨path, ⟨⟨entry, he, inside⟩, leads⟩, kept⟩
    exact ⟨entry, he, path, inside, kept, leads⟩

include place in
theorem holds_elsewhere (clean : '\x00' ∉ (absolute home).toList) (start : Names)
    (full : ∀ entry ∈ settings.includes, entry ≠ "") {names : Names} :
    ((planWith (Path.join (absolute home)) settings given locales).select
        (tree.seenFrom start)).Holds (tree.seenFrom start) names ↔
      ∃ path, Reaches tree home settings (given.recursive || settings.recursive) path names ∧
        ∀ text ∈ settings.excludes, ¬LeavesOutBelow (absolute home) text path := by
  have spelled : ∀ entry ∈ settings.includes,
      reached (tree.seenFrom start) (given.recursive || settings.recursive)
          (Path.join (absolute home) entry) =
        (reached (tree.seenFrom home) (given.recursive || settings.recursive) entry).map
          (Path.join (absolute home)) := by
    intro entry he
    exact Selection.reached_join place clean named (full entry he) (short entry he entry (by simp))
      start _
  have fits : ∀ input ∈ settings.includes.map (Path.join (absolute home)),
      ∀ path ∈ reached (tree.seenFrom start) (given.recursive || settings.recursive) input,
        path.utf8ByteSize < pathLimit := by
    intro input hi path hp
    obtain ⟨entry, he, rfl⟩ := List.mem_map.mp hi
    rw [spelled entry he] at hp
    obtain ⟨inner, hin, rfl⟩ := List.mem_map.mp hp
    exact short entry he inner (by simp [hin])
  have leads : ∀ entry ∈ settings.includes,
      ∀ path ∈ reached (tree.seenFrom home) (given.recursive || settings.recursive) entry,
        (tree.seenFrom start).resolve (Path.join (absolute home) path) =
          (tree.seenFrom home).resolve path := by
    intro entry he path hp
    obtain ⟨name, proper, last⟩ := Selection.endsWithName_of_mem_reached (named.seenFrom home) hp
    have bare : path ≠ "" := by
      rintro rfl
      exact proper.full (Option.some.inj last).symm
    exact FileTree.resolve_join_absolute place clean bare (short entry he path (by simp [hp])) start
  rw [Plan.select]
  refine (Selection.holds_collect_iff (named.seenFrom start) fits).trans ?_
  -- What is reached from an input is what is reached from its entry, joined to the directory.
  constructor
  · rintro ⟨input, hi, path, inside, kept, content, there⟩
    obtain ⟨entry, he, rfl⟩ := List.mem_map.mp hi
    rw [spelled entry he] at inside
    obtain ⟨inner, hin, rfl⟩ := List.mem_map.mp inside
    rw [leads entry he inner hin] at there
    refine ⟨inner, ⟨⟨entry, he, hin⟩, content, there⟩, fun text ht leaves => ?_⟩
    exact kept _ (List.mem_map_of_mem ht) leaves
  · rintro ⟨path, ⟨⟨entry, he, inside⟩, content, there⟩, kept⟩
    refine ⟨_, List.mem_map_of_mem he, Path.join (absolute home) path, ?_, ?_, content, ?_⟩
    · rw [spelled entry he]
      exact List.mem_map_of_mem inside
    · intro text ht
      obtain ⟨entry', he', rfl⟩ := List.mem_map.mp ht
      exact kept entry' he'
    · rw [leads entry he path inside]
      exact there

include place in
/-- Both select the same files if all that is left out is spelled with the same start as the paths that
are reached, and has no wildcards. -/
theorem holds_iff_of_literal (clean : '\x00' ∉ (absolute home).toList) (start : Names)
    (full : ∀ entry ∈ settings.includes, entry ≠ "")
    (plain : Glob.isPattern (absolute home) = false)
    (literal : ∀ text ∈ settings.excludes,
      Glob.isPattern text = false ∧ Path.isAbsolute text.toList = false)
    (alike : ∀ path names,
      Reaches tree home settings (given.recursive || settings.recursive) path names →
        Path.isAbsolute path.toList = false ∧ ∀ text ∈ settings.excludes,
          Path.headParts text.toList = Path.headParts path.toList) {names : Names} :
    ((planWith id settings given locales).select (tree.seenFrom home)).Holds (tree.seenFrom home)
        names ↔
      ((planWith (Path.join (absolute home)) settings given locales).select
        (tree.seenFrom start)).Holds (tree.seenFrom start) names := by
  rw [holds_home named short, holds_elsewhere named place short locales clean start full]
  refine exists_congr fun path => and_congr_right fun reaches => forall₂_congr fun text ht => ?_
  obtain ⟨noPattern, inside⟩ := literal text ht
  obtain ⟨relative, heads⟩ := alike path names reaches
  exact not_congr (leavesOut_iff_leavesOutBelow (FileTree.absolute_ne_empty home) plain noPattern
    inside relative (heads text ht))

end Selections

def spelledText : String := "\x7b\"excludes\": [\"x.ts\"], \"locales\": [\"fr\"]\x7d"

def spelledSettings : Settings where
  excludes := ["x.ts"]
  locales := ["fr"]

def spelledTree : FileTree where
  items := [(["c"], .directory), (["c", "d"], .directory),
    (["c", ".lingorc.json"], .file (.text spelledText)),
    (["c", "x.ts"], .file (.text "_(\"A\");")), (["c", "y.ts"], .file (.text "_(\"B\");"))]

namespace Spelled

private theorem isName {name : String} (member : name ∈ ["c", "d", ".lingorc.json", "x.ts", "y.ts"]) :
    IsName name ∧ '/' ∉ name.toList := by
  have all : ∀ name ∈ ["c", "d", ".lingorc.json", "x.ts", "y.ts"], name ≠ "" ∧ name ≠ "." ∧
      name ≠ ".." ∧ name.utf8ByteSize ≤ FileTree.nameLimit ∧ '/' ∉ name.toList := by
    decide
  obtain ⟨full, here, up, short, inside⟩ := all name member
  exact ⟨⟨full, here, up, short⟩, inside⟩

private theorem named : spelledTree.IsNamed := by
  have all : ∀ entry ∈ spelledTree.items, ∀ name ∈ entry.1,
      name ∈ ["c", "d", ".lingorc.json", "x.ts", "y.ts"] := by
    decide
  exact fun entry member name inside => isName (all entry member name inside)

private theorem place : spelledTree.IsPlace ["c", "d"] where
  proper name member := by
    have all : ∀ name ∈ ["c", "d"], name ∈ ["c", "d", ".lingorc.json", "x.ts", "y.ts"] := by decide
    exact isName (all name member)
  directories outer start := by
    have all : ∀ outer ∈ ["c", "d"].inits, spelledTree.item? outer = some .directory := by decide
    exact all outer ((List.mem_inits _ _).mpr start)

private theorem home : spelledTree.IsPlace ["c"] :=
  FileTree.IsPlace.outer place

private theorem valid : Settings.ofFile spelledTree (settingsIn ["c"]) = .ok spelledSettings := by
  have found : spelledTree.item? (["c"] ++ [Settings.fileName]) =
      some (.file (.text spelledText)) := rfl
  have located : spelledTree.locate true (settingsIn ["c"]) =
      .ok (.item ["c", ".lingorc.json"] (.file (.text spelledText))) :=
    FileTree.locate_child home (isName (by decide)).1 (by decide) (by decide)
      (fun target same => by cases found.symm.trans same) true
  exact Settings.ofFile_of_text (FileTree.readText_of_locate_text located) (by decide +kernel)
    (by decide)

private theorem reaches : Settings.find? (spelledTree.seenFrom ["c", "d"]) (absolute ["c", "d"]) =
    some (settingsIn ["c"]) := by
  have absent : ∀ name ∈ [Settings.fileName, Settings.repositoryMark],
      ¬(spelledTree.seenFrom ["c", "d"]).isPresent (Path.join (absolute ["c", "d"]) name) = true := by
    have free : ∀ name ∈ [Settings.fileName, Settings.repositoryMark],
        (name ≠ "" ∧ name ≠ "." ∧ name ≠ ".." ∧ name.utf8ByteSize ≤ FileTree.nameLimit ∧
          '/' ∉ name.toList) ∧
        FileTree.pathFault? (Path.join (absolute ["c", "d"]) name) = none ∧
        Path.isAbsolute (Path.join (absolute ["c", "d"]) name).toList = true ∧
        spelledTree.item? (["c", "d"] ++ [name]) = none := by
      decide
    intro name member
    obtain ⟨⟨full, here, up, short, inside⟩, sound, root, nothing⟩ := free name member
    have located := FileTree.locate_child place ⟨full, here, up, short⟩ inside sound
      (fun target => by simp only [nothing, ne_eq, reduceCtorEq, not_false_eq_true]) true
    rw [FileTree.isPresent, FileTree.resolve, FileTree.locate_seenFrom _ _ root, located,
      FileTree.spotAt, nothing]
    exact Bool.false_ne_true
  have above : Path.parent? (absolute ["c", "d"]) = some (absolute ["c"]) := by decide
  have count : (Path.parts (absolute ["c", "d"])).length = 2 + 1 := by decide
  rw [Settings.find?, count, Settings.findWithin_of_parent? (absent _ (by simp)) (absent _ (by simp))
    above]
  exact Settings.findWithin_of_isPresent (isPresent_settingsIn valid _) _

private theorem reached_iff {path : String} :
    path ∈ reached (spelledTree.seenFrom ["c"]) false "." ↔ path = "./x.ts" ∨ path = "./y.ts" := by
  have files : ∀ name content, (["c"] ++ [name], Item.file content) ∈ spelledTree.items →
      name ∈ [".lingorc.json", "x.ts", "y.ts"] := by
    intro name content member
    simp only [spelledTree, List.mem_cons, Prod.mk.injEq, reduceCtorEq, and_false, false_or,
      List.cons_append, List.nil_append, List.cons.injEq, and_true, true_and, List.not_mem_nil,
      or_false] at member ⊢
    tauto
  rw [Selection.mem_reached_here]
  constructor
  · rintro ⟨⟨name, content, there, rfl⟩, script⟩
    have all : ∀ name ∈ [".lingorc.json", "x.ts", "y.ts"],
        Selection.isScript (Path.join "." name) = true →
          Path.join "." name = "./x.ts" ∨ Path.join "." name = "./y.ts" := by
      decide
    exact all name (files name content there) script
  · rintro (rfl | rfl)
    · exact ⟨⟨"x.ts", .text "_(\"A\");", by decide, by decide⟩, by decide⟩
    · exact ⟨⟨"y.ts", .text "_(\"B\");", by decide, by decide⟩, by decide⟩

private theorem short : ∀ entry ∈ spelledSettings.includes,
    ∀ path ∈ entry :: reached (spelledTree.seenFrom ["c"]) false entry,
      (Path.join (absolute ["c"]) path).utf8ByteSize < pathLimit := by
  intro entry member path inside
  obtain rfl : entry = "." := by simpa [spelledSettings] using member
  have all : ∀ path ∈ [".", "./x.ts", "./y.ts"],
      (Path.join (absolute ["c"]) path).utf8ByteSize < pathLimit := by
    decide
  rw [List.mem_cons, reached_iff] at inside
  exact all path (by simpa using inside)

private theorem leads {name : String} (member : name ∈ ["x.ts", "y.ts"]) : ∃ content,
    (spelledTree.seenFrom ["c"]).resolve (Path.join "." name) =
      .ok (["c", name], .file content) := by
  have files : ∀ name ∈ ["x.ts", "y.ts"], name ∈ ["c", "d", ".lingorc.json", "x.ts", "y.ts"] ∧
      FileTree.pathFault? (Path.join "." name) = none ∧
      FileTree.piecesOf (Path.join "." name) = [".", name] ∧
      (spelledTree.seenFrom ["c"]).startOf (Path.join "." name) = ["c"] ∧
      ∃ text ∈ ["_(\"A\");", "_(\"B\");"],
        spelledTree.item? ["c", name] = some (.file (.text text)) := by
    decide
  obtain ⟨known, sound, pieces, start, text, -, there⟩ := files name member
  have walked : (spelledTree.seenFrom ["c"]).walk true FileTree.linkLimit ["c"] [name] =
      .ok (.item (["c"] ++ [name]) (.file (.text text))) :=
    FileTree.walk_file (isName known).1 there
  refine ⟨.text text, ?_⟩
  rw [FileTree.resolve, FileTree.locate_eq, sound, pieces, start]
  simp only [FileTree.walk_void _ true _ _ (Or.inr rfl), walked]
  rfl

private theorem reachesFile {name : String} (member : name ∈ ["x.ts", "y.ts"]) :
    Reaches spelledTree ["c"] spelledSettings false (Path.join "." name) ["c", name] := by
  refine ⟨⟨".", by decide, reached_iff.mpr ?_⟩, leads member⟩
  have all : ∀ name ∈ ["x.ts", "y.ts"],
      Path.join "." name = "./x.ts" ∨ Path.join "." name = "./y.ts" := by
    decide
  exact all name member

private theorem eq_of_reaches {path : String}
    (h : Reaches spelledTree ["c"] spelledSettings false path ["c", "x.ts"]) : path = "./x.ts" := by
  obtain ⟨⟨entry, member, inside⟩, content, there⟩ := h
  obtain rfl : entry = "." := by simpa [spelledSettings] using member
  obtain rfl | rfl := reached_iff.mp inside
  · rfl
  · obtain ⟨other, elsewhere⟩ := leads (by decide : "y.ts" ∈ ["x.ts", "y.ts"])
    have same : (["c", "x.ts"], Item.file content) = (["c", "y.ts"], Item.file other) :=
      Except.ok.inj (there.symm.trans elsewhere)
    exact absurd (Prod.mk.inj same).1 (by decide)

end Spelled

/-- The settings of a directory select from another directory what they select there, but for what is
left out: there an entry leaves out the paths as they are reached, elsewhere both are joined to that
directory first. -/
theorem select_elsewhere {tree : FileTree} {home start : Names} {settings : Settings}
    {given : ExtractArguments} {locales : List String} (named : tree.IsNamed)
    (place : tree.IsPlace home) (placeStart : tree.IsPlace start) (other : home ≠ start)
    (valid : Settings.ofFile tree (settingsIn home) = .ok settings)
    (reaches : Settings.find? (tree.seenFrom start) (absolute start) = some (settingsIn home))
    (noPaths : given.paths = []) (noExcludes : given.excludes = [])
    (asked : askedLocales settings given = .ok locales) (someLocales : locales ≠ [])
    (full : ∀ entry ∈ settings.includes, entry ≠ "")
    (short : ∀ entry ∈ settings.includes,
      ∀ path ∈ entry :: reached (tree.seenFrom home) (given.recursive || settings.recursive) entry,
        (Path.join (absolute home) path).utf8ByteSize < pathLimit) :
    let file := some (settingsIn home)
    ∃ near far : Plan,
      Settings.load (tree.seenFrom home) (absolute home) = .ok (settings, file) ∧
      Settings.load (tree.seenFrom start) (absolute start) = .ok (settings, file) ∧
      plan (absolute home) settings file given = .ok near ∧
      plan (absolute start) settings file given = .ok far ∧
      near.options = far.options ∧
      (∀ names, (near.select (tree.seenFrom home)).Holds (tree.seenFrom home) names ↔
        ∃ path, Reaches tree home settings (given.recursive || settings.recursive) path names ∧
          ∀ text ∈ settings.excludes, ¬LeavesOut text path) ∧
      (∀ names, (far.select (tree.seenFrom start)).Holds (tree.seenFrom start) names ↔
        ∃ path, Reaches tree home settings (given.recursive || settings.recursive) path names ∧
          ∀ text ∈ settings.excludes, ¬LeavesOutBelow (absolute home) text path) := by
  intro file
  refine ⟨_, _, load_of_find? valid (find?_home valid), load_of_find? valid reaches,
    plan_home place noPaths noExcludes asked someLocales,
    plan_elsewhere place noPaths noExcludes asked someLocales placeStart.proper other, rfl, ?_, ?_⟩
  · exact fun names => holds_home named short locales
  · exact fun names =>
      holds_elsewhere named place short locales (clean_of_ofFile valid) start full

theorem select_elsewhere_of_spelled : ∃ near far : Plan,
    plan "/c" spelledSettings (some "/c/.lingorc.json") {} = .ok near ∧
    plan "/c/d" spelledSettings (some "/c/.lingorc.json") {} = .ok far ∧
    (near.select (spelledTree.seenFrom ["c"])).Holds (spelledTree.seenFrom ["c"]) ["c", "y.ts"] ∧
    (far.select (spelledTree.seenFrom ["c", "d"])).Holds (spelledTree.seenFrom ["c", "d"])
      ["c", "y.ts"] := by
  have asked : askedLocales spelledSettings {} = .ok ["fr"] := by decide
  obtain ⟨near, far, -, -, planned, plannedFar, -, selected, selectedFar⟩ :=
    select_elsewhere Spelled.named Spelled.home Spelled.place (by decide) Spelled.valid
      Spelled.reaches rfl rfl asked (by decide) (by decide) Spelled.short
  refine ⟨near, far, planned, plannedFar, (selected _).mpr ?_, (selectedFar _).mpr ?_⟩
  · exact ⟨Path.join "." "y.ts", Spelled.reachesFile (by decide), by decide⟩
  · exact ⟨Path.join "." "y.ts", Spelled.reachesFile (by decide), by decide⟩

/-- The settings leave `x.ts` out. In their directory it is selected, from below it is not. -/
theorem not_select_alike : ∃ near far : Plan,
    plan "/c" spelledSettings (some "/c/.lingorc.json") {} = .ok near ∧
    plan "/c/d" spelledSettings (some "/c/.lingorc.json") {} = .ok far ∧
    (near.select (spelledTree.seenFrom ["c"])).Holds (spelledTree.seenFrom ["c"]) ["c", "x.ts"] ∧
    ¬(far.select (spelledTree.seenFrom ["c", "d"])).Holds (spelledTree.seenFrom ["c", "d"])
      ["c", "x.ts"] := by
  have asked : askedLocales spelledSettings {} = .ok ["fr"] := by decide
  refine ⟨_, _, plan_home Spelled.home rfl rfl asked (by decide),
    plan_elsewhere Spelled.home rfl rfl asked (by decide) Spelled.place.proper (by decide), ?_, ?_⟩
  · rw [holds_home Spelled.named Spelled.short]
    exact ⟨Path.join "." "x.ts", Spelled.reachesFile (by decide), by decide⟩
  · rw [holds_elsewhere Spelled.named Spelled.home Spelled.short _ (by decide) _ (by decide)]
    rintro ⟨path, there, kept⟩
    obtain rfl := Spelled.eq_of_reaches there
    exact kept "x.ts" (by decide) (by decide)

end Phrasebook.CommandLine
