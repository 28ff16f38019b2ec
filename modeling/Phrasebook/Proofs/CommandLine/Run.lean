import Phrasebook.CommandLine.Run
import Phrasebook.Proofs.Extraction.Report
import Phrasebook.Proofs.Files.Place
import Phrasebook.Proofs.Settings.Discovery

/-!
Runs of the program: how a run ends agrees with what it has done to the files.
-/

set_option autoImplicit false

namespace Phrasebook.CommandLine

open Extraction (extract outcomes outputDirectory scanFile turns Turn)

section Plans

variable {place : String} {settings : Settings} {file : Option String} {given : ExtractArguments}

/-- The locales that are asked for: those of the list that is given, or else those of the settings. -/
def askedLocales (settings : Settings) (given : ExtractArguments) :
    Except Locale.UnknownTag (List String) :=
  Locale.parseList (given.locales.getD (String.intercalate "," settings.locales))

theorem targetLocales_eq_ok_iff {locales : List String} :
    targetLocales settings given.locales = .ok locales ↔
      askedLocales settings given = .ok locales ∧ locales ≠ [] := by
  have solid : ∀ {first : String} {rest : List String}, first :: rest = locales → locales ≠ [] := by
    rintro first rest rfl
    simp
  unfold targetLocales askedLocales Settings.targets
  cases given.locales <;>
  · simp only [Option.getD_none, Option.getD_some]
    rcases Locale.parseList _ with tag | _ | ⟨first, rest⟩
    · simp [Except.mapError]
    · simp +contextual [Except.mapError]
    · simpa [Except.mapError] using solid

theorem locales_of_plan {p : Plan} (h : plan place settings file given = .ok p) :
    askedLocales settings given = .ok p.options.locales ∧ p.options.locales ≠ [] := by
  unfold plan at h
  cases found : targetLocales settings given.locales with
  | error reason =>
    rw [found] at h
    cases h
  | ok locales =>
    rw [found] at h
    obtain rfl := Except.ok.inj h
    exact targetLocales_eq_ok_iff.mp found

theorem exists_plan {locales : List String} (asked : askedLocales settings given = .ok locales)
    (full : locales ≠ []) (place : String) (file : Option String) :
    ∃ p, plan place settings file given = .ok p := by
  unfold plan
  rw [targetLocales_eq_ok_iff.mpr ⟨asked, full⟩]
  exact ⟨_, rfl⟩

end Plans

variable (colored : Bool) (tree : FileTree)

theorem report_carryOut (p : Plan) :
    let report := ((extract p.options (p.select tree).files).run tree).1
    let carried := (p.carryOut.run tree).1
    carried.failures = report.failures ++ (p.select tree).missing.map (⟨·, .missing⟩) ∧
      carried.directories = report.directories := by
  simp only [Plan.carryOut, StateT.run_bind, StateT.run_get, pure_bind]
  exact ⟨rfl, rfl⟩

/-- All that a plan asks for goes well: all inputs exist, all script files have a catalog directory and
can be searched, and no catalog fails. -/
structure Plan.Succeeds (p : Plan) (tree : FileTree) : Prop where
  inputs : (p.select tree).missing = []
  files : ∀ file ∈ (p.select tree).files, ∃ directory scan,
    outputDirectory file p.options.directory = .ok directory ∧
      scanFile tree p.options.markers file = .ok scan
  catalogs : ∀ turn ∈ turns p.options (p.select tree).files tree, ∃ count,
    turn.result p.options (outcomes tree p.options (p.select tree).files) = .ok count

theorem failures_carryOut_eq_nil_iff (p : Plan) :
    (p.carryOut.run tree).1.failures = [] ↔ p.Succeeds tree := by
  rw [(report_carryOut tree p).1, List.append_eq_nil_iff, List.map_eq_nil_iff,
    Extraction.failures_extract_eq_nil_iff]
  constructor
  · rintro ⟨⟨files, catalogs⟩, inputs⟩
    exact ⟨inputs, files, catalogs⟩
  · rintro ⟨inputs, files, catalogs⟩
    exact ⟨⟨files, catalogs⟩, inputs⟩

/-- A run to its end has done what its plan says. Its status tells whether the report has a failure,
and so whether all went well; if it did, each directory with messages has the catalogs of all
locales. -/
structure Completes (p : Plan) (tree later : FileTree) (status : Status) : Prop where
  later : later = (p.carryOut.run tree).2
  failure : status = .failure ↔ (p.carryOut.run tree).1.failures ≠ []
  success : status = .success ↔ (p.carryOut.run tree).1.failures = []
  sound : status = .success ↔ p.Succeeds tree
  written : status = .success → ∀ report ∈ (p.carryOut.run tree).1.directories,
    0 < report.entries → report.written = p.options.locales

theorem status_reportOutcome (report : Extraction.Report) :
    (reportOutcome colored report).status = if report.failures = [] then .success else .failure := by
  unfold reportOutcome Extraction.Report.hasFailures
  cases report.failures <;> rfl

theorem completes_carryOut (p : Plan) :
    Completes p tree (p.carryOut.run tree).2
      (reportOutcome colored (p.carryOut.run tree).1).status := by
  rw [status_reportOutcome]
  have sound := failures_carryOut_eq_nil_iff tree p
  by_cases none : (p.carryOut.run tree).1.failures = []
  · rw [if_pos none]
    have succeeds := sound.mp none
    refine ⟨rfl, by simp [none], by simp [none], by simp [succeeds], fun _ report member full => ?_⟩
    rw [(report_carryOut tree p).2] at member
    exact Extraction.written_eq_of_turns member succeeds.catalogs full
  · rw [if_neg none]
    exact ⟨rfl, by simp [none], by simp [none], by simp [← sound, none], by simp⟩

theorem runExtract_of_error (given : ExtractArguments) {error : Settings.LoadError}
    (load : Settings.load tree tree.placePath = .error error) :
    (runExtract colored given).run tree = ((Fatal.settings error).outcome [], tree) := by
  simp only [runExtract, StateT.run_bind, StateT.run_get, pure_bind, load]
  rfl

theorem runExtract_of_refused {settings : Settings} {file : Option String} {given : ExtractArguments}
    (load : Settings.load tree tree.placePath = .ok (settings, file)) {reason : Fatal}
    (refused : plan tree.placePath settings file given = .error reason) :
    (runExtract colored given).run tree = (reason.outcome (settingsEvents file), tree) := by
  simp only [runExtract, StateT.run_bind, StateT.run_get, pure_bind, load, refused]
  rfl

theorem runExtract_of_plan {settings : Settings} {file : Option String} {given : ExtractArguments}
    (load : Settings.load tree tree.placePath = .ok (settings, file)) {p : Plan}
    (planned : plan tree.placePath settings file given = .ok p) :
    ((runExtract colored given).run tree).1.status =
        (reportOutcome colored (p.carryOut.run tree).1).status ∧
      ((runExtract colored given).run tree).2 = (p.carryOut.run tree).2 := by
  simp only [runExtract, StateT.run_bind, StateT.run_get, pure_bind, load, planned]
  exact ⟨rfl, rfl⟩

/-- An extraction is broken off before it changes anything: when the settings cannot be had, or when
there are no locales to write catalogs for. Else it comes to its end. -/
theorem runExtract_cases (given : ExtractArguments) :
    let ended := (runExtract colored given).run tree
    let broken := (∃ error, Settings.load tree tree.placePath = .error error) ∨
      ∃ settings file, Settings.load tree tree.placePath = .ok (settings, file) ∧
        ∀ locales, askedLocales settings given = .ok locales → locales = []
    (broken ∧ ended.1.status = .fatal ∧ ended.2 = tree) ∨
      ¬broken ∧ ∃ settings file p, Settings.load tree tree.placePath = .ok (settings, file) ∧
        plan tree.placePath settings file given = .ok p ∧
          Completes p tree ended.2 ended.1.status := by
  intro ended broken
  cases load : Settings.load tree tree.placePath with
  | error error =>
    left
    have result : ended = _ := runExtract_of_error colored tree given load
    rw [result]
    exact ⟨Or.inl ⟨error, load⟩, rfl, rfl⟩
  | ok found =>
    obtain ⟨settings, file⟩ := found
    cases planned : plan tree.placePath settings file given with
    | error reason =>
      left
      have result : ended = _ := runExtract_of_refused colored tree load planned
      rw [result]
      refine ⟨Or.inr ⟨settings, file, load, fun locales asked => ?_⟩, rfl, rfl⟩
      by_contra full
      obtain ⟨p, other⟩ := exists_plan asked full tree.placePath file
      rw [planned] at other
      cases other
    | ok p =>
      right
      refine ⟨?_, settings, file, p, rfl, planned, ?_⟩
      · rintro (⟨error, other⟩ | ⟨settings', file', other, none⟩)
        · rw [load] at other
          cases other
        · rw [load] at other
          obtain ⟨rfl, rfl⟩ := Prod.mk.inj (Except.ok.inj other)
          obtain ⟨asked, full⟩ := locales_of_plan planned
          exact full (none _ asked)
      · obtain ⟨status, later⟩ := runExtract_of_plan colored tree load planned
        have result : ended.1.status = _ ∧ ended.2 = _ := ⟨status, later⟩
        rw [result.1, result.2]
        exact completes_carryOut colored tree p

/-- The working directory has a file with the usual settings: they are what is found from every path
that leads to it over no link. -/
structure HoldsDefault (tree : FileTree) : Prop where
  here : Settings.load tree "." = .ok ({}, some (Path.join "." Settings.fileName))
  spelled : ∀ directory, FileTree.pathFault? (Path.join directory Settings.fileName) = none →
    tree.descend (tree.startOf directory) (FileTree.piecesOf directory) = some tree.place →
      Settings.load tree directory = .ok ({}, some (Path.join directory Settings.fileName))
  /-- So they are from the path of that directory itself, unless it is too long. -/
  own : tree.IsPlace tree.place →
    FileTree.pathFault? (Path.join tree.placePath Settings.fileName) = none →
      Settings.load tree tree.placePath = .ok ({}, some (Path.join tree.placePath Settings.fileName))

theorem holdsDefault_of_locate {names : Names}
    (there : tree.locate true Settings.fileName =
      .ok (.item names (.file (.text ({} : Settings).render)))) : HoldsDefault tree := by
  have usable := Settings.defect?_default
  refine ⟨Settings.load_of_locate usable there (by decide) rfl,
    fun _ => Settings.load_of_locate usable there,
    fun place sound => Settings.load_of_locate usable there sound ?_⟩
  have start : tree.startOf tree.placePath = [] := by
    rw [FileTree.startOf, FileTree.placePath, FileTree.isAbsolute_absolute, if_pos rfl]
  rw [start]
  exact FileTree.descend_absolute place

def writeDefault : Change Unit := Change.write Settings.fileName (.text ({} : Settings).render)

theorem runInit_of_isPresent (there : tree.isPresent Settings.fileName = true) :
    ((runInit colored).run tree).1.status = .failure ∧ ((runInit colored).run tree).2 = tree := by
  simp only [runInit, StateT.run_bind, StateT.run_get, pure_bind, there, if_true]
  exact ⟨rfl, rfl⟩

theorem runInit_of_absent (absent : tree.isPresent Settings.fileName = false) :
    let ended := (runInit colored).run tree
    (∃ fault, (tree.perform writeDefault).1 = .error fault) ∧
        ended.1.status = .fatal ∧ ended.2 = tree ∨
      (tree.perform writeDefault).1 = .ok () ∧ ended.1.status = .success ∧
        HoldsDefault ended.2 := by
  intro ended
  rcases done : tree.perform writeDefault with ⟨fault | _, later⟩
  · have result : ended = ((Fatal.unwritable fault).outcome [], later) := by
      rw [FileTree.perform, writeDefault] at done
      simp only [ended, runInit, StateT.run_bind, StateT.run_get, pure_bind, absent,
        Bool.false_eq_true, if_false, done]
      rfl
    rw [result]
    exact Or.inl ⟨⟨fault, rfl⟩, rfl, (FileTree.perform_write_of_leadsTo rfl done).1⟩
  · have result : ended.1.status = .success ∧ ended.2 = later := by
      rw [FileTree.perform, writeDefault] at done
      simp only [ended, runInit, StateT.run_bind, StateT.run_get, pure_bind, absent,
        Bool.false_eq_true, if_false, done]
      exact ⟨rfl, rfl⟩
    obtain ⟨names, there⟩ := Settings.locate_of_write absent done
    rw [result.2]
    exact Or.inr ⟨rfl, result.1, holdsDefault_of_locate later there⟩

section Runs

variable (environment : Environment) (arguments : List String)

theorem execute_of_refusal {refusal : Refusal}
    (refused : parse environment.locales arguments = .error refusal) :
    (execute colored environment arguments).run tree = (refusal.outcome environment, tree) := by
  simp only [execute, refused]
  rfl

theorem execute_of_command {command : Option Command}
    (asked : parse environment.locales arguments = .ok command) :
    let ran := (run colored environment.locales command).run tree
    let ended := (execute colored environment arguments).run tree
    ended.1.status = ran.1.status ∧ ended.2 = ran.2 := by
  simp only [execute, asked, StateT.run_bind]
  exact ⟨rfl, rfl⟩

end Runs

/-- How a run ends agrees with what it has done. A run that is broken off has changed nothing. An
extraction is broken off only if the settings cannot be had or there are no locales; else its status
tells whether its report has a failure. Settings that are there are not written; else they are found as
they were written, unless this fails. -/
theorem status_execute (colored : Bool) (tree : FileTree) (environment : Environment)
    (arguments : List String) :
    let ended := (execute colored environment arguments).run tree
    (ended.1.status = .fatal → ended.2 = tree) ∧
      (∀ given, parse environment.locales arguments = .ok (some (.extract given)) →
        (ended.1.status = .fatal ↔
          (∃ error, Settings.load tree tree.placePath = .error error) ∨
            ∃ settings file, Settings.load tree tree.placePath = .ok (settings, file) ∧
              ∀ locales, askedLocales settings given = .ok locales → locales = []) ∧
        (ended.1.status ≠ .fatal → ∃ settings file p,
          Settings.load tree tree.placePath = .ok (settings, file) ∧
            plan tree.placePath settings file given = .ok p ∧
              Completes p tree ended.2 ended.1.status)) ∧
      (parse environment.locales arguments = .ok (some .init) →
        (tree.isPresent Settings.fileName = true →
          ended.1.status = .failure ∧ ended.2 = tree) ∧
        (tree.isPresent Settings.fileName = false →
          (∃ fault, (tree.perform writeDefault).1 = .error fault) ∧
              ended.1.status = .fatal ∧ ended.2 = tree ∨
            (tree.perform writeDefault).1 = .ok () ∧ ended.1.status = .success ∧
              HoldsDefault ended.2)) := by
  intro ended
  cases asked : parse environment.locales arguments with
  | error refusal =>
    have result : ended = _ := execute_of_refusal colored tree environment arguments asked
    rw [result]
    exact ⟨fun _ => rfl, by simp, by simp⟩
  | ok command =>
    obtain ⟨status, later⟩ := execute_of_command colored tree environment arguments asked
    have result : ended.1.status = _ ∧ ended.2 = _ := ⟨status, later⟩
    rw [result.1, result.2]
    match command with
    | none => exact ⟨fun _ => rfl, by simp, by simp⟩
    | some (.extract given) =>
      rcases runExtract_cases colored tree given with ⟨broken, fatal, same⟩ | ⟨whole, completes⟩
      · refine ⟨fun _ => same, fun other equal => ?_, by simp⟩
        obtain rfl := Command.extract.inj (Option.some.inj (Except.ok.inj equal))
        exact ⟨iff_of_true fatal broken, fun ends => absurd fatal ends⟩
      · obtain ⟨settings, file, p, load, planned, ends⟩ := completes
        have notFatal : ((runExtract colored given).run tree).1.status ≠ .fatal := by
          intro fatal
          have failed := ends.failure
          have succeeded := ends.success
          rw [fatal] at failed succeeded
          simp only [reduceCtorEq, false_iff, not_not] at failed succeeded
          exact succeeded failed
        refine ⟨fun fatal => absurd fatal notFatal, fun other equal => ?_, by simp⟩
        obtain rfl := Command.extract.inj (Option.some.inj (Except.ok.inj equal))
        exact ⟨iff_of_false notFatal whole, fun _ => ⟨settings, file, p, load, planned, ends⟩⟩
    | some .init =>
      refine ⟨fun fatal => ?_, by simp, fun _ => ⟨?_, ?_⟩⟩
      · cases present : tree.isPresent Settings.fileName with
        | true => exact (runInit_of_isPresent colored tree present).2
        | false =>
          rcases runInit_of_absent colored tree present with ⟨-, -, same⟩ | ⟨-, success, -⟩
          · exact same
          · rw [run, success] at fatal
            cases fatal
      · exact runInit_of_isPresent colored tree
      · exact runInit_of_absent colored tree

section Nothing

open FileTree (IsName locate_eq walk_void walk_free)

private theorem isName_fileName : IsName Settings.fileName :=
  ⟨by decide, by decide, by decide, by decide⟩

private theorem locate_nothing :
    FileTree.locate {} true Settings.fileName = .ok (.free [Settings.fileName]) := by
  have sound : FileTree.pathFault? Settings.fileName = none := by decide
  have pieces : FileTree.piecesOf Settings.fileName = [Settings.fileName] := by decide
  rw [locate_eq, sound, pieces]
  exact walk_free isName_fileName rfl

private theorem locate_root {name : String} (proper : IsName name)
    (sound : FileTree.pathFault? (Path.join "/" name) = none)
    (pieces : FileTree.piecesOf (Path.join "/" name) = ["", name]) :
    FileTree.locate {} true (Path.join "/" name) = .ok (.free [name]) := by
  have start : FileTree.startOf {} (Path.join "/" name) = [] := by simp [FileTree.startOf]
  rw [locate_eq, sound, pieces, start]
  simp only
  rw [walk_void _ _ _ _ (Or.inl rfl), walk_free proper rfl]
  rfl

private theorem isPresent_of_free {tree : FileTree} {path : String} {names : Names}
    (free : tree.locate true path = .ok (.free names)) : tree.isPresent path = false := by
  rw [FileTree.isPresent, FileTree.resolve, free]
  rfl

private theorem load_nothing : Settings.load {} (FileTree.placePath {}) = .ok ({}, none) := by
  have settings : FileTree.isPresent {} (Path.join "/" Settings.fileName) = false :=
    isPresent_of_free (locate_root isName_fileName (by decide) (by decide))
  have repository : FileTree.isPresent {} (Path.join "/" Settings.repositoryMark) = false :=
    isPresent_of_free (locate_root ⟨by decide, by decide, by decide, by decide⟩ (by decide) (by decide))
  have place : FileTree.placePath {} = "/" := rfl
  have found : Settings.find? {} "/" = none :=
    Settings.findWithin_of_top (by simp [settings]) (by simp [repository]) (by decide) _
  rw [place, Settings.load, found]

theorem status_execute_of_nothing :
    let written := (execute false {} ["init"]).run {}
    let searched := (execute false {} ["extract", "-l", "fr"]).run {}
    let broken := (execute false {} ["extract", "-l", ""]).run {}
    (written.1.status = .success ∧ HoldsDefault written.2) ∧
      (∃ p, p.options.locales = ["fr"] ∧ Completes p {} searched.2 searched.1.status) ∧
      broken.1.status = .fatal ∧ broken.2 = {} := by
  refine ⟨?_, ?_, ?_⟩
  · obtain ⟨-, -, init⟩ := status_execute false {} {} ["init"]
    rcases (init (by decide)).2 (isPresent_of_free locate_nothing) with
      ⟨⟨fault, failed⟩, -⟩ | ⟨-, ends⟩
    · rw [writeDefault, FileTree.perform_write, locate_nothing] at failed
      cases failed
    · exact ends
  · obtain ⟨-, extract, -⟩ := status_execute false {} {} ["extract", "-l", "fr"]
    obtain ⟨fatal, completes⟩ := extract { locales := some "fr" } (by decide)
    have french : ∀ settings, askedLocales settings { locales := some "fr" } = .ok ["fr"] := by
      have parsed : Locale.parseList "fr" = .ok ["fr"] := by decide
      exact fun _ => parsed
    obtain ⟨settings, file, p, -, planned, ends⟩ := completes fun ended => by
      rcases fatal.mp ended with ⟨error, load⟩ | ⟨settings, file, -, none⟩
      · rw [load_nothing] at load
        cases load
      · cases none _ (french settings)
    obtain ⟨asked, -⟩ := locales_of_plan planned
    exact ⟨p, Except.ok.inj (asked.symm.trans (french settings)), ends⟩
  · obtain ⟨same, extract, -⟩ := status_execute false {} {} ["extract", "-l", ""]
    have nothing : Locale.parseList "" = .ok [] := by decide
    have ended := (extract { locales := some "" } (by decide)).1.mpr
      (Or.inr ⟨{}, none, load_nothing, fun _ asked => (Except.ok.inj (nothing.symm.trans asked)).symm⟩)
    exact ⟨ended, same ended⟩

end Nothing

end Phrasebook.CommandLine
