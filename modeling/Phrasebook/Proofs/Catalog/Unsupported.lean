import Phrasebook.Proofs.Catalog.Ends
import Phrasebook.Proofs.Catalog.NormalForm

/-!
Message contexts, plural forms and obsolete messages between two written catalogs. Their lines are
skipped, but a string that continues one of them is taken for a part of the message before it.
-/

set_option autoImplicit false

namespace Phrasebook.Catalog

open Text (IsEnded isBlank solidLines)

def tags : List (List Char) := ["msgctxt ".toList, "msgid_plural ".toList, "msgstr[".toList]

/-- A construct that catalogs have no place for: a tagged line with the quoted strings below it, or a
line of an obsolete message. -/
inductive Unsupported
  | tagged (tag rest : List Char) (strings : List (List Char))
  | obsolete (rest : List Char)

namespace Unsupported

/-- A string between quotes as it stands, without escapes for what is in it. -/
def enclosed (inner : List Char) : List Char := '"' :: (inner ++ ['"'])

def lines : Unsupported → List (List Char)
  | tagged tag rest strings => (tag ++ rest) :: strings.map enclosed
  | obsolete rest => ['#' :: '~' :: rest]

def IsProper : Unsupported → Prop
  | tagged tag rest strings => tag ∈ tags ∧ '\n' ∉ rest ∧ ∀ inner ∈ strings, '\n' ∉ inner
  | obsolete rest => '\n' ∉ rest

def text (parts : List Unsupported) : String :=
  String.ofList ((parts.flatMap lines).flatMap endLine)

/-- What the strings before the first obsolete line say. -/
def leaked : List Unsupported → List Char
  | [] => []
  | tagged _ _ strings :: rest => strings.flatMap unescape ++ leaked rest
  | obsolete _ :: _ => []

end Unsupported

open Unsupported (enclosed leaked)

private theorem trim_enclosed (inner : List Char) : Text.trim (enclosed inner) = enclosed inner := by
  refine Text.trim_of_isTrimmed ⟨?_, ?_⟩
  · intro c hc
    obtain rfl : '"' = c := by simpa [enclosed] using hc
    rfl
  · intro c hc
    obtain rfl : '"' = c := by simpa [enclosed, List.getLast?_cons] using hc
    rfl

private theorem unquote?_enclosed (inner : List Char) :
    unquote? (enclosed inner) = some (unescape inner) := by
  have opened : Text.dropStart? ['"'] (enclosed inner) = some (inner ++ ['"']) :=
    Text.dropStart?_append ['"'] _
  simp [unquote?, trim_enclosed, opened]

private theorem not_mem_lines_of_isProper {part : Unsupported} (proper : part.IsProper) :
    ∀ line ∈ part.lines, '\n' ∉ line := by
  cases part with
  | tagged tag rest strings =>
    obtain ⟨known, clean, inside⟩ := proper
    intro line hl
    rcases List.mem_cons.mp hl with rfl | hl
    · have tagClean : ∀ word ∈ tags, '\n' ∉ word := by decide
      simp [tagClean tag known, clean]
    · obtain ⟨inner, member, rfl⟩ := List.mem_map.mp hl
      simp [enclosed, inside inner member]
  | obsolete rest =>
    have clean : '\n' ∉ rest := proper
    simp [Unsupported.lines, clean]

private theorem trimEnd_append_of_solid {word : List Char} (solid : ∀ c ∈ word, isBlank c = false)
    (rest : List Char) : Text.trimEnd (word ++ rest) = word ++ Text.trimEnd rest := by
  induction word with
  | nil => rfl
  | cons c word ih =>
    rw [List.cons_append, Text.trimEnd_cons_of_not_isBlank (solid c (by simp)),
      ih fun d hd => solid d (by simp [hd]), List.cons_append]

private theorem trim_append_of_solid (word : List Char)
    (solid : (word.all fun c => !isBlank c) = true) (filled : word ≠ []) (rest : List Char) :
    Text.trim (word ++ rest) = word ++ Text.trimEnd rest := by
  have clean : ∀ c ∈ word, isBlank c = false := by simpa using solid
  have start : Text.trimStart (word ++ rest) = word ++ rest := by
    refine Text.trimStart_of_head fun c hc => ?_
    obtain ⟨d, more, rfl⟩ := List.exists_cons_of_ne_nil filled
    obtain rfl : d = c := by simpa using hc
    exact clean d (by simp)
  rw [Text.trim, start, trimEnd_append_of_solid clean]

private theorem advance_tagged {tag : List Char} (known : tag ∈ tags) (rest : List Char)
    (reading : Reading) : reading.advance (tag ++ rest) = reading.silent := by
  simp only [tags, List.mem_cons, List.not_mem_nil, or_false] at known
  rcases known with rfl | rfl | rfl
  · have trimmed : Text.trim ("msgctxt ".toList ++ rest) = "msgctxt".toList ++ Text.trimEnd (' ' :: rest) :=
      trim_append_of_solid "msgctxt".toList (by decide) (by decide) (' ' :: rest)
    rw [Reading.advance, trimmed]
    rfl
  · have trimmed : Text.trim ("msgid_plural ".toList ++ rest) =
        "msgid_plural".toList ++ Text.trimEnd (' ' :: rest) :=
      trim_append_of_solid "msgid_plural".toList (by decide) (by decide) (' ' :: rest)
    rw [Reading.advance, trimmed]
    rfl
  · have trimmed : Text.trim ("msgstr[".toList ++ rest) = "msgstr[".toList ++ Text.trimEnd rest :=
      trim_append_of_solid "msgstr[".toList (by decide) (by decide) rest
    rw [Reading.advance, trimmed]
    rfl

private theorem advance_obsolete (rest : List Char) (reading : Reading) :
    reading.advance ('#' :: '~' :: rest) = reading.flush.silent := by
  have trimmed : Text.trim ('#' :: '~' :: rest) = '#' :: '~' :: Text.trimEnd rest :=
    trim_append_of_solid ['#', '~'] (by decide) (by decide) rest
  rw [Reading.advance_metadata reading trimmed]
  rfl

/-- Strings below a tagged line become a part of the text before it. -/
private theorem foldl_advance_enclosed (stored : Catalog) (pending : Entry)
    (strings : List (List Char)) :
    (strings.map enclosed).foldl Reading.advance { catalog := stored, stage := .text, pending } =
      { catalog := stored
        stage := .text
        pending :=
          { pending with
            localized := pending.localized ++ String.ofList (strings.flatMap unescape) } } := by
  induction strings generalizing pending with
  | nil => simp
  | cons inner strings ih =>
    have opened : (Text.trim (enclosed inner)).head? = some '"' := by
      rw [trim_enclosed]
      rfl
    have content : unquote? (Text.trim (enclosed inner)) = some (unescape inner) := by
      rw [trim_enclosed, unquote?_enclosed]
    rw [List.map_cons, List.foldl_cons, Reading.advance_text_continuation opened content rfl, ih]
    simp [String.append_assoc]

private theorem foldl_advance_enclosed_outside (stored : Catalog) (strings : List (List Char)) :
    (strings.map enclosed).foldl Reading.advance (Reading.start stored) = Reading.start stored := by
  induction strings with
  | nil => rfl
  | cons inner strings ih =>
    have opened : (Text.trim (enclosed inner)).head? = some '"' := by
      rw [trim_enclosed]
      rfl
    have skipped : (Reading.start stored).advance (enclosed inner) = Reading.start stored :=
      Reading.advance_outside_continuation opened rfl
    rw [List.map_cons, List.foldl_cons, skipped, ih]

private theorem foldl_advance_outside (stored : Catalog) {parts : List Unsupported}
    (proper : ∀ part ∈ parts, part.IsProper) :
    (parts.flatMap Unsupported.lines).foldl Reading.advance (Reading.start stored) =
      Reading.start stored := by
  induction parts with
  | nil => rfl
  | cons part parts ih =>
    have rest := ih fun other ho => proper other (by simp [ho])
    have here : part.lines.foldl Reading.advance (Reading.start stored) = Reading.start stored := by
      cases part with
      | tagged tag line strings =>
        obtain ⟨known, -, -⟩ := proper (.tagged tag line strings) (by simp)
        have skipped : (Reading.start stored).advance (tag ++ line) = Reading.start stored :=
          advance_tagged known line _
        rw [Unsupported.lines, List.foldl_cons, skipped, foldl_advance_enclosed_outside]
      | obsolete line =>
        rw [Unsupported.lines, List.foldl_cons, List.foldl_nil, advance_obsolete]
        rfl
    rw [List.flatMap_cons, List.foldl_append, here, rest]

/-- Between two messages, with all messages before in the catalog. -/
private structure Settles (reading : Reading) (stored : Catalog) : Prop where
  ready : reading.IsReady
  quiet : reading.skipped = []
  stored : reading.flush.catalog = stored

private theorem settles_foldl_advance (stored : Catalog) (pending : Entry) {parts : List Unsupported}
    (proper : ∀ part ∈ parts, part.IsProper) :
    Settles ((parts.flatMap Unsupported.lines).foldl Reading.advance
        { catalog := stored, stage := .text, pending })
      (stored.insert
        { pending with localized := pending.localized ++ String.ofList (leaked parts) }) := by
  induction parts generalizing pending with
  | nil => exact ⟨Reading.isReady_message _ _, rfl, by simp [leaked, Reading.flush]⟩
  | cons part parts ih =>
    have rest : ∀ other ∈ parts, other.IsProper := fun other ho => proper other (by simp [ho])
    rw [List.flatMap_cons, List.foldl_append]
    cases part with
    | tagged tag line strings =>
      obtain ⟨known, -, -⟩ := proper (.tagged tag line strings) (by simp)
      have skipped := advance_tagged known line { catalog := stored, stage := .text, pending }
      have below := ih { pending with
        localized := pending.localized ++ String.ofList (strings.flatMap unescape) } rest
      have longer : pending.localized ++ String.ofList (leaked (.tagged tag line strings :: parts)) =
          pending.localized ++ String.ofList (strings.flatMap unescape) ++
            String.ofList (leaked parts) := by
        rw [leaked, String.ofList_append, String.append_assoc]
      have strung := foldl_advance_enclosed stored pending strings
      rw [Unsupported.lines, List.foldl_cons, skipped, longer]
      rw [← strung] at below
      exact below
    | obsolete line =>
      have ended : (Unsupported.obsolete line).lines.foldl Reading.advance
          { catalog := stored, stage := .text, pending } = Reading.start (stored.insert pending) := by
        rw [Unsupported.lines, List.foldl_cons, List.foldl_nil, advance_obsolete]
        rfl
      rw [ended, foldl_advance_outside _ rest]
      exact ⟨⟨by simp [Reading.start], rfl⟩, rfl, by simp [leaked, Reading.flush, Reading.start]⟩

/-- The message whose text is still open after a written catalog, unless the catalog after it has a
message of the same key. -/
def IsExposed (first second : Catalog) (key : String) : Prop :=
  first.sorted.getLast?.map Entry.key = some key ∧ key ∉ second.keys

instance (first second : Catalog) (key : String) : Decidable (IsExposed first second key) :=
  inferInstanceAs (Decidable (_ ∧ _))

private theorem exists_added_renderChars (catalog : Catalog) :
    ∃ added : List Entry, ∀ reading stored, Settles reading stored →
      ((solidLines catalog.renderChars).foldl Reading.advance reading).flush.catalog =
        added.foldl insert stored := by
  refine ⟨messages (solidLines catalog.renderChars), fun reading stored settled => ?_⟩
  rw [foldl_advance_of_begins (begins_renderChars catalog) settled.ready settled.quiet,
    foldl_advance_eq, settled.stored]

private theorem solidLines_text {parts : List Unsupported} (proper : ∀ part ∈ parts, part.IsProper) :
    solidLines (Unsupported.text parts).toList =
      ((parts.flatMap Unsupported.lines).map Text.trim).filter fun line => !line.isEmpty := by
  have whole : ∀ line ∈ parts.flatMap Unsupported.lines, '\n' ∉ line := by
    intro line hl
    obtain ⟨part, member, within⟩ := List.mem_flatMap.mp hl
    exact not_mem_lines_of_isProper (proper part member) line within
  rw [Unsupported.text, String.toList_ofList]
  exact Text.solidLines_flatMap whole

/-- A section between two catalogs is read after the first one and before the second one. -/
private theorem parse_append_append (first second : Catalog) {parts : List Unsupported}
    (proper : ∀ part ∈ parts, part.IsProper) (locale : String) :
    parse (first.render ++ Unsupported.text parts ++ second.render) locale =
      ((solidLines second.renderChars).foldl Reading.advance
        ((parts.flatMap Unsupported.lines).foldl Reading.advance
          ((solidLines first.renderChars).foldl Reading.advance
            (Reading.start (empty locale))))).flush.catalog := by
  have ended : IsEnded (Unsupported.text parts).toList := by
    rw [Unsupported.text, String.toList_ofList]
    exact Text.isEnded_flatMap _
  rw [parse_eq_foldl_solidLines, String.toList_append, String.toList_append, render, render,
    String.toList_ofList, String.toList_ofList, List.append_assoc,
    Text.solidLines_append (isEnded_renderChars first), Text.solidLines_append ended,
    solidLines_text proper, List.foldl_append, List.foldl_append,
    Reading.foldl_advance_trim (skipped_foldl_advance rfl _)]

private theorem parse_append_lineFeed (first second : Catalog) (locale : String) :
    parse (first.render ++ "\n" ++ second.render) locale =
      parse (first.render ++ Unsupported.text [] ++ second.render) locale := by
  have feed : "\n".toList = ['\n'] := rfl
  have nothing : (Unsupported.text []).toList = [] := rfl
  rw [parse_eq_foldl_solidLines, parse_eq_foldl_solidLines]
  simp only [String.toList_append, render, String.toList_ofList, feed, nothing, List.append_nil,
    List.append_assoc, Text.solidLines_append (isEnded_renderChars first), List.singleton_append,
    Text.solidLines_cons_of_isBlank (by decide : isBlank '\n' = true)]

private theorem parse_render_eq {second : Catalog} {added : List Entry}
    (run : ∀ reading stored, Settles reading stored →
      ((solidLines second.renderChars).foldl Reading.advance reading).flush.catalog =
        added.foldl insert stored) (locale : String) :
    parse second.render locale = added.foldl insert (empty locale) := by
  rw [parse_eq_foldl_solidLines, render, String.toList_ofList]
  exact run _ _ ⟨⟨by simp [Reading.start], rfl⟩, rfl, rfl⟩

def lengthened (entry : Entry) (more : List Char) : Entry :=
  { entry with localized := entry.localized ++ String.ofList more }

private theorem exists_parse_eq {first : Catalog} {last : Entry}
    (h : first.sorted.getLast? = some last) (second : Catalog) (locale : String) :
    ∃ (stored : Catalog) (entry : Entry) (added : List Entry), entry.key = last.key ∧
      parse second.render locale = added.foldl insert (empty locale) ∧
      ∀ parts, (∀ part ∈ parts, part.IsProper) →
        parse (first.render ++ Unsupported.text parts ++ second.render) locale =
          added.foldl insert (stored.insert (lengthened entry (leaked parts))) := by
  obtain ⟨added, run⟩ := exists_added_renderChars second
  have quiet : (Reading.start (empty locale)).skipped = [] := rfl
  obtain ⟨stored, told, opened⟩ := exists_foldl_advance_render h quiet
  refine ⟨stored, { told with key := last.key, localized := last.localized }, added, rfl,
    parse_render_eq run locale, fun parts proper => ?_⟩
  rw [parse_append_append first second proper, opened,
    run _ _ (settles_foldl_advance stored _ proper), lengthened]

private theorem parse_eq_of_isEmpty {first : Catalog} (h : first.sorted = []) (second : Catalog)
    {parts : List Unsupported} (proper : ∀ part ∈ parts, part.IsProper) (locale : String) :
    parse (first.render ++ Unsupported.text parts ++ second.render) locale =
      parse second.render locale := by
  have nothing : first.renderChars = [] := by
    rw [renderChars, h]
    rfl
  have skipped := foldl_advance_outside (empty locale) proper
  rw [parse_append_append first second proper, nothing, parse_eq_foldl_solidLines, render,
    String.toList_ofList]
  exact congrArg (fun reading => ((solidLines second.renderChars).foldl Reading.advance
    reading).flush.catalog) skipped

private theorem keys_get?_parse_unsupported {first : Catalog} (sound : first.IsSound)
    (second : Catalog) {parts : List Unsupported} (proper : ∀ part ∈ parts, part.IsProper)
    (locale : String) :
    (parse (first.render ++ Unsupported.text parts ++ second.render) locale).keys =
        (parse (first.render ++ "\n" ++ second.render) locale).keys ∧
      ∀ key, (IsExposed first (parse second.render locale) key →
          key ∈ (parse (first.render ++ "\n" ++ second.render) locale).keys) ∧
        (parse (first.render ++ Unsupported.text parts ++ second.render) locale).get? key =
          ((parse (first.render ++ "\n" ++ second.render) locale).get? key).map fun entry =>
            if IsExposed first (parse second.render locale) key then
              lengthened entry (leaked parts)
            else entry := by
  rw [parse_append_lineFeed]
  cases h : first.sorted.getLast? with
  | none =>
    have nothing : first.sorted = [] := List.getLast?_eq_none_iff.mp h
    have noParts : ∀ part ∈ ([] : List Unsupported), part.IsProper := by simp
    rw [parse_eq_of_isEmpty nothing second proper, parse_eq_of_isEmpty nothing second noParts]
    simp [IsExposed, h]
  | some last =>
    obtain ⟨stored, entry, added, same, alone, read⟩ := exists_parse_eq h second locale
    have named : entry.key ≠ "" := by
      have member := List.mem_of_getLast? h
      rw [same]
      exact sound.named last (first.sorted_perm.mem_iff.mp member)
    have named' (more : List Char) : (lengthened entry more).key ≠ "" := named
    have bare : lengthened entry (leaked []) = entry := by simp [lengthened, leaked]
    refine ⟨?_, fun key => ?_⟩
    · have same : (lengthened entry (leaked parts)).key = (lengthened entry (leaked [])).key := rfl
      rw [read parts proper, read [] (by simp)]
      exact keys_foldl_insert_congr (keys_insert_congr rfl same) added
    · by_cases empty : key = ""
      · rw [empty, get?_parse_empty, get?_parse_empty, Option.map_none, IsExposed, h,
          Option.map_some, Option.some_inj, ← same]
        exact ⟨fun exposed => absurd exposed.1 named, rfl⟩
      · -- A message of the second catalog may replace the entry, and with it what has leaked into it.
        have exposed : IsExposed first (parse second.render locale) key ↔
            entry.key = key ∧ added.reverse.find? (·.key == key) = none := by
          rw [IsExposed, h, Option.map_some, Option.some_inj, ← same, ← get?_eq_none_iff, alone,
            get?_foldl_insert _ _ empty]
          simp [Catalog.empty, get?]
        rw [read parts proper, read [] (by simp), bare, ← get?_isSome_iff,
          get?_foldl_insert _ _ empty, get?_foldl_insert _ _ empty, get?_insert (named' _),
          get?_insert named]
        cases later : added.reverse.find? (·.key == key) with
        | some other => simp [exposed, later]
        | none =>
          by_cases here : entry.key = key
          · have there : (lengthened entry (leaked parts)).key = key := here
            simp [exposed, later, here, there]
          · have other : (lengthened entry (leaked parts)).key ≠ key := here
            simp [exposed, here, other]

/-- Of unsupported constructs between two written catalogs, the strings before the first obsolete line
become a part of the last message before them, unless the catalog after them replaces that message.
Nothing else changes, so they are skipped exactly if there are no such strings or no such message. -/
theorem parse_render_unsupported {first : Catalog} (sound : first.IsSound) (second : Catalog)
    {parts : List Unsupported} (proper : ∀ part ∈ parts, part.IsProper) (locale : String) :
    let read := parse (first.render ++ Unsupported.text parts ++ second.render) locale
    let plain := parse (first.render ++ "\n" ++ second.render) locale
    read.keys = plain.keys ∧
      (∀ key, read.get? key = (plain.get? key).map fun entry =>
        if IsExposed first (parse second.render locale) key then lengthened entry (leaked parts)
        else entry) ∧
      (read = plain ↔
        leaked parts = [] ∨ ∀ key, ¬ IsExposed first (parse second.render locale) key) := by
  intro read plain
  obtain ⟨sameKeys, each⟩ := keys_get?_parse_unsupported sound second proper locale
  refine ⟨sameKeys, fun key => (each key).2, ?_⟩
  constructor
  · intro equal
    by_contra neither
    obtain ⟨filled, exposed⟩ := not_or.mp neither
    obtain ⟨key, exposed⟩ := not_forall_not.mp exposed
    obtain ⟨known, answer⟩ := each key
    obtain ⟨entry, found⟩ := Option.isSome_iff_exists.mp (get?_isSome_iff.mpr (known exposed))
    have longer : some entry = some (lengthened entry (leaked parts)) := by
      calc some entry = plain.get? key := found.symm
        _ = read.get? key := by rw [equal]
        _ = some (lengthened entry (leaked parts)) := by rw [answer, found]; simp [exposed]
    have texts := congrArg (fun text => text.toList.length)
      (congrArg Entry.localized (Option.some.inj longer))
    simp [lengthened, filled] at texts
  · intro skipped
    have locales : read.locale = plain.locale := (locale_parse _ _).trans (locale_parse _ _).symm
    refine eq_of_keys_of_get? (parse_isSound _ _) (parse_isSound _ _) locales sameKeys fun key => ?_
    rw [(each key).2]
    rcases skipped with nothing | hidden
    · simp [nothing, lengthened, plain]
    · simp [hidden key, plain]

private def welcome : Catalog where
  locale := "fr"
  entries := [{ key := "Hi", localized := "Salut" }]

private def farewell : Catalog where
  locale := "fr"
  entries := [{ key := "Bye", localized := "Adieu" }]

private def menu : List Unsupported := [.tagged "msgctxt ".toList "\"menu\"".toList ["File".toList]]

private theorem render_welcome : welcome.render = "msgid \"Hi\"\nmsgstr \"Salut\"\n" := by
  simp only [render, renderChars, sorted, welcome, renderEntry, metadataLines,
    Entry.sortedOccurrences, List.map_cons, List.map_nil, List.mergeSort_singleton,
    List.mergeSort_nil]
  decide

private theorem render_farewell : farewell.render = "msgid \"Bye\"\nmsgstr \"Adieu\"\n" := by
  simp only [render, renderChars, sorted, farewell, renderEntry, metadataLines,
    Entry.sortedOccurrences, List.map_cons, List.map_nil, List.mergeSort_singleton,
    List.mergeSort_nil]
  decide

theorem parse_render_unsupported_menu :
    IsExposed welcome (parse farewell.render "fr") "Hi" ∧
      (parse (welcome.render ++ Unsupported.text menu ++ farewell.render) "fr").get? "Hi" =
        ((parse (welcome.render ++ "\n" ++ farewell.render) "fr").get? "Hi").map fun entry =>
          lengthened entry "File".toList := by
  have sound : welcome.IsSound := ⟨by decide, by decide⟩
  have proper : ∀ part ∈ menu, part.IsProper := by
    simp [menu, Unsupported.IsProper, tags]
  have last : welcome.sorted.getLast?.map Entry.key = some "Hi" := by simp [sorted, welcome]
  have exposed : IsExposed welcome (parse farewell.render "fr") "Hi" := by
    refine ⟨last, ?_⟩
    rw [render_farewell]
    decide
  have leak : leaked menu = "File".toList := by decide
  refine ⟨exposed, ?_⟩
  rw [(parse_render_unsupported sound farewell proper "fr").2.1 "Hi", leak]
  simp only [exposed, if_true]

/-- The string below a message context ends up in the text of the message before it. -/
theorem texts_parse_render_unsupported_menu :
    (parse (welcome.render ++ Unsupported.text menu ++ farewell.render) "fr").texts =
        [("Hi", "SalutFile"), ("Bye", "Adieu")] ∧
      (parse (welcome.render ++ "\n" ++ farewell.render) "fr").texts =
        [("Hi", "Salut"), ("Bye", "Adieu")] := by
  rw [render_welcome, render_farewell]
  exact ⟨by decide, by decide⟩

end Phrasebook.Catalog
