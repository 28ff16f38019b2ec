import Phrasebook.Proofs.Catalog.Entry
import Phrasebook.Proofs.Settings.Discovery
import Phrasebook.Proofs.Text.Blank

/-!
Lists of target locales. A list is read up to the word that stands for every locale. What follows that
word does not count, so a tag that is not recognized is refused unless it stands there.
-/

set_option autoImplicit false

namespace Phrasebook

theorem Text.splitAt_intercalate (c : Char) {texts : List (List Char)} (filled : texts ≠ []) :
    Text.splitAt (· == c) (List.intercalate [c] texts) = texts.flatMap (Text.splitAt (· == c)) := by
  induction texts with
  | nil => exact absurd rfl filled
  | cons first texts ih =>
    cases texts with
    | nil => simp [List.intercalate]
    | cons second texts =>
      have cut : Text.splitAt (· == c) (first ++ c :: List.intercalate [c] (second :: texts)) =
          Text.splitAt (· == c) first ++ Text.splitAt (· == c) (List.intercalate [c] (second :: texts)) :=
        Text.splitAt_append first _ (by simp)
      rw [List.intercalate_cons_cons, List.append_assoc, List.singleton_append, cut, ih (by simp)]
      rfl

namespace Locale

theorem listParts_of_mem {list part : String} (member : part ∈ listParts list) :
    listParts part = [part] := by
  simp only [listParts, List.mem_map, List.mem_filter] at member
  obtain ⟨_, ⟨⟨piece, inside, rfl⟩, filled⟩, rfl⟩ := member
  have uncut : ∀ c ∈ Text.trim piece, (c == ',') = false := fun c hc =>
    (Text.mem_splitAt inside).1 c (Text.mem_of_mem_trim hc)
  have kept : [Text.trim piece].filter (!·.isEmpty) = [Text.trim piece] :=
    List.filter_cons_of_pos filled
  simp only [listParts, String.toList_ofList, Text.splitAt_of_forall uncut, List.map_cons,
    List.map_nil, Text.trim_trim, kept]

theorem listParts_intercalate (lists : List String) :
    listParts (String.intercalate "," lists) = lists.flatMap listParts := by
  by_cases filled : lists = []
  · subst filled
    decide
  · have comma : ",".toList = [','] := rfl
    rw [listParts, String.toList_intercalate, comma,
      Text.splitAt_intercalate ',' (by simpa using filled), List.flatMap_map, List.map_flatMap,
      List.filter_flatMap, List.map_flatMap]
    rfl

theorem listParts_of_parts {parts : List String} (single : ∀ part ∈ parts, listParts part = [part]) :
    listParts (String.intercalate "," parts) = parts := by
  rw [listParts_intercalate, List.flatMap_congr single, List.flatMap_singleton']

def isKnown (part : String) : Bool := isRecognized part || part == everyWord

/-- What parts ask for: all of them have to stand for locales, and the first that does not is named. They
stand for every recognized locale if one of them is the word for that, and else for the distinct ones in
the order in which they appear first. -/
structure Answers (parts : List String) (result : Except UnknownTag (List String)) : Prop where
  accepts : ∀ locales, result = .ok locales ↔ (∀ part ∈ parts, isKnown part = true) ∧
    locales = if everyWord ∈ parts then recognized else parts.eraseDups
  refuses : ∀ error, result = .error error ↔ ∃ before after, parts = before ++ error.tag :: after ∧
    (∀ part ∈ before, isKnown part = true) ∧ isKnown error.tag = false

def readParts : List String → List String
  | [] => []
  | part :: rest => if part = everyWord then [part] else part :: readParts rest

theorem readParts_isPrefix (parts : List String) : readParts parts <+: parts := by
  fun_induction readParts parts with
  | case1 => exact List.prefix_rfl
  | case2 rest => exact ⟨rest, rfl⟩
  | case3 part rest _ ih => exact List.cons_prefix_cons.mpr ⟨rfl, ih⟩

theorem readParts_of_not_mem {parts : List String} (absent : everyWord ∉ parts) :
    readParts parts = parts := by
  fun_induction readParts parts with
  | case1 => rfl
  | case2 rest => simp at absent
  | case3 part rest _ ih => rw [ih (mt (List.mem_cons_of_mem part) absent)]

theorem everyWord_mem_readParts {parts : List String} (there : everyWord ∈ parts) :
    everyWord ∈ readParts parts := by
  fun_induction readParts parts with
  | case1 => exact there
  | case2 rest => simp
  | case3 part rest other ih =>
    rcases List.mem_cons.mp there with same | there
    · exact absurd same.symm other
    · exact List.mem_cons_of_mem _ (ih there)

private def answerOf (parts : List String) : Except UnknownTag (List String) :=
  match parts.find? (!isKnown ·) with
  | some part => .error ⟨part⟩
  | none => .ok (if everyWord ∈ parts then recognized else parts.eraseDups)

private theorem answers_answerOf (parts : List String) : Answers parts (answerOf parts) := by
  unfold answerOf
  cases found : parts.find? (!isKnown ·) with
  | none =>
    have known : ∀ part ∈ parts, isKnown part = true := by simpa using found
    refine ⟨fun locales => ?_, fun error => iff_of_false (by simp) ?_⟩
    · exact ⟨fun same => ⟨known, (Except.ok.inj same).symm⟩, fun asked => congrArg _ asked.2.symm⟩
    · rintro ⟨before, after, rfl, -, unknown⟩
      simp [known error.tag (by simp)] at unknown
  | some part =>
    obtain ⟨unknown, before, after, whole, known⟩ := List.find?_eq_some_iff_append.mp found
    refine ⟨fun locales => iff_of_false (by simp) ?_, fun error => ⟨?_, ?_⟩⟩
    · rintro ⟨all, -⟩
      simp [all part (by simp [whole])] at unknown
    · rintro named
      obtain rfl := Except.error.inj named
      exact ⟨before, after, whole, by simpa using known, by simpa using unknown⟩
    · rintro ⟨start, rest, other, first, strange⟩
      have again : parts.find? (!isKnown ·) = some error.tag :=
        List.find?_eq_some_iff_append.mpr ⟨by simp [strange], start, rest, other, by simpa using first⟩
      rw [found] at again
      rw [Option.some.inj again]

private theorem answers_iff {parts : List String} {result : Except UnknownTag (List String)} :
    Answers parts result ↔ result = answerOf parts := by
  constructor
  · intro answers
    cases found : answerOf parts with
    | error error => exact (answers.refuses error).mpr (((answers_answerOf parts).refuses error).mp found)
    | ok locales =>
      exact (answers.accepts locales).mpr (((answers_answerOf parts).accepts locales).mp found)
  · rintro rfl
    exact answers_answerOf parts

/-- The reading of parts behind others that it has met already: nothing behind the word for every
locale counts. -/
private theorem collect_eq (seen parts : List String) :
    collect seen.eraseDups parts = match (readParts parts).find? (!isKnown ·) with
      | some part => .error ⟨part⟩
      | none => .ok (if everyWord ∈ parts then recognized else (seen ++ parts).eraseDups) := by
  induction parts generalizing seen with
  | nil => simp [collect, readParts]
  | cons part rest ih =>
    by_cases every : part = everyWord
    · simp [collect, readParts, every, isKnown]
    · have other : everyWord ≠ part := Ne.symm every
      cases known : isRecognized part with
      | false => simp [collect, readParts, every, isKnown, validate, known]
      | true =>
        have next := ih (seen ++ [part])
        rw [eraseDups_concat, List.append_assoc, List.singleton_append] at next
        simpa [collect, readParts, every, isKnown, validate, known, other] using next

theorem answers_readParts (list : String) :
    Answers (readParts (listParts list)) (parseList list) := by
  have read : parseList list = _ := collect_eq [] (listParts list)
  rw [answers_iff, read, answerOf]
  by_cases every : everyWord ∈ listParts list
  · simp only [every, everyWord_mem_readParts every, if_true]
  · simp only [readParts_of_not_mem every, List.nil_append]

theorem isOk_parseList_iff (list : String) :
    (parseList list).isOk = true ↔ ∀ part ∈ readParts (listParts list), isKnown part = true := by
  have answers := answers_readParts list
  cases read : parseList list with
  | error error =>
    obtain ⟨before, after, whole, -, unknown⟩ := (answers.refuses error).mp read
    refine iff_of_false (by simp [Except.isOk, Except.toBool]) fun known => ?_
    rw [known error.tag (by simp [whole])] at unknown
    cases unknown
  | ok locales => exact iff_of_true rfl ((answers.accepts locales).mp read).1

theorem answers_parseList_iff (list : String) :
    Answers (listParts list) (parseList list) ↔ (∀ part ∈ listParts list, isKnown part = true) ∨
      ∃ part ∈ readParts (listParts list), isKnown part = false := by
  have start := readParts_isPrefix (listParts list)
  have read := answers_iff.mp (answers_readParts list)
  cases found : (readParts (listParts list)).find? (!isKnown ·) with
  | some part =>
    have unknown : isKnown part = false := by simpa using List.find?_some found
    refine iff_of_true ?_ (Or.inr ⟨part, List.mem_of_find?_eq_some found, unknown⟩)
    rw [answers_iff, read, answerOf, found, answerOf, start.find?_eq_some found]
  | none =>
    have known : ∀ part ∈ readParts (listParts list), isKnown part = true := by simpa using found
    constructor
    · intro answers
      obtain ⟨locales, accepted⟩ : ∃ locales, parseList list = .ok locales := by
        rw [read, answerOf, found]
        exact ⟨_, rfl⟩
      exact Or.inl ((answers.accepts locales).mp accepted).1
    · rintro (all | ⟨part, inside, unknown⟩)
      · have none : (listParts list).find? (!isKnown ·) = none := by simpa using all
        rw [answers_iff, read, answerOf, found, answerOf, none]
        by_cases every : everyWord ∈ listParts list
        · simp only [every, everyWord_mem_readParts every, if_true]
        · simp only [readParts_of_not_mem every]
      · rw [known part inside] at unknown
        cases unknown

/-- Whether a list is accepted does not depend on the order of its parts, unless one that stands for no
locale is beside the word for every locale. -/
theorem isOk_parseList_of_perm_iff (list : String) :
    (∀ other, (listParts other).Perm (listParts list) →
        (parseList other).isOk = (parseList list).isOk) ↔
      everyWord ∉ listParts list ∨ ∀ part ∈ listParts list, isKnown part = true := by
  constructor
  · intro alike
    by_contra! mixed
    obtain ⟨every, part, inside, unknown⟩ := mixed
    have single : ∀ other, (listParts list).Perm other → listParts (String.intercalate "," other) =
        other := fun other same =>
      listParts_of_parts fun part hp => listParts_of_mem (same.mem_iff.mpr hp)
    -- With the word in front nothing else is read, and with the unknown part in front it is read.
    have accepted := List.perm_cons_erase every
    have refused := List.perm_cons_erase inside
    have first := alike (String.intercalate "," (everyWord :: (listParts list).erase everyWord))
      (by rw [single _ accepted]; exact accepted.symm)
    have second := alike (String.intercalate "," (part :: (listParts list).erase part))
      (by rw [single _ refused]; exact refused.symm)
    have different : part ≠ everyWord := by
      rintro rfl
      exact unknown (by simp [isKnown])
    have ok := isOk_parseList_iff
      (String.intercalate "," (everyWord :: (listParts list).erase everyWord))
    have bad := isOk_parseList_iff (String.intercalate "," (part :: (listParts list).erase part))
    rw [single _ accepted, readParts, if_pos rfl] at ok
    rw [single _ refused, readParts, if_neg different] at bad
    have yes := ok.mpr (by simp [isKnown])
    rw [first, ← second] at yes
    exact unknown (bad.mp yes part (by simp))
  · rintro (absent | known) other same
    · rw [Bool.eq_iff_iff, isOk_parseList_iff, isOk_parseList_iff, readParts_of_not_mem absent,
        readParts_of_not_mem (mt same.mem_iff.mp absent)]
      simp only [same.mem_iff]
    · have ok : ∀ some, (listParts some).Perm (listParts list) → (parseList some).isOk = true :=
        fun some perm => (isOk_parseList_iff some).mpr fun part inside =>
          known part (perm.mem_iff.mp ((readParts_isPrefix _).subset inside))
      rw [ok other same, ok list (List.Perm.refl _)]

end Locale

namespace Settings

open Phrasebook.Locale (Answers UnknownTag everyWord isKnown listParts parseList readParts recognized)

theorem localesDefect?_eq_none_iff {settings : Settings} : settings.localesDefect? = none ↔
    ∀ part ∈ readParts (settings.locales.flatMap listParts), isKnown part = true := by
  rw [← Locale.listParts_intercalate, ← Locale.isOk_parseList_iff, localesDefect?, targets]
  cases parseList (String.intercalate "," settings.locales) <;> simp [Except.isOk, Except.toBool]

theorem localesDefect?_of_defect? {settings : Settings} (sound : settings.defect? = none) :
    settings.localesDefect? = none := by
  simp only [defect?, Option.orElse_eq_orElse, Option.orElse_eq_or, Option.or_eq_none_iff] at sound
  exact sound.2.1

/-- A list has the answer that its parts up to the word for every locale ask for. That is what all its parts
ask for, and whether it is accepted does not depend on their order, exactly if no part that stands for no
locale is hidden behind this word. The same goes for the locales of settings. -/
theorem targets_answer (list : String) (settings : Settings) :
    (Answers (readParts (listParts list)) (parseList list) ∧
      (Answers (listParts list) (parseList list) ↔ (∀ part ∈ listParts list, isKnown part = true) ∨
        ∃ part ∈ readParts (listParts list), isKnown part = false) ∧
      ((∀ other, (listParts other).Perm (listParts list) →
          (parseList other).isOk = (parseList list).isOk) ↔
        everyWord ∉ listParts list ∨ ∀ part ∈ listParts list, isKnown part = true)) ∧
    (settings.localesDefect? = none ↔
      ∀ part ∈ readParts (settings.locales.flatMap listParts), isKnown part = true) ∧
    (settings.defect? = none → settings.localesDefect? = none) :=
  ⟨⟨Locale.answers_readParts list, Locale.answers_parseList_iff list,
    Locale.isOk_parseList_of_perm_iff list⟩, localesDefect?_eq_none_iff, localesDefect?_of_defect?⟩

theorem targets_answer_of_repeated :
    parseList " ja, fr,,ja" = .ok ["ja", "fr"] ∧
      ((listParts "fr,ja,ja").Perm (listParts " ja, fr,,ja") ∧
        (parseList "fr,ja,ja").isOk = (parseList " ja, fr,,ja").isOk) ∧
      ({ locales := ["fr", "all"] } : Settings).defect? = none ∧
        ({ locales := ["fr", "all"] } : Settings).localesDefect? = none := by
  have same : (listParts "fr,ja,ja").Perm (listParts " ja, fr,,ja") := by decide
  have sound : ({ locales := ["fr", "all"] } : Settings).defect? = none := by decide +kernel
  obtain ⟨⟨-, asked, order⟩, -, settled⟩ :=
    targets_answer " ja, fr,,ja" { locales := ["fr", "all"] }
  have answers := asked.mpr (Or.inl (by decide))
  exact ⟨(answers.accepts ["ja", "fr"]).mpr (by decide),
    ⟨same, order.mpr (Or.inl (by decide)) "fr,ja,ja" same⟩, sound, settled sound⟩

/-- A tag that is not recognized is accepted behind the word for every locale and refused before it. -/
theorem not_answers_hidden :
    ¬Answers (listParts "all,xx") (parseList "all,xx") ∧
      (listParts "xx,all").Perm (listParts "all,xx") ∧
        parseList "all,xx" = .ok recognized ∧ parseList "xx,all" = .error ⟨"xx"⟩ ∧
          ({ locales := ["all", "xx"] } : Settings).defect? = none := by
  have accepted : parseList "all,xx" = .ok recognized := by decide
  refine ⟨fun answers => ?_, by decide, accepted, by decide, by decide +kernel⟩
  have known := ((answers.accepts recognized).mp accepted).1 "xx" (by decide)
  exact absurd known (by decide)

end Settings

end Phrasebook
