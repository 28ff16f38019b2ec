import Phrasebook.Proofs.Json.Reading
import Phrasebook.Proofs.Text.Blank
import Phrasebook.Settings.Printer
import Phrasebook.Settings.Reader

/-!
Written settings. Whatever the settings are, what is written of them is read back: each string by its
characters, each sequence by its strings and each setting by its name.
-/

set_option autoImplicit false

namespace Phrasebook.Settings

open Json Json.Reading

theorem isPlain_of_mem_utf8EncodeChar {c : Char} (quote : c ≠ '"') (backslash : c ≠ '\\')
    (visible : 32 ≤ c.toNat) {byte : UInt8} (member : byte ∈ String.utf8EncodeChar c) :
    isPlain byte = true := by
  have noQuote : c.toNat ≠ 34 := fun same => quote (Char.toNat_inj.mp same)
  have noBackslash : c.toNat ≠ 92 := fun same => backslash (Char.toNat_inj.mp same)
  have range : byte.toNat ≠ 34 ∧ byte.toNat ≠ 92 ∧ 32 ≤ byte.toNat := by
    rcases toNat_of_mem_utf8EncodeChar member with same | above <;> omega
  have known : byteOf '"' = 34 ∧ byteOf '\\' = 92 ∧ byteOf ' ' = 32 := by decide
  simp only [isPlain, known, Bool.and_eq_true, bne_iff_ne, ne_eq, ← UInt8.toNat_inj, decide_eq_true_eq,
    UInt8.le_iff_toNat_le]
  exact ⟨⟨range.1, range.2.1⟩, range.2.2⟩

def signs : List (Char × Char) :=
  [('"', '"'), ('\\', '\\'), ('\n', 'n'), ('\r', 'r'), ('\t', 't'), ('\x08', 'b'), ('\x0c', 'f')]

theorem escapeChar_of_mem_signs : ∀ sign ∈ signs, sign.2.toNat < 128 ∧
    escapeChar sign.1 = ['\\', sign.2] ∧ escapeLetter? sign.2 = some sign.1 := by
  decide +kernel

def fourDigits (c : Char) : List Char :=
  let digits := Text.hexDigits c.toNat
  List.replicate (4 - digits.length) '0' ++ digits

theorem escapeChar_cases (c : Char) :
    (∃ letter, letter.toNat < 128 ∧ escapeChar c = ['\\', letter] ∧ escapeLetter? letter = some c) ∨
      (c.toNat < 32 ∧ escapeChar c = '\\' :: 'u' :: fourDigits c) ∨
      escapeChar c = [c] ∧ ∀ byte ∈ String.utf8EncodeChar c, isPlain byte = true := by
  by_cases sign : ∃ sign ∈ signs, c = sign.1
  · obtain ⟨sign, member, rfl⟩ := sign
    exact Or.inl ⟨sign.2, escapeChar_of_mem_signs sign member⟩
  simp only [signs, List.mem_cons, List.not_mem_nil, or_false, exists_eq_or_imp, exists_eq_left,
    not_or] at sign
  obtain ⟨quote, backslash, line, back, tab, eight, twelve⟩ := sign
  have noEight : c.toNat ≠ 8 := fun same => eight (Char.toNat_inj.mp same)
  have noTwelve : c.toNat ≠ 12 := fun same => twelve (Char.toNat_inj.mp same)
  simp only [escapeChar, quote, backslash, line, back, tab, noEight, noTwelve, if_false]
  by_cases control : c.toNat < 32
  · simp only [control, if_true]
    exact Or.inr (Or.inl ⟨trivial, rfl⟩)
  · simp only [control, if_false]
    exact Or.inr (Or.inr ⟨trivial, fun byte member =>
      isPlain_of_mem_utf8EncodeChar quote backslash (Nat.le_of_not_lt control) member⟩)

theorem escapeChar_ne_nil (c : Char) : escapeChar c ≠ [] := by
  rcases escapeChar_cases c with ⟨letter, -, written, -⟩ | ⟨-, written⟩ | ⟨written, -⟩ <;>
    simp [written]

theorem takes_fourDigits {c : Char} (control : c.toNat < 32) (rest : List UInt8) :
    Takes unicodeEscape (bytesOf (fourDigits c)) rest c := by
  have all : ∀ n < 32, ∀ digits, digits = bytesOf (List.replicate (4 - (Text.hexDigits n).length) '0' ++
      Text.hexDigits n) → digits.length = 4 ∧
      (digits.map fun byte => Text.hexValue? (Char.ofNat byte.toNat)).all Option.isSome = true ∧
      (digits.map fun byte => Text.hexValue? (Char.ofNat byte.toNat)).foldl
        (fun value digit => value * 16 + digit.getD 0) 0 = n := by
    simp only [forall_eq]
    decide
  obtain ⟨four, some, value⟩ := all c.toNat control _ rfl
  have spelled : Takes hexFour _ rest _ := takes_hexFour four some
  rw [value] at spelled
  have read := takes_unicodeEscape spelled (by omega)
  rwa [Char.ofNat_toNat] at read

theorem takes_stringBytes (text : List Char) {fuel : Nat} (enough : text.length < fuel)
    (found rest : List UInt8) :
    Takes (stringBytes fuel found) (bytesOf (text.flatMap escapeChar) ++ [byteOf '"']) rest
      (found.reverse ++ bytesOf text) := by
  -- Plain bytes are taken together, so that some may be waiting before the text.
  suffices waiting : ∀ run : List UInt8, (∀ byte ∈ run, isPlain byte = true) →
      Takes (stringBytes fuel found) (run ++ (bytesOf (text.flatMap escapeChar) ++ [byteOf '"'])) rest
        (found.reverse ++ (run ++ bytesOf text)) by
    exact waiting [] (by simp)
  induction text generalizing fuel found with
  | nil =>
    intro run plain
    obtain ⟨fuel, rfl⟩ := Nat.exists_eq_add_one_of_ne_zero (Nat.ne_zero_of_lt enough)
    simpa [bytesOf] using takes_stringBytes_end plain
  | cons c text ih =>
    intro run plain
    obtain ⟨fuel, rfl⟩ := Nat.exists_eq_add_one_of_ne_zero (Nat.ne_zero_of_lt enough)
    rw [List.length_cons, Nat.succ_lt_succ_iff] at enough
    have later := ih enough ((String.utf8EncodeChar c).reverse ++ (run.reverse ++ found)) [] (by simp)
    have value : found.reverse ++ (run ++ bytesOf (c :: text)) =
        ((String.utf8EncodeChar c).reverse ++ (run.reverse ++ found)).reverse ++ bytesOf text := by
      simp [bytesOf]
    rw [List.flatMap_cons, bytesOf_append]
    rcases escapeChar_cases c with
      ⟨letter, ascii, written, known⟩ | ⟨control, written⟩ | ⟨written, plainChar⟩
    · have sign : bytesOf ['\\', letter] = [byteOf '\\', byteOf letter] := by
        rw [bytesOf_cons_of_ascii (by decide), bytesOf_cons_of_ascii ascii]
        rfl
      rw [written, sign, value]
      exact takes_stringBytes_letter plain ascii known later
    · have number := takes_stringBytes_number plain (takes_fourDigits control _) later
      rw [written, bytesOf_cons_of_ascii (by decide), bytesOf_cons_of_ascii (by decide), value]
      simpa only [List.cons_append, List.append_assoc, List.nil_append] using number
    · have more : ∀ byte ∈ run ++ String.utf8EncodeChar c, isPlain byte = true := by
        intro byte member
        rcases List.mem_append.mp member with before | inside
        · exact plain byte before
        · exact plainChar byte inside
      have taken := ih (Nat.lt_succ_of_lt enough) found _ more
      rw [written]
      simpa [bytesOf] using taken

theorem takes_string (text : String) (rest : List UInt8) :
    Takes string (bytesOf (text.toList.flatMap escapeChar) ++ [byteOf '"']) rest text := by
  refine takes_read_bind fun bytes enough => ?_
  have fits : text.toList.length < bytes.size + 1 := by
    have written := length_le_bytesOf_flatMap escapeChar_ne_nil text.toList
    simp only [List.length_append] at enough
    omega
  refine (takes_stringBytes text.toList fits [] rest).bind_still ?_
  rw [List.reverse_nil, List.nil_append, fromUTF8?_bytesOf]
  exact takes_pure

theorem bytesOf_renderText (text : String) : bytesOf (renderText text) =
    byteOf '"' :: (bytesOf (text.toList.flatMap escapeChar) ++ [byteOf '"']) := by
  rw [renderText, bytesOf_cons_of_ascii (by decide), bytesOf_append]
  rfl

theorem takes_text {blanks : List UInt8} (blank : AreBlank blanks) (text : String)
    (rest : List UInt8) : Takes Reading.text (blanks ++ bytesOf (renderText text)) rest text := by
  rw [bytesOf_renderText]
  refine Takes.bind (takes_valueStart blank (byteOf '"') (by decide)) ?_
  exact takes_skip_bind (takes_string text rest)

def gap (margin : List Char) : List Char := '\n' :: (margin ++ [' ', ' '])

def otherLines (margin : List Char) (items : List (List Char)) : List Char :=
  items.flatMap fun item => ',' :: (gap margin ++ item)

theorem bytesOf_otherLines_cons (margin item : List Char) (items : List (List Char)) :
    bytesOf (otherLines margin (item :: items)) =
      byteOf ',' :: bytesOf (gap margin) ++ (bytesOf item ++ bytesOf (otherLines margin items)) := by
  rw [otherLines, List.flatMap_cons, bytesOf_append, bytesOf_cons_of_ascii (by decide), bytesOf_append,
    List.cons_append, List.cons_append, List.append_assoc]
  rfl

theorem length_le_otherLines (margin : List Char) (items : List (List Char)) :
    items.length ≤ (bytesOf (otherLines margin items)).length := by
  induction items with
  | nil => exact Nat.zero_le _
  | cons item items ih =>
    rw [bytesOf_otherLines_cons, List.length_append, List.length_append, List.length_cons,
      List.length_cons]
    omega

theorem renderLines_cons (margin : List Char) (opening closing : Char) (item : List Char)
    (items : List (List Char)) :
    renderLines margin opening closing (item :: items) =
      opening :: (gap margin ++ item ++ otherLines margin items ++ ('\n' :: margin) ++ [closing]) := by
  simp only [renderLines, List.isEmpty_cons, Bool.false_eq_true, if_false, List.map_cons,
    Text.joinWith_cons_eq_append, List.flatMap_map, otherLines]
  simp [gap, List.append_assoc]

theorem bytesOf_renderLines_cons {margin : List Char} {opening closing : Char}
    (asciiOpening : opening.toNat < 128) (asciiClosing : closing.toNat < 128) (item : List Char)
    (items : List (List Char)) :
    bytesOf (renderLines margin opening closing (item :: items)) = byteOf opening ::
      (bytesOf (gap margin) ++ (bytesOf item ++ (bytesOf (otherLines margin items) ++
        bytesOf ('\n' :: margin))) ++ [byteOf closing]) := by
  rw [renderLines_cons, bytesOf_cons_of_ascii asciiOpening]
  simp only [bytesOf_append, List.append_assoc]
  rw [bytesOf_cons_of_ascii asciiClosing]
  rfl

section Texts

variable {margin : List Char} {ending : List UInt8} (blank : AreBlank (bytesOf (gap margin)))
  (last : AreBlank ending)

include blank last

theorem takes_textsUpTo_next (items : List String) {fuel : Nat} (enough : items.length < fuel)
    (rest : List UInt8) :
    Takes (textsUpTo fuel false) (bytesOf (otherLines margin (items.map renderText)) ++ ending)
      (byteOf ']' :: rest) items := by
  induction items generalizing fuel with
  | nil =>
    obtain ⟨fuel, rfl⟩ := Nat.exists_eq_add_one_of_ne_zero (Nat.ne_zero_of_lt enough)
    exact (takes_hasElement_end last false).bind_still takes_pure
  | cons item items ih =>
    obtain ⟨fuel, rfl⟩ := Nat.exists_eq_add_one_of_ne_zero (Nat.ne_zero_of_lt enough)
    rw [List.length_cons, Nat.succ_lt_succ_iff] at enough
    rw [List.map_cons, bytesOf_otherLines_cons, List.append_assoc, List.append_assoc]
    refine Takes.bind (?_ : Takes _ _ _ true) ?_
    · rw [bytesOf_renderText]
      exact takes_hasElement_next blank (by decide) (by decide)
    · exact Takes.bind (takes_text areBlank_nil item _) ((ih enough).bind_still takes_pure)

theorem takes_textsUpTo_first (item : String) (items : List String) {fuel : Nat}
    (enough : items.length < fuel) (rest : List UInt8) :
    Takes (textsUpTo (fuel + 1) true) (bytesOf (gap margin) ++ (bytesOf (renderText item) ++
        (bytesOf (otherLines margin (items.map renderText)) ++ ending)))
      (byteOf ']' :: rest) (item :: items) := by
  refine Takes.bind (?_ : Takes _ _ _ true) ?_
  · rw [bytesOf_renderText]
    exact takes_hasElement_first blank (by decide) (by decide)
  · have later := takes_textsUpTo_next blank last items enough rest
    exact Takes.bind (takes_text areBlank_nil item _) (later.bind_still takes_pure)

end Texts

theorem takes_texts {blanks : List UInt8} (blank : AreBlank blanks) (items : List String)
    (rest : List UInt8) : Takes texts (blanks ++ bytesOf (renderTexts items)) rest items := by
  cases items with
  | nil =>
    refine Takes.bind (takes_valueStart blank (byteOf '[') (by decide)) (takes_skip_bind ?_)
    refine takes_read_bind fun bytes _ => ?_
    have nothing : Takes (textsUpTo (bytes.size + 1) true) [] (byteOf ']' :: rest) [] :=
      (takes_hasElement_end areBlank_nil true).bind_still takes_pure
    exact Takes.bind_ahead nothing ((takes_endSequence areBlank_nil).bind_still takes_pure)
  | cons item items =>
    rw [renderTexts, List.map_cons, bytesOf_renderLines_cons (by decide) (by decide)]
    refine Takes.bind (takes_valueStart blank (byteOf '[') (by decide)) (takes_skip_bind ?_)
    refine takes_read_bind fun bytes enough => ?_
    have fits : items.length < bytes.size := by
      have lines := length_le_otherLines [' ', ' '] (items.map renderText)
      rw [List.length_map] at lines
      generalize bytesOf (otherLines _ _) = others at enough lines
      simp only [List.length_append, List.length_cons] at enough
      omega
    have before : AreBlank (bytesOf (gap [' ', ' '])) := areBlank_bytesOf (by simp [gap])
    have ending : AreBlank (bytesOf ['\n', ' ', ' ']) := areBlank_bytesOf (by simp)
    refine Takes.bind (takes_textsUpTo_first before ending item items fits _) ?_
    exact (takes_endSequence areBlank_nil).bind_still takes_pure

def withField (target settings : Settings) : Field → Settings
  | .includes => { settings with includes := target.includes }
  | .excludes => { settings with excludes := target.excludes }
  | .recursive => { settings with recursive := target.recursive }
  | .locales => { settings with locales := target.locales }
  | .catalogDirectory => { settings with catalogDirectory := target.catalogDirectory }
  | .entryPoints => { settings with entryPoints := target.entryPoints }
  | .markers => { settings with markers := target.markers }
  | .markerFields => { settings with markerFields := target.markerFields }

theorem foldl_withField (target settings : Settings) :
    Field.all.tail.foldl (withField target) (withField target settings .includes) = target := by
  simp only [Field.all, List.tail_cons, List.foldl_cons, List.foldl_nil, withField]

theorem find?_name (field : Field) : Field.all.find? (·.name == field.name) = some field := by
  cases field <;> decide

def renderPair (settings : Settings) (field : Field) : List Char :=
  renderText field.name ++ [':', ' '] ++ settings.renderValue field

section Pairs

variable (target : Settings)

theorem takes_readField (settings : Settings) {blanks : List UInt8} (blank : AreBlank blanks)
    (field : Field) (rest : List UInt8) :
    Takes (readField settings field) (blanks ++ bytesOf (target.renderValue field)) rest
      (withField target settings field) := by
  have whole (items : List String) := takes_texts blank items rest
  cases field with
  | recursive =>
    have ascii : bytesOf (if target.recursive then "true" else "false").toList =
        (if target.recursive then "true" else "false").toList.map byteOf := by
      cases target.recursive <;> decide
    rw [renderValue, ascii]
    exact (takes_boolean blank _).bind_still takes_pure
  | catalogDirectory => exact (takes_text blank _ rest).bind_still takes_pure
  | includes => exact (whole _).bind_still takes_pure
  | excludes => exact (whole _).bind_still takes_pure
  | locales => exact (whole _).bind_still takes_pure
  | entryPoints => exact (whole _).bind_still takes_pure
  | markers => exact (whole _).bind_still takes_pure
  | markerFields => exact (whole _).bind_still takes_pure

theorem takes_readPairs_pair {settings later : Settings} {seen : List Field} {field : Field}
    (unseen : field ∉ seen) {fuel : Nat} {first : Bool} {before taken rest : List UInt8}
    (key : ∀ rest, Takes (hasKey first) before (byteOf '"' :: rest) true)
    (others : Takes (readPairs fuel (withField target settings field) (field :: seen) false) taken rest
      later) :
    Takes (readPairs (fuel + 1) settings seen first)
      (before ++ (bytesOf (renderPair target field) ++ taken)) rest later := by
  have fresh : seen.contains field = false := by simpa using unseen
  have pair : bytesOf (renderPair target field) ++ taken = byteOf '"' ::
      ((bytesOf (field.name.toList.flatMap escapeChar) ++ [byteOf '"']) ++
        ([byteOf ':'] ++ ((bytesOf [' '] ++ bytesOf (target.renderValue field)) ++ taken))) := by
    rw [renderPair, bytesOf_append, bytesOf_append, bytesOf_renderText,
      bytesOf_cons_of_ascii (by decide)]
    simp only [List.append_assoc, List.cons_append, List.nil_append]
  rw [pair]
  -- The name that is read is that of the setting, which was not there before.
  unfold readPairs
  refine Takes.bind (key _) (takes_skip_bind (Takes.bind (takes_string field.name _) ?_))
  rw [find?_name]
  simp only [fresh]
  refine Takes.bind (takes_colon areBlank_nil : Takes colon [byteOf ':'] _ ()) ?_
  exact Takes.bind (takes_readField target settings (areBlank_bytesOf (by simp)) field _) others

variable {margin : List Char} {ending : List UInt8} (blank : AreBlank (bytesOf (gap margin)))
  (last : AreBlank ending)

include blank last

theorem takes_readPairs_next (fields : List Field) (distinct : fields.Nodup) {settings : Settings}
    {seen : List Field} (unseen : ∀ field ∈ fields, field ∉ seen) {fuel : Nat}
    (enough : fields.length < fuel) (rest : List UInt8) :
    Takes (readPairs fuel settings seen false)
      (bytesOf (otherLines margin (fields.map (renderPair target))) ++ (ending ++ [byteOf '}'])) rest
      (fields.foldl (withField target) settings) := by
  obtain ⟨fuel, rfl⟩ := Nat.exists_eq_add_one_of_ne_zero (Nat.ne_zero_of_lt enough)
  induction fields generalizing settings seen fuel with
  | nil =>
    change Takes _ (ending ++ [byteOf '}']) rest settings
    exact Takes.bind (takes_hasKey_end last false) (takes_skip_bind takes_pure)
  | cons field fields ih =>
    rw [List.length_cons, Nat.succ_lt_succ_iff] at enough
    obtain ⟨fuel, rfl⟩ := Nat.exists_eq_add_one_of_ne_zero (Nat.ne_zero_of_lt enough)
    rw [List.nodup_cons] at distinct
    have others : ∀ other ∈ fields, other ∉ field :: seen := by
      intro other member there
      rcases List.mem_cons.mp there with rfl | before
      · exact distinct.1 member
      · exact unseen other (List.mem_cons_of_mem _ member) before
    have later : Takes (readPairs _ (withField target settings field) _ _) _ rest _ :=
      ih distinct.2 others fuel enough
    rw [List.map_cons, bytesOf_otherLines_cons, List.append_assoc, List.append_assoc]
    exact takes_readPairs_pair target (unseen field List.mem_cons_self)
      (fun _ => takes_hasKey_next blank) later

end Pairs

theorem takes_reading_of_pairs {settings : Settings} {taken rest : List UInt8}
    (pairs : ∀ bytes : Bytes, (taken ++ rest).length ≤ bytes.size →
      Takes (readPairs (bytes.size + 1) {} [] true) taken rest settings) :
    Takes reading (byteOf '{' :: taken) rest settings := by
  refine Takes.bind_ahead (takes_valueStart areBlank_nil (byteOf '{') (by decide)) ?_
  exact takes_skip_bind (takes_read_bind pairs)

theorem takes_reading (settings : Settings) :
    Takes reading (bytesOf settings.render.toList) [] settings := by
  have before : AreBlank (bytesOf (gap [])) := areBlank_bytesOf (by simp [gap])
  have ending : AreBlank (bytesOf ['\n']) := areBlank_bytesOf (by simp)
  have written : settings.render.toList =
      renderLines [] '{' '}' ((Field.includes :: Field.all.tail).map settings.renderPair) := by
    rw [render, String.toList_ofList]
    rfl
  rw [written, List.map_cons, bytesOf_renderLines_cons (by decide) (by decide)]
  refine takes_reading_of_pairs fun bytes enough => ?_
  have fits : Field.all.tail.length < bytes.size := by
    have lines := length_le_otherLines [] (Field.all.tail.map settings.renderPair)
    rw [List.length_map] at lines
    generalize bytesOf (otherLines _ _) = others at enough lines
    simp only [List.length_append, List.length_cons] at enough
    omega
  have others : Takes (readPairs bytes.size (withField settings {} .includes) [.includes] false) _ []
      _ :=
    takes_readPairs_next settings before ending Field.all.tail (by decide) (by decide) fits []
  rw [foldl_withField] at others
  have all := takes_readPairs_pair settings List.not_mem_nil (fun _ => takes_hasKey_first before) others
  simpa only [List.append_assoc] using all

/-- What is written of settings is read back. -/
theorem ofText_render (settings : Settings) : ofText settings.render = .ok settings := by
  have whole : Takes (reading <* finish) (bytesOf settings.render.toList) [] settings := by
    rw [seqLeft_eq_bind]
    exact (takes_reading settings).bind_still (takes_finish.bind_still takes_pure)
  have left : settings.render.toUTF8.data.toList.drop 0 = bytesOf settings.render.toList ++ [] := by
    rw [List.drop_zero, data_toUTF8, List.append_nil]
  rw [ofText, readText, whole _ 0 left]
  rfl

end Phrasebook.Settings
