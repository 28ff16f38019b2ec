import Phrasebook.Proofs.Json.Bytes

/-!
What readers of data texts take. A reader takes some bytes before a rest if it returns its value and moves
past these bytes wherever they are followed by that rest; what one reader takes and then the next, both
take one after the other.
-/

set_option autoImplicit false

namespace Phrasebook.Json.Reading

/-- A reader returns a value and moves past some bytes wherever these bytes and the rest are what is
left. -/
def Takes {α : Type} (reading : Reading α) (taken rest : List UInt8) (value : α) : Prop :=
  ∀ (bytes : Bytes) (start : Nat), bytes.toList.drop start = taken ++ rest →
    (reading.run bytes).run start = .ok (value, start + taken.length)

section Sequences

variable {α β : Type} {reading : Reading α} {next : α → Reading β} {taken more rest : List UInt8}
  {value : α} {result : β}

theorem takes_pure : Takes (pure value) [] rest value := fun _ _ _ => rfl

theorem Takes.bind (first : Takes reading taken (more ++ rest) value)
    (second : Takes (next value) more rest result) :
    Takes (reading >>= next) (taken ++ more) rest result := by
  intro bytes start here
  rw [List.append_assoc] at here
  have behind : bytes.toList.drop (start + taken.length) = more ++ rest := by
    rw [← List.drop_drop, here, List.drop_left]
  rw [ReaderT.run_bind, StateT.run_bind, first bytes start here, List.length_append, ← Nat.add_assoc]
  exact second bytes _ behind

theorem Takes.bind_ahead (first : Takes reading [] (taken ++ rest) value)
    (second : Takes (next value) taken rest result) : Takes (reading >>= next) taken rest result :=
  first.bind second

theorem Takes.bind_still (first : Takes reading taken rest value)
    (second : Takes (next value) [] rest result) : Takes (reading >>= next) taken rest result := by
  have both : Takes (reading >>= next) (taken ++ []) rest result := first.bind second
  rwa [List.append_nil] at both

theorem takes_read_bind {reading : Bytes → Reading α}
    (all : ∀ bytes : Bytes, (taken ++ rest).length ≤ bytes.size →
      Takes (reading bytes) taken rest value) : Takes (read >>= reading) taken rest value := by
  intro bytes start here
  refine all bytes ?_ bytes start here
  rw [← here, List.length_drop, Array.length_toList]
  exact Nat.sub_le _ _

end Sequences

section Bytes

variable {α : Type} {run taken rest : List UInt8} {value : α} {condition : UInt8 → Bool}

theorem takes_peek : Takes peek [] rest rest.head? := by
  intro bytes start here
  have next : bytes[start]? = rest.head? := by
    rw [← Array.getElem?_toList, ← List.head?_drop, here, List.nil_append]
  rw [← next]
  rfl

theorem takes_skip {byte : UInt8} : Takes skip [byte] rest () := fun _ _ _ => rfl

theorem takes_skip_bind {byte : UInt8} {next : Unit → Reading α}
    (later : Takes (next ()) taken rest value) : Takes (skip >>= next) (byte :: taken) rest value := by
  have both : Takes (skip >>= next) ([byte] ++ taken) rest value := takes_skip.bind later
  exact both

theorem takes_next {byte : UInt8} : Takes next [byte] rest (some byte) :=
  takes_peek.bind_ahead (takes_skip.bind_still takes_pure)

theorem takes_next_bind {byte : UInt8} {next : Option UInt8 → Reading α}
    (later : Takes (next (some byte)) taken rest value) :
    Takes (Reading.next >>= next) (byte :: taken) rest value := by
  have both : Takes (Reading.next >>= next) ([byte] ++ taken) rest value := takes_next.bind later
  exact both

theorem takes_skipWhile (all : ∀ byte ∈ taken, condition byte = true)
    (stop : ∀ byte ∈ rest.head?, ¬condition byte = true) :
    Takes (skipWhile condition) taken rest () := by
  intro bytes start here
  have left : (bytes.extract start bytes.size).toList = taken ++ rest := by
    have long : (bytes.toList.drop start).length ≤ bytes.size - start := by
      rw [List.length_drop, Array.length_toList]
    rw [Array.toList_extract, List.extract_eq_take_drop, List.take_of_length_le long, here]
  have none : rest.takeWhile condition = [] := by
    cases rest with
    | nil => rfl
    | cons byte rest => exact List.takeWhile_cons_of_neg (stop byte rfl)
  have found : ((bytes.extract start bytes.size).toList.takeWhile condition).length =
      taken.length := by
    rw [left, List.takeWhile_append_of_pos all, none, List.append_nil]
  rw [← found]
  rfl

theorem takes_run_bind {next : Nat → Bytes → Nat → Reading α}
    (all : ∀ byte ∈ run, condition byte = true)
    (stop : ∀ byte ∈ (taken ++ rest).head?, ¬condition byte = true)
    (later : ∀ start bytes stop, (Array.extract bytes start stop).toList = run →
      Takes (next start bytes stop) taken rest value) :
    Takes (do
      let start ← get
      skipWhile condition
      let bytes ← read
      let stop ← get
      next start bytes stop) (run ++ taken) rest value := by
  intro bytes start here
  have passed := takes_skipWhile all stop bytes start (by rwa [List.append_assoc] at here)
  have behind : bytes.toList.drop (start + run.length) = taken ++ rest := by
    rw [← List.drop_drop, here, List.append_assoc, List.drop_left]
  have seen : (bytes.extract start (start + run.length)).toList = run := by
    rw [Array.toList_extract, List.extract_eq_take_drop, here, Nat.add_sub_cancel_left,
      List.append_assoc, List.take_left]
  -- Before the last reader only the second one moves on or fails.
  simp only [ReaderT.run_bind, StateT.run_bind]
  change (do
    let p ← ((skipWhile condition).run bytes).run start
    ((next start bytes p.2).run bytes).run p.2) = _
  rw [passed]
  change ((next start bytes (start + run.length)).run bytes).run (start + run.length) = _
  rw [later _ _ _ seen bytes _ behind, List.length_append, Nat.add_assoc]

theorem takes_literal (chars : List Char) (rest : List UInt8) :
    Takes (literal chars) (chars.map byteOf) rest () := by
  induction chars with
  | nil => exact takes_pure
  | cons c chars ih =>
    refine takes_next_bind ?_
    simpa using ih

end Bytes

section Strings

theorem takes_hexFour {digits rest : List UInt8} (four : digits.length = 4)
    (all : (digits.map fun byte => Text.hexValue? (Char.ofNat byte.toNat)).all Option.isSome = true) :
    Takes hexFour digits rest ((digits.map fun byte => Text.hexValue? (Char.ofNat byte.toNat)).foldl
      (fun value digit => value * 16 + digit.getD 0) 0) := by
  intro bytes start here
  have inside : start + 4 ≤ bytes.size := by
    have length := congrArg List.length here
    rw [List.length_drop, Array.length_toList, List.length_append] at length
    omega
  have seen : (bytes.extract start (start + 4)).toList = digits := by
    rw [Array.toList_extract, List.extract_eq_take_drop, here, Nat.add_sub_cancel_left, ← four,
      List.take_left]
  unfold hexFour
  simp only [ReaderT.run_bind, StateT.run_bind]
  change StateT.run (ReaderT.run (if start + 4 ≤ bytes.size then _ else _) bytes) start = _
  rw [if_pos inside]
  change StateT.run (ReaderT.run (if List.all (List.map _ (bytes.extract start (start + 4)).toList) _
    then _ else _) bytes) (start + 4) = _
  rw [seen, if_pos all, four]
  rfl

theorem takes_unicodeEscape {digits rest : List UInt8} {code : Nat}
    (spelled : Takes hexFour digits rest code) (low : code < 0xd800) :
    Takes unicodeEscape digits rest (Char.ofNat code) := by
  have alone : ¬(decide (0xdc00 ≤ code) && decide (code < 0xe000)) = true := by
    rw [Bool.and_eq_true, decide_eq_true_eq, decide_eq_true_eq]
    omega
  have whole : (decide (code < 0xd800) || decide (0xdc00 ≤ code)) = true := by
    rw [decide_eq_true low, Bool.true_or]
  refine spelled.bind_still ?_
  rw [if_neg alone, if_pos whole]
  exact takes_pure

variable {run taken rest value found : List UInt8} {fuel : Nat}
  (plain : ∀ byte ∈ run, isPlain byte = true)

include plain

theorem takes_stringBytes_end :
    Takes (stringBytes (fuel + 1) found) (run ++ [byteOf '"']) rest (found.reverse ++ run) := by
  rw [stringBytes]
  refine takes_run_bind plain (by simp; decide) ?_
  rintro start bytes stop rfl
  have result : found.reverse ++ (bytes.extract start stop).toList =
      ((bytes.extract start stop).toList.reverse ++ found).reverse := by
    rw [List.reverse_append, List.reverse_reverse]
  rw [result]
  exact takes_peek.bind_ahead (takes_skip.bind_still takes_pure)

theorem takes_stringBytes_letter {letter c : Char} (ascii : letter.toNat < 128)
    (known : escapeLetter? letter = some c)
    (later : Takes (stringBytes fuel ((String.utf8EncodeChar c).reverse ++ (run.reverse ++ found)))
      taken rest value) :
    Takes (stringBytes (fuel + 1) found) (run ++ (byteOf '\\' :: byteOf letter :: taken)) rest
      value := by
  have other : ¬(letter == 'u') = true := by
    intro same
    have unknown : escapeLetter? 'u' = none := by decide
    rw [eq_of_beq same, unknown] at known
    cases known
  rw [← toList_toUTF8] at later
  rw [stringBytes]
  refine takes_run_bind plain (by simp; decide) ?_
  rintro start bytes stop rfl
  refine takes_peek.bind_ahead (takes_skip_bind ?_)
  refine Takes.bind (?_ : Takes _ [byteOf letter] _ (Char.ofNat (byteOf letter).toNat)) ?_
  · exact takes_next_bind takes_pure
  rw [ofNat_byteOf ascii, if_neg other, known]
  exact later

theorem takes_stringBytes_number {digits : List UInt8} {c : Char}
    (spelled : Takes unicodeEscape digits (taken ++ rest) c)
    (later : Takes (stringBytes fuel ((String.utf8EncodeChar c).reverse ++ (run.reverse ++ found)))
      taken rest value) :
    Takes (stringBytes (fuel + 1) found) (run ++ (byteOf '\\' :: byteOf 'u' :: (digits ++ taken))) rest
      value := by
  rw [← toList_toUTF8] at later
  rw [stringBytes]
  refine takes_run_bind plain (by simp; decide) ?_
  rintro start bytes stop rfl
  refine takes_peek.bind_ahead (takes_skip_bind ?_)
  refine Takes.bind (?_ : Takes _ [byteOf 'u'] _ 'u') (spelled.bind later)
  exact takes_next_bind takes_pure

end Strings

def AreBlank (bytes : List UInt8) : Prop := ∀ byte ∈ bytes, isBlank byte = true

theorem areBlank_nil : AreBlank [] := by simp [AreBlank]

theorem areBlank_bytesOf {chars : List Char} (blank : ∀ c ∈ chars, c = ' ' ∨ c = '\n') :
    AreBlank (bytesOf chars) := by
  intro byte member
  obtain ⟨c, inside, member⟩ := List.mem_flatMap.mp member
  rcases blank c inside with rfl | rfl
  · obtain rfl := List.mem_singleton.mp member
    decide
  · obtain rfl := List.mem_singleton.mp member
    decide

theorem takes_finish : Takes finish [] [] () :=
  (takes_skipWhile areBlank_nil (by simp)).bind_still takes_peek |>.bind_still takes_pure

section Values

variable {blanks rest : List UInt8} (blank : AreBlank blanks)

include blank

theorem takes_nextSolid (byte : UInt8) (solid : isBlank byte = false) :
    Takes nextSolid blanks (byte :: rest) (some byte) :=
  (takes_skipWhile blank (by simp [solid])).bind_still takes_peek

theorem takes_valueStart (byte : UInt8) (solid : isBlank byte = false) :
    Takes valueStart blanks (byte :: rest) byte :=
  (takes_nextSolid blank _ solid).bind_still takes_pure

theorem takes_boolean (value : Bool) : Takes boolean
    (blanks ++ (if value then "true" else "false").toList.map byteOf) rest value := by
  cases value with
  | false =>
    refine Takes.bind (takes_valueStart blank (byteOf 'f') (by decide)) ?_
    exact takes_skip_bind ((takes_literal _ rest).bind_still takes_pure)
  | true =>
    refine Takes.bind (takes_valueStart blank (byteOf 't') (by decide)) ?_
    exact takes_skip_bind ((takes_literal _ rest).bind_still takes_pure)

theorem takes_hasElement_first {byte : UInt8} (solid : isBlank byte = false)
    (more : byte ≠ byteOf ']') : Takes (hasElement true) blanks (byte :: rest) true := by
  refine (takes_nextSolid blank _ solid).bind_still ?_
  simpa [more] using takes_pure

theorem takes_hasElement_next {byte : UInt8} (solid : isBlank byte = false)
    (more : byte ≠ byteOf ']') :
    Takes (hasElement false) (byteOf ',' :: blanks) (byte :: rest) true := by
  refine Takes.bind_ahead (takes_nextSolid areBlank_nil (byteOf ',') (by decide)) ?_
  refine takes_skip_bind ((takes_nextSolid blank _ solid).bind_still ?_)
  simpa [more] using takes_pure

theorem takes_hasElement_end (first : Bool) :
    Takes (hasElement first) blanks (byteOf ']' :: rest) false :=
  (takes_nextSolid blank _ (by decide)).bind_still takes_pure

theorem takes_endSequence : Takes endSequence (blanks ++ [byteOf ']']) rest () := by
  refine Takes.bind (takes_nextSolid blank (byteOf ']') (by decide)) ?_
  exact takes_skip

theorem takes_hasKey_first : Takes (hasKey true) blanks (byteOf '"' :: rest) true :=
  (takes_nextSolid blank _ (by decide)).bind_still takes_pure

theorem takes_hasKey_next :
    Takes (hasKey false) (byteOf ',' :: blanks) (byteOf '"' :: rest) true := by
  refine Takes.bind_ahead (takes_nextSolid areBlank_nil (byteOf ',') (by decide)) ?_
  exact takes_skip_bind ((takes_nextSolid blank _ (by decide)).bind_still takes_pure)

theorem takes_hasKey_end (first : Bool) :
    Takes (hasKey first) blanks (byteOf '}' :: rest) false :=
  (takes_nextSolid blank _ (by decide)).bind_still takes_pure

theorem takes_colon : Takes colon (blanks ++ [byteOf ':']) rest () := by
  refine Takes.bind (takes_nextSolid blank (byteOf ':') (by decide)) ?_
  exact takes_skip

end Values

end Phrasebook.Json.Reading
