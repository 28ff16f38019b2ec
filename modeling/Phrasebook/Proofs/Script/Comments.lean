import Phrasebook.Proofs.Catalog.Entry
import Phrasebook.Proofs.Text.Blank
import Phrasebook.Script.Comments

/-!
The comments that go with a message: words with one space between them, each comment once and in order.
-/

set_option autoImplicit false

namespace Phrasebook.Script

open Text

/-- A comment as it is kept: words with single spaces between them and nothing else. -/
structure IsRemark (remark : String) : Prop where
  filled : remark ≠ ""
  /-- No blank but the space: neither tabs nor line breaks of any kind. -/
  spaced : ∀ c ∈ remark.toList, isBlank c = true → c = ' '
  single : ¬ [' ', ' '] <:+: remark.toList
  trimmed : IsTrimmed remark.toList

private theorem nil_not_mem_splitAt {found : List (List Char)} (words : ∀ word ∈ found, IsWord word)
    (some : found ≠ []) : [] ∉ splitAt isBlank (joinWith [' '] found) := by
  rw [splitAt_joinWith (by decide) (fun word member => (words word member).2) some]
  exact fun empty => (words [] empty).1 rfl

private theorem isTrimmed_joinWith {found : List (List Char)} (words : ∀ word ∈ found, IsWord word) :
    IsTrimmed (joinWith [' '] found) := by
  by_cases some : found = []
  · simp [some, IsTrimmed]
  have parts := nil_not_mem_splitAt words some
  constructor
  · intro c first
    obtain ⟨rest, text⟩ := List.head?_eq_some_iff.mp first
    by_contra blank
    refine parts ?_
    rw [text, ← List.nil_append (c :: rest), splitAt_append [] rest (by simpa using blank)]
    exact List.mem_append_left _ List.mem_cons_self
  · intro c last
    obtain ⟨start, text⟩ := List.getLast?_eq_some_iff.mp last
    by_contra blank
    refine parts ?_
    rw [text, splitAt_append start [] (by simpa using blank)]
    exact List.mem_append_right _ List.mem_cons_self

private theorem single_joinWith {found : List (List Char)} (words : ∀ word ∈ found, IsWord word) :
    ¬ [' ', ' '] <:+: joinWith [' '] found := by
  rintro ⟨start, rest, text⟩
  by_cases some : found = []
  · simp [some] at text
  refine nil_not_mem_splitAt words some ?_
  have apart : joinWith [' '] found = start ++ ' ' :: ([] ++ ' ' :: rest) := by
    rw [← text]
    simp
  rw [apart, splitAt_append _ _ (by decide), splitAt_append [] rest (by decide)]
  exact List.mem_append_right _ (List.mem_append_left _ List.mem_cons_self)

theorem isRemark_remarkText {comment : Comment} (filled : LineComments.remarkText comment ≠ "") :
    IsRemark (LineComments.remarkText comment) := by
  have found : ∀ word ∈ words comment.text, IsWord word := fun _ => isWord_of_mem_words
  have text : (LineComments.remarkText comment).toList = joinWith [' '] (words comment.text) :=
    String.toList_ofList
  refine ⟨filled, fun c member blank => ?_, ?_, ?_⟩
  · rw [text] at member
    rcases mem_joinWith member with space | ⟨word, inside, member⟩
    · exact List.mem_singleton.mp space
    · exact absurd blank (by simp [(found word inside).2 c member])
  · exact text ▸ single_joinWith found
  · exact text ▸ isTrimmed_joinWith found

private theorem IsRemark.nil_not_mem_splitAt {remark : String} (normal : IsRemark remark) :
    [] ∉ splitAt (· == ' ') remark.toList := by
  intro empty
  have whole := joinWith_splitAt ' ' remark.toList
  obtain ⟨before, after, pieces⟩ := List.append_of_mem empty
  rw [pieces] at whole
  by_cases first : before = []
  · by_cases last : after = []
    · refine normal.filled (String.toList_eq_nil_iff.mp ?_)
      rw [← whole, first, last]
      rfl
    · refine absurd (normal.trimmed.1 ' ' ?_) (by decide)
      rw [← whole, first, List.nil_append, joinWith_cons last]
      rfl
  · by_cases last : after = []
    · refine absurd (normal.trimmed.2 ' ' ?_) (by decide)
      rw [← whole, last, joinWith_append_singleton first, List.append_nil]
      exact List.getLast?_concat
    · refine normal.single ⟨joinWith [' '] before, joinWith [' '] after, ?_⟩
      rw [← whole, joinWith_append first (by simp), joinWith_cons last]
      simp

theorem IsRemark.joinWith_words {remark : String} (normal : IsRemark remark) :
    joinWith [' '] (words remark.toList) = remark.toList := by
  have spaces : splitAt isBlank remark.toList = splitAt (· == ' ') remark.toList := by
    refine splitAt_congr fun c member => ?_
    cases blank : isBlank c with
    | true =>
      rw [normal.spaced c member blank]
      rfl
    | false =>
      refine (beq_false_of_ne fun same => ?_).symm
      rw [same] at blank
      exact absurd blank (by decide)
  have solid : ∀ piece ∈ splitAt (· == ' ') remark.toList, (!piece.isEmpty) = true := by
    intro piece member
    have filled : piece ≠ [] := fun empty => normal.nil_not_mem_splitAt (empty ▸ member)
    simpa using filled
  rw [words, spaces, List.filter_eq_self.mpr solid, joinWith_splitAt]

theorem IsRemark.lineFeed_not_mem {remark : String} (normal : IsRemark remark) :
    '\n' ∉ remark.toList :=
  fun broken => absurd (normal.spaced '\n' broken (by decide)) (by decide)

namespace LineComments

variable {comments : LineComments} {lines : List Nat}

theorem mem_onLines {remark : String} :
    remark ∈ comments.onLines lines ↔ ∃ line ∈ lines, (line, remark) ∈ comments.remarks := by
  simp only [onLines, Entry.mem_sortedDistinct, List.mem_map, List.mem_filter, List.contains_iff_mem,
    Prod.exists, exists_eq_right]
  exact exists_congr fun line => and_comm

theorem pairwise_onLines (comments : LineComments) (lines : List Nat) :
    (comments.onLines lines).Pairwise (· < ·) :=
  Entry.pairwise_sortedDistinct _

theorem isRemark_of_mem_onLines {source : Source} {found : List Comment} {remark : String}
    (member : remark ∈ (ofComments source found).onLines lines) : IsRemark remark := by
  obtain ⟨line, -, member⟩ := mem_onLines.mp member
  obtain ⟨member, filled⟩ := List.mem_filter.mp member
  obtain ⟨comment, -, same⟩ := List.mem_map.mp member
  cases same
  exact isRemark_remarkText (by simpa using filled)

/-- The block that counts of those that end on a line: the last one in the list. -/
def EndsOn (comments : LineComments) (line : Nat) (doc : DocBlock) : Prop :=
  ∃ before after, comments.docs = before ++ (line, doc) :: after ∧ ∀ later ∈ after, later.1 ≠ line

theorem docEndingAt?_eq_some_iff {line : Nat} {doc : DocBlock} :
    comments.docEndingAt? line = some doc ↔ comments.EndsOn line doc := by
  simp only [docEndingAt?, Option.map_eq_some_iff, List.find?_eq_some_iff_append, Prod.exists,
    exists_eq_right, beq_iff_eq, EndsOn]
  constructor
  · rintro ⟨_, rfl, after, before, reversed, others⟩
    refine ⟨before.reverse, after.reverse, ?_, fun later member => ?_⟩
    · simpa using congrArg List.reverse reversed
    · simpa using others later (List.mem_reverse.mp member)
  · rintro ⟨before, after, docs, others⟩
    refine ⟨line, rfl, after.reverse, before.reverse, by simp [docs], fun later member => ?_⟩
    simpa using others later (List.mem_reverse.mp member)

theorem docEndingAt?_eq_none_iff {line : Nat} :
    comments.docEndingAt? line = none ↔ ∀ doc, ¬ comments.EndsOn line doc := by
  simp only [Option.eq_none_iff_forall_ne_some, ne_eq, docEndingAt?_eq_some_iff]

end LineComments

end Phrasebook.Script
