import Phrasebook.Proofs.Script.Comments
import Phrasebook.Proofs.Script.Visits

/-!
The comments of a script by line, whatever order they are listed in. The remarks on some lines are those of
the comments that begin there, in an order of their own, and documentation leaves none; a line on which at
most one documentation block ends leads to that block. So what a search finds does not depend on the order
of the comments either.
-/

set_option autoImplicit false

namespace Phrasebook.Script

open Text

/-- A documentation block as it stands in a script: a block comment that opens with exactly two asterisks, of
which the second begins its text. -/
structure Comment.IsDocumentation (comment : Comment) : Prop where
  isBlock : comment.isBlock = true
  starred : ∃ rest, comment.text = '*' :: rest ∧ rest.head? ≠ some '*'

/-- A comment leaves a remark unless it is a documentation block: its words, with single spaces between
them. -/
structure Comment.Leaves (comment : Comment) (remark : String) : Prop where
  plain : ¬comment.IsDocumentation
  normal : IsRemark remark
  words : words remark.toList = words comment.text

variable {source : Source} {comment : Comment} {comments shuffled : List Comment}

theorem isDoc_iff : LineComments.isDoc comment = true ↔ comment.IsDocumentation := by
  simp only [LineComments.isDoc, Bool.and_eq_true, beq_iff_eq, bne_iff_ne, and_assoc]
  constructor
  · rintro ⟨block, first, second⟩
    obtain ⟨rest, text⟩ := List.head?_eq_some_iff.mp first
    refine ⟨block, rest, text, ?_⟩
    rwa [text, List.getElem?_cons_succ, ← List.head?_eq_getElem?] at second
  · rintro ⟨block, rest, text, second⟩
    refine ⟨block, by rw [text]; rfl, ?_⟩
    rwa [text, List.getElem?_cons_succ, ← List.head?_eq_getElem?]

instance : DecidablePred Comment.IsDocumentation := fun _ => decidable_of_iff _ isDoc_iff

theorem leaves_iff {remark : String} :
    comment.Leaves remark ↔
      ¬comment.IsDocumentation ∧ LineComments.remarkText comment = remark ∧ remark ≠ "" := by
  constructor
  · rintro ⟨plain, normal, words⟩
    refine ⟨plain, ?_, normal.filled⟩
    rw [LineComments.remarkText, ← words, normal.joinWith_words, String.ofList_toList]
  · rintro ⟨plain, rfl, filled⟩
    refine ⟨plain, isRemark_remarkText filled, ?_⟩
    rw [LineComments.remarkText, String.toList_ofList]
    exact words_joinWith fun _ => isWord_of_mem_words

namespace LineComments

theorem mem_remarks_ofComments {line : Nat} {remark : String} :
    (line, remark) ∈ (ofComments source comments).remarks ↔
      ∃ comment ∈ comments, comment.Leaves remark ∧ source.lineAt comment.span.start = line := by
  simp only [ofComments, List.mem_filter, List.mem_map, Prod.mk.injEq, Bool.not_eq_true', leaves_iff,
    ← isDoc_iff, Bool.not_eq_true, String.isEmpty_eq_false_iff]
  constructor
  · rintro ⟨⟨comment, ⟨member, plain⟩, starts, text⟩, filled⟩
    exact ⟨comment, member, ⟨plain, text, filled⟩, starts⟩
  · rintro ⟨comment, member, ⟨plain, text, filled⟩, starts⟩
    exact ⟨⟨comment, ⟨member, plain⟩, starts, text⟩, filled⟩

theorem mem_onLines_ofComments {lines : List Nat} {remark : String} :
    remark ∈ (ofComments source comments).onLines lines ↔
      ∃ comment ∈ comments, comment.Leaves remark ∧ source.lineAt comment.span.start ∈ lines := by
  simp only [mem_onLines, mem_remarks_ofComments]
  constructor
  · rintro ⟨_, asked, comment, member, leaves, rfl⟩
    exact ⟨comment, member, leaves, asked⟩
  · rintro ⟨comment, member, leaves, asked⟩
    exact ⟨_, asked, comment, member, leaves, rfl⟩

/-- The remarks on some lines are determined by what is asked: which lines, and which comments leave
remarks. -/
theorem onLines_congr {lines others : List Nat} (asked : ∀ line, line ∈ lines ↔ line ∈ others)
    (same : ∀ comment, ¬comment.IsDocumentation → (comment ∈ comments ↔ comment ∈ shuffled)) :
    (ofComments source comments).onLines lines = (ofComments source shuffled).onLines others := by
  refine eq_of_pairwise_lt (pairwise_onLines _ _) (pairwise_onLines _ _) fun remark => ?_
  rw [mem_onLines_ofComments, mem_onLines_ofComments]
  refine exists_congr fun comment => ?_
  constructor
  · rintro ⟨member, leaves, starts⟩
    exact ⟨(same comment leaves.plain).mp member, leaves, (asked _).mp starts⟩
  · rintro ⟨member, leaves, starts⟩
    exact ⟨(same comment leaves.plain).mpr member, leaves, (asked _).mpr starts⟩

structure Documents (source : Source) (comment : Comment) (line : Nat) (doc : DocBlock) : Prop where
  documentation : comment.IsDocumentation
  ends : source.lineAt comment.span.stop = line
  starts : source.lineAt comment.span.start = doc.startLine
  text : comment.text = doc.text

theorem mem_docs_ofComments {line : Nat} {doc : DocBlock} :
    (line, doc) ∈ (ofComments source comments).docs ↔
      ∃ comment ∈ comments, Documents source comment line doc := by
  simp only [ofComments, List.partition_eq_filter_filter, List.mem_map, List.mem_append, List.mem_filter,
    Prod.mk.injEq, isDoc_iff]
  constructor
  · rintro ⟨comment, ⟨⟨member, documentation⟩, -⟩ | ⟨⟨member, documentation⟩, -⟩, ends, rfl⟩
    · exact ⟨comment, member, documentation, ends, rfl, rfl⟩
    · exact ⟨comment, member, documentation, ends, rfl, rfl⟩
  · rintro ⟨comment, member, documentation, ends, starts, text⟩
    refine ⟨comment, ?_, ends, by rw [starts, text]⟩
    by_cases trailing : comment.isTrailing = true
    · exact Or.inr ⟨⟨member, documentation⟩, trailing⟩
    · exact Or.inl ⟨⟨member, documentation⟩, by simpa using trailing⟩

theorem exists_documents_of_docEndingAt? {line : Nat} {doc : DocBlock}
    (found : (ofComments source comments).docEndingAt? line = some doc) :
    ∃ comment ∈ comments, Documents source comment line doc := by
  obtain ⟨before, after, docs, -⟩ := docEndingAt?_eq_some_iff.mp found
  exact mem_docs_ofComments.mp (by rw [docs]; simp)

theorem exists_docEndingAt?_of_documents {line : Nat} {doc : DocBlock} (member : comment ∈ comments)
    (documents : Documents source comment line doc) :
    ∃ last, (ofComments source comments).docEndingAt? line = some last := by
  have listed := mem_docs_ofComments.mpr ⟨comment, member, documents⟩
  have found : ((ofComments source comments).docs.reverse.find? (·.1 == line)).isSome := by
    rw [List.find?_isSome]
    exact ⟨_, List.mem_reverse.mpr listed, beq_self_eq_true line⟩
  obtain ⟨last, found⟩ := Option.isSome_iff_exists.mp found
  exact ⟨last.2, by rw [docEndingAt?, found, Option.map_some]⟩

def IsSoleOn (source : Source) (comments : List Comment) (line : Nat) : Prop :=
  ∀ one ∈ comments, ∀ other ∈ comments, one.IsDocumentation → other.IsDocumentation →
    source.lineAt one.span.stop = line → source.lineAt other.span.stop = line → one = other

instance (source : Source) (comments : List Comment) (line : Nat) :
    Decidable (IsSoleOn source comments line) :=
  inferInstanceAs (Decidable (∀ one ∈ comments, ∀ other ∈ comments, one.IsDocumentation →
    other.IsDocumentation → source.lineAt one.span.stop = line → source.lineAt other.span.stop = line →
    one = other))

theorem IsSoleOn.docEndingAt?_eq_some_iff {line : Nat} {doc : DocBlock}
    (sole : IsSoleOn source comments line) :
    (ofComments source comments).docEndingAt? line = some doc ↔
      ∃ comment ∈ comments, Documents source comment line doc := by
  constructor
  · exact exists_documents_of_docEndingAt?
  · rintro ⟨comment, member, documents⟩
    obtain ⟨last, found⟩ := exists_docEndingAt?_of_documents member documents
    obtain ⟨other, among, same⟩ := exists_documents_of_docEndingAt? found
    obtain rfl := sole comment member other among documents.documentation same.documentation
      documents.ends same.ends
    have block : last = doc := by
      cases last
      cases doc
      rw [DocBlock.mk.injEq]
      exact ⟨same.starts.symm.trans documents.starts, same.text.symm.trans documents.text⟩
    rw [found, block]

theorem IsSoleOn.docEndingAt?_of_perm {line : Nat} (sole : IsSoleOn source comments line)
    (same : shuffled.Perm comments) :
    (ofComments source shuffled).docEndingAt? line = (ofComments source comments).docEndingAt? line := by
  have shuffledSole : IsSoleOn source shuffled line := fun one first other second =>
    sole one (same.mem_iff.mp first) other (same.mem_iff.mp second)
  refine Option.ext fun doc => ?_
  rw [shuffledSole.docEndingAt?_eq_some_iff, sole.docEndingAt?_eq_some_iff]
  exact exists_congr fun comment => and_congr_left fun _ => same.mem_iff

/-- Comments in another order leave the same remarks on the same lines: each remark once, in order, and
exactly those of the comments that begin there. Documentation blocks leave none; each of them is found by the
line that it ends on, if no other one ends there, whatever the order. -/
theorem lookups_of_perm (source : Source) {comments shuffled : List Comment}
    (same : shuffled.Perm comments) :
    let index := ofComments source comments
    (∀ lines others, (∀ line, line ∈ others ↔ line ∈ lines) →
      (ofComments source shuffled).onLines others = index.onLines lines) ∧
    (∀ lines, (index.onLines lines).Pairwise (· < ·) ∧ ∀ remark, remark ∈ index.onLines lines ↔
      ∃ comment ∈ comments, comment.Leaves remark ∧ source.lineAt comment.span.start ∈ lines) ∧
    (∀ blocks, (∀ block ∈ blocks, block.IsDocumentation) → ∀ lines,
      (ofComments source (comments ++ blocks)).onLines lines = index.onLines lines) ∧
    ∀ line, IsSoleOn source comments line →
      (ofComments source shuffled).docEndingAt? line = index.docEndingAt? line ∧
      ∀ doc, index.docEndingAt? line = some doc ↔
        ∃ comment ∈ comments, Documents source comment line doc := by
  intro index
  refine ⟨fun lines others asked => ?_, fun lines => ⟨pairwise_onLines index lines, fun remark => ?_⟩,
    fun blocks documentation lines => ?_, fun line sole => ⟨sole.docEndingAt?_of_perm same, fun doc => ?_⟩⟩
  · exact onLines_congr asked fun comment _ => same.mem_iff
  · exact mem_onLines_ofComments
  · refine onLines_congr (fun _ => Iff.rfl) fun comment plain => ?_
    have apart : comment ∉ blocks := fun member => plain (documentation comment member)
    simp only [List.mem_append, apart, or_false]
  · exact sole.docEndingAt?_eq_some_iff

private def mixedSource : Source :=
  "/** Up\n */ // b\n/*  a\n a */ x; /***/\n// b\n".toList.toArray

private def mixedComments : List Comment :=
  [⟨⟨0, 10⟩, true, false, "* Up\n ".toList⟩, ⟨⟨11, 15⟩, false, false, " b".toList⟩,
    ⟨⟨16, 27⟩, true, false, "  a\n a ".toList⟩, ⟨⟨31, 36⟩, true, true, "*".toList⟩,
    ⟨⟨37, 41⟩, false, false, " b".toList⟩]

theorem lookups_of_perm_of_mixed :
    let shuffled := ofComments mixedSource mixedComments.reverse
    mixedComments.reverse.Perm mixedComments ∧
      shuffled.onLines [5, 3, 2, 5] = ["a a", "b"] ∧
      (ofComments mixedSource (mixedComments ++ [⟨⟨42, 50⟩, true, false, "* b ".toList⟩])).onLines [1, 5] =
        ["b"] ∧
      IsSoleOn mixedSource mixedComments 2 ∧
      shuffled.docEndingAt? 2 = some ⟨1, "* Up\n ".toList⟩ := by
  intro shuffled
  have same := List.reverse_perm mixedComments
  obtain ⟨lists, -, plain, docs⟩ := lookups_of_perm mixedSource same
  have asked : ∀ line, line ∈ [5, 3, 2, 5] ↔ line ∈ [2, 3, 5] := by
    intro line
    simp only [List.mem_cons, List.not_mem_nil, or_false]
    tauto
  have texts : (ofComments mixedSource mixedComments).onLines [2, 3, 5] = ["a a", "b"] := by
    have found : (((ofComments mixedSource mixedComments).remarks.filter ([2, 3, 5].contains ·.1)).map
        (·.2)) = ["b", "a a", "b"] := by decide +kernel
    have once : ∀ remark, remark ∈ ["b", "a a", "b"] ↔ remark ∈ ["a a", "b"] := by simp
    rw [onLines, found, Entry.sortedDistinct_congr once]
    exact Entry.sortedDistinct_of_pairwise (by decide)
  have sole : IsSoleOn mixedSource mixedComments 2 := by decide +kernel
  exact ⟨same, (lists [2, 3, 5] [5, 3, 2, 5] asked).trans texts,
    (plain [⟨⟨42, 50⟩, true, false, "* b ".toList⟩] (by decide) [1, 5]).trans (by decide +kernel), sole,
    (docs 2 sole).1.trans (by decide +kernel)⟩

/-- Of two documentation blocks that end on one line, both before a token, the order decides. -/
example :
    let upper : Comment := ⟨⟨0, 8⟩, true, false, "* A ".toList⟩
    let lower : Comment := ⟨⟨9, 17⟩, true, false, "* B ".toList⟩
    let source : Source := "/** A */ /** B */".toList.toArray
    (ofComments source [upper, lower]).docEndingAt? 1 ≠
      (ofComments source [lower, upper]).docEndingAt? 1 := by decide +kernel

end LineComments

namespace Search

variable (search : Search) {other : LineComments}

private theorem own_congr (remarks : ∀ lines, other.onLines lines = search.comments.onLines lines)
    (docs : ∀ line, other.docEndingAt? line = search.comments.docEndingAt? line) (node : Node) :
    own { search with comments := other } node = search.own node := by
  have message (literal : List Char) (line : Nat) (lines : List Nat) (isDocumentation : Bool) :
      message { search with comments := other } literal line lines isDocumentation =
        search.message literal line lines isDocumentation := by
    simp only [Search.message, remarks]
  have ofCall (span : Span) (arguments : List Node) :
      ofCall { search with comments := other } span arguments = search.ofCall span arguments := by
    simp only [Search.ofCall, message]
    rfl
  have documentation (start : Nat) (decorators : List Node) :
      documentation { search with comments := other } start decorators =
        search.documentation start decorators := by
    simp only [Search.documentation, message, docs]
    rfl
  have ofClass (start : Nat) (decorators : List Node) :
      ofClass { search with comments := other } start decorators = search.ofClass start decorators := by
    simp only [Search.ofClass, message, documentation]
    rfl
  cases node with
  | call span callee arguments =>
    simp only [own, ofSite, ofCall]
    rfl
  | classLike start decorators members rest => rw [own_classLike, own_classLike, ofClass]
  | _ => rfl

theorem findings_congr (remarks : ∀ lines, other.onLines lines = search.comments.onLines lines)
    (docs : ∀ line, other.docEndingAt? line = search.comments.docEndingAt? line) (tree : Node) :
    findings { search with comments := other } tree = search.findings tree := by
  rw [findings_eq_flatMap, findings_eq_flatMap]
  refine List.flatMap_congr fun address _ => ?_
  cases tree.at? address with
  | none => rfl
  | some node => exact search.own_congr remarks docs node

/-- A script with at most one documentation block to a line is searched alike whatever the order of its
comments. -/
theorem findings_of_perm (path : String) (source : Source) (markers : Markers)
    {comments shuffled : List Comment} (same : shuffled.Perm comments)
    (sole : ∀ line, LineComments.IsSoleOn source comments line) (tree : Node) :
    findings ⟨path, source, .ofComments source shuffled, markers⟩ tree =
      findings ⟨path, source, .ofComments source comments, markers⟩ tree :=
  findings_congr ⟨path, source, .ofComments source comments, markers⟩
    (fun _ => LineComments.onLines_congr (fun _ => Iff.rfl) fun _ _ => same.mem_iff)
    (fun line => (sole line).docEndingAt?_of_perm same) tree

end Search

end Phrasebook.Script
