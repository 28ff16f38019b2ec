import Phrasebook.Proofs.Script.Comments
import Phrasebook.Proofs.Script.Visits
import Phrasebook.Proofs.Text.Dedent

/-!
What a search makes of a literal, and the normal form of what it finds: the literal of a message is never
empty and has no margin, and its comments are distinct, in order and each on one line.
-/

set_option autoImplicit false

namespace Phrasebook.Script

theorem Scan.mem_messages_ofFindings {found : List Finding} {message : Message} :
    message ∈ (Scan.ofFindings found).messages ↔ .message message ∈ found := by
  simp only [Scan.ofFindings, List.mem_filterMap]
  constructor
  · rintro ⟨finding, member, same⟩
    cases finding with
    | message found =>
      obtain rfl := Option.some.inj same
      exact member
    | issue found => cases same
  · exact fun member => ⟨_, member, rfl⟩

theorem Scan.ofFindings_append (found more : List Finding) :
    Scan.ofFindings (found ++ more) =
      ⟨(Scan.ofFindings found).messages ++ (Scan.ofFindings more).messages,
        (Scan.ofFindings found).issues ++ (Scan.ofFindings more).issues⟩ := by
  simp only [Scan.ofFindings, List.filterMap_append]

namespace Search

variable (search : Search)

def messageOf (literal : List Char) (line : Nat) (lines : List Nat) (isDocumentation : Bool) :
    Message where
  literal := String.ofList literal
  line
  comments := search.comments.onLines lines
  isFormat := Text.isFormatString literal
  isDocumentation

theorem message_eq (literal : List Char) (line : Nat) (lines : List Nat) (isDocumentation : Bool) :
    search.message literal line lines isDocumentation =
      if literal = [] then [] else [.message (search.messageOf literal line lines isDocumentation)] := by
  simp only [message, messageOf, List.isEmpty_iff]

theorem scan_message (literal : List Char) (line : Nat) (lines : List Nat) (isDocumentation : Bool) :
    Scan.ofFindings (search.message literal line lines isDocumentation) =
      ⟨if literal = [] then [] else [search.messageOf literal line lines isDocumentation], []⟩ := by
  rw [message_eq]
  split
  · rfl
  · rfl

end Search

/-- A message in the normal form of catalogs: a literal without a margin, told apart by its placeholders,
and distinct comments in order, each on one line. -/
structure Message.IsNormal (message : Message) : Prop where
  filled : message.literal ≠ ""
  flush : Text.dedent message.literal.toList = message.literal.toList
  format : message.isFormat = Text.isFormatString message.literal.toList
  increasing : message.comments.Pairwise (· < ·)
  remarks : ∀ remark ∈ message.comments, IsRemark remark

namespace Search

variable {search : Search}
  (clean : ∀ lines, ∀ remark ∈ search.comments.onLines lines, IsRemark remark)

include clean

private theorem isNormal_of_mem_message {literal : List Char} (flush : Text.dedent literal = literal)
    {line : Nat} {lines : List Nat} {isDocumentation : Bool} {message : Message}
    (h : .message message ∈ search.message literal line lines isDocumentation) : message.IsNormal := by
  rw [message_eq] at h
  split at h
  · cases h
  · rename_i filled
    cases List.mem_singleton.mp h
    refine ⟨?_, ?_, ?_, LineComments.pairwise_onLines _ lines, clean lines⟩
    · simpa [messageOf] using filled
    · simpa [messageOf] using flush
    · simp [messageOf]

private theorem isNormal_of_mem_ofCall {span : Span} {arguments : List Node} {message : Message}
    (h : .message message ∈ search.ofCall span arguments) : message.IsNormal := by
  unfold ofCall at h
  split at h
  · exact isNormal_of_mem_message clean (Text.dedent_dedent _) h
  · cases List.mem_singleton.mp h

private theorem isNormal_of_mem_ofClass {start : Nat} {decorators : List Node} {message : Message}
    (h : .message message ∈ search.ofClass start decorators) : message.IsNormal := by
  unfold ofClass at h
  split at h
  · cases h
  · split at h
    · simp only [documentation] at h
      split at h
      · exact isNormal_of_mem_message clean (Text.dedent_cleanDocComment _) h
      · cases h
    · obtain ⟨place, _, h⟩ := List.mem_flatMap.mp h
      exact isNormal_of_mem_message clean (Text.dedent_dedent _) h

theorem isNormal_of_mem_findings {tree : Node} {message : Message}
    (h : .message message ∈ search.findings tree) : message.IsNormal := by
  rw [findings_eq_sites] at h
  obtain ⟨address, -, h⟩ := List.mem_flatMap.mp h
  unfold held at h
  cases there : tree.at? address with
  | none =>
    rw [there] at h
    cases h
  | some node =>
    rw [there] at h
    -- Only calls and classes hold something by themselves.
    cases node with
    | call span callee arguments => exact isNormal_of_mem_ofCall clean h
    | classLike start decorators members rest => exact isNormal_of_mem_ofClass clean h
    | _ => cases h

end Search

/-- A message that a search finds in some tree, with the comments of some script around it. -/
inductive IsFound (message : Message) : Prop
  | intro (path : String) (source : Source) (comments : List Comment) (markers : Markers) (tree : Node)
    (member : message ∈ (Scan.ofFindings
      (Search.findings ⟨path, source, .ofComments source comments, markers⟩ tree)).messages)

theorem IsFound.isNormal {message : Message} (found : IsFound message) : message.IsNormal := by
  obtain ⟨path, source, comments, markers, tree, member⟩ := found
  have clean : ∀ lines, ∀ remark ∈ (LineComments.ofComments source comments).onLines lines,
      IsRemark remark := fun _ _ => LineComments.isRemark_of_mem_onLines
  exact Search.isNormal_of_mem_findings clean (Scan.mem_messages_ofFindings.mp member)

theorem isFound_of_scan? {path text : String} {markers : Markers} {scan : Scan}
    (h : scan? path text markers = some scan) {message : Message} (member : message ∈ scan.messages) :
    IsFound message := by
  unfold scan? at h
  simp only [Option.map_eq_some_iff] at h
  obtain ⟨⟨tree, comments⟩, -, rfl⟩ := h
  exact .intro path _ comments markers tree member

end Phrasebook.Script
