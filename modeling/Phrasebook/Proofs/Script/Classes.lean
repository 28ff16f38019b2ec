import Mathlib.Order.Bounds.Basic
import Phrasebook.Proofs.Script.Calls

/-!
The messages of a class by itself: the fields that its first marker names, or else its documentation. What
a class holds is told here from its decorators and from the comments around it, case by case.
-/

set_option autoImplicit false

namespace Phrasebook.Script

inductive Marks (names : List String) : Node → List Node → Prop
  | bare {expression : Node} (position : Nat) (named : isNamed names expression = true) :
    Marks names (.decorator position expression) []
  | called {callee : Node} (position : Nat) (span : Span) (named : isNamed names callee = true)
    (arguments : List Node) : Marks names (.decorator position (.call span callee arguments)) arguments

def IsFirstMark (names : List String) (decorators arguments : List Node) : Prop :=
  ∃ before decorator after, decorators = before ++ decorator :: after ∧
    Marks names decorator arguments ∧ ∀ earlier ∈ before, ∀ others, ¬ Marks names earlier others

theorem markerArguments?_eq_some_iff {names : List String} {decorator : Node} {arguments : List Node} :
    markerArguments? names decorator = some arguments ↔ Marks names decorator arguments := by
  constructor
  · intro found
    unfold markerArguments? at found
    split at found
    · split at found
      · rename_i named
        obtain rfl := Option.some.inj found
        exact .called _ _ named _
      · cases found
    · split at found
      · rename_i named
        obtain rfl := Option.some.inj found
        exact .bare _ named
      · cases found
    · cases found
  · rintro (⟨position, named⟩ | ⟨position, span, named, arguments⟩)
    · unfold markerArguments?
      split
      · -- A call has no name.
        rename_i same
        cases same
        cases named
      · rename_i same
        cases same
        exact if_pos named
      · rename_i shape
        exact absurd rfl (shape _ _)
    · exact if_pos named

theorem markerArguments?_eq_none_iff {names : List String} {decorator : Node} :
    markerArguments? names decorator = none ↔ ∀ arguments, ¬ Marks names decorator arguments := by
  simp only [Option.eq_none_iff_forall_ne_some, ne_eq, markerArguments?_eq_some_iff]

theorem findSome?_markerArguments?_eq_some_iff {names : List String} {decorators arguments : List Node} :
    decorators.findSome? (markerArguments? names) = some arguments ↔
      IsFirstMark names decorators arguments := by
  simp only [List.findSome?_eq_some_iff, IsFirstMark, markerArguments?_eq_some_iff,
    markerArguments?_eq_none_iff]

/-- A property that gives one of the fields a literal, with its text and its position. -/
inductive IsField (fields : List String) : Node → String → Nat → Prop
  | pair {name text : String} {value : Node} {start : Nat} (known : name ∈ fields) (key : List Node)
    (literal : IsLiteral value text start) : IsField fields (.pair (some name) key value) text start

inductive Fields (fields : List String) : List Node → List (String × Nat) → Prop
  | nil : Fields fields [] []
  | take {property : Node} {text : String} {start : Nat} {properties : List Node}
    {found : List (String × Nat)} (field : IsField fields property text start)
    (rest : Fields fields properties found) :
    Fields fields (property :: properties) ((text, start) :: found)
  | skip {property : Node} {properties : List Node} {found : List (String × Nat)}
    (other : ∀ text start, ¬ IsField fields property text start)
    (rest : Fields fields properties found) : Fields fields (property :: properties) found

/-- The fields that the first argument of a marker names, an object or the spread of one. -/
inductive Names (fields : List String) : List Node → List (String × Nat) → Prop
  | plain {properties : List Node} {found : List (String × Nat)}
    (listed : Fields fields properties found) (more : List Node) :
    Names fields (.object properties :: more) found
  | spread {properties : List Node} {found : List (String × Nat)}
    (listed : Fields fields properties found) (more : List Node) :
    Names fields (.spread (.object properties) :: more) found

theorem literalOf_eq_some_iff {fields : List String} {property : Node} {text : String} {start : Nat} :
    fieldLiterals.literalOf fields property = some (text, start) ↔
      IsField fields property text start := by
  constructor
  · intro found
    unfold fieldLiterals.literalOf at found
    split at found
    · split at found
      · rename_i known
        exact .pair (by simpa using known) _ (literal?_eq_some_iff.mp found)
      · cases found
    · cases found
  · rintro ⟨known, key, literal⟩
    rw [fieldLiterals.literalOf, if_pos (by simpa using known), literal?_eq_some_iff.mpr literal]

theorem filterMap_literalOf_eq_iff {fields : List String} {properties : List Node}
    {found : List (String × Nat)} :
    properties.filterMap (fieldLiterals.literalOf fields) = found ↔ Fields fields properties found := by
  constructor
  · rintro rfl
    induction properties with
    | nil => exact .nil
    | cons property properties ih =>
      cases field : fieldLiterals.literalOf fields property with
      | none =>
        rw [List.filterMap_cons_none field]
        refine .skip (fun text start member => ?_) ih
        rw [literalOf_eq_some_iff.mpr member] at field
        cases field
      | some place =>
        rw [List.filterMap_cons_some field]
        exact .take (literalOf_eq_some_iff.mp field) ih
  · intro listed
    induction listed with
    | nil => rfl
    | take field _ ih => rw [List.filterMap_cons_some (literalOf_eq_some_iff.mpr field), ih]
    | skip other _ ih =>
      rw [List.filterMap_cons_none, ih]
      exact Option.eq_none_iff_forall_ne_some.mpr fun place field =>
        other _ _ (literalOf_eq_some_iff.mp field)

theorem fieldLiterals_eq_iff {fields : List String} {arguments : List Node}
    {found : List (String × Nat)} (some : found ≠ []) :
    fieldLiterals fields arguments = found ↔ Names fields arguments found := by
  constructor
  · rintro rfl
    unfold fieldLiterals at some ⊢
    split
    · exact .plain (filterMap_literalOf_eq_iff.mp rfl) _
    · exact .spread (filterMap_literalOf_eq_iff.mp rfl) _
    · simp_all
  · rintro (⟨listed, more⟩ | ⟨listed, more⟩)
    · exact filterMap_literalOf_eq_iff.mpr listed
    · exact filterMap_literalOf_eq_iff.mpr listed

theorem fieldLiterals_eq_nil_iff {fields : List String} {arguments : List Node} :
    fieldLiterals fields arguments = [] ↔ ∀ found, Names fields arguments found → found = [] := by
  constructor
  · intro none found named
    by_contra some
    exact some ((fieldLiterals_eq_iff some).mpr named ▸ none)
  · intro nameless
    by_contra some
    exact some (nameless _ ((fieldLiterals_eq_iff some).mp rfl))

namespace Search

variable (search : Search) (start : Nat) (decorators : List Node)

def IsFirstLine (line : Nat) : Prop :=
  IsLeast {found | found = search.lineAt start ∨ ∃ position expression,
    .decorator position expression ∈ decorators ∧ found = search.lineAt position} line

/-- The documentation of a class: the block that ends on the line above its first line or, failing that,
the one that ends on its first line. -/
def IsDocumentedBy (doc : DocBlock) : Prop :=
  ∃ above, search.IsFirstLine start decorators (above + 1) ∧
    (search.comments.EndsOn above doc ∨
      (∀ other, ¬ search.comments.EndsOn above other) ∧ search.comments.EndsOn (above + 1) doc)

private theorem isLeast_foldl_min (first : Nat) (others : List Nat) :
    IsLeast {line | line = first ∨ line ∈ others} (others.foldl min first) := by
  induction others generalizing first with
  | nil => simp [IsLeast, lowerBounds]
  | cons other others ih =>
    obtain ⟨reached, least⟩ := ih (min first other)
    constructor
    · rcases reached with reached | member
      · rcases min_choice first other with choice | choice
        · exact Or.inl (reached.trans choice)
        · exact Or.inr (List.mem_cons.mpr (Or.inl (reached.trans choice)))
      · exact Or.inr (List.mem_cons_of_mem other member)
    · have below : others.foldl min (min first other) ≤ min first other := least (Or.inl rfl)
      rintro line (rfl | member)
      · exact below.trans (min_le_left _ _)
      · rcases List.mem_cons.mp member with rfl | member
        · exact below.trans (min_le_right _ _)
        · exact least (Or.inr member)

private def firstLine : Nat :=
  let position? : Node → Option Nat
    | .decorator position _ => some position
    | _ => none
  ((decorators.filterMap position?).map search.lineAt).foldl min (search.lineAt start)

private theorem isFirstLine_firstLine :
    search.IsFirstLine start decorators (search.firstLine start decorators) := by
  unfold IsFirstLine firstLine
  convert isLeast_foldl_min _ _ using 1
  ext line
  simp only [Set.mem_ofPred_eq, List.mem_map, List.mem_filterMap]
  refine or_congr_right ⟨?_, ?_⟩
  · rintro ⟨position, expression, member, rfl⟩
    exact ⟨position, ⟨_, member, rfl⟩, rfl⟩
  · rintro ⟨position, ⟨decorator, member, found⟩, rfl⟩
    cases decorator with
    | decorator place expression =>
      obtain rfl := Option.some.inj found
      exact ⟨place, expression, member, rfl⟩
    | _ => cases found

variable {search start decorators}

private theorem documentation_eq {above : Nat} (first : search.IsFirstLine start decorators (above + 1)) :
    search.documentation start decorators =
      match search.comments.docEndingAt? above <|> search.comments.docEndingAt? (above + 1) with
      | some doc => search.message (Text.cleanDocComment doc.text) doc.startLine [] true
      | none => [] := by
  have line := (search.isFirstLine_firstLine start decorators).unique first
  have before : search.firstLine start decorators - 1 = above := by rw [line, Nat.add_sub_cancel]
  rw [← line, ← before]
  rfl

theorem documentation_of_isDocumentedBy {doc : DocBlock}
    (documented : search.IsDocumentedBy start decorators doc) :
    search.documentation start decorators =
      search.message (Text.cleanDocComment doc.text) doc.startLine [] true := by
  obtain ⟨above, first, ends | ⟨bare, ends⟩⟩ := documented
  · rw [documentation_eq first, LineComments.docEndingAt?_eq_some_iff.mpr ends]
    rfl
  · rw [documentation_eq first, LineComments.docEndingAt?_eq_none_iff.mpr bare,
      LineComments.docEndingAt?_eq_some_iff.mpr ends]
    rfl

theorem documentation_of_not_isDocumentedBy
    (undocumented : ∀ doc, ¬ search.IsDocumentedBy start decorators doc) :
    search.documentation start decorators = [] := by
  have first := search.isFirstLine_firstLine start decorators
  -- Lines are counted from one, so there is one above, if only by number.
  obtain ⟨above, line⟩ : ∃ above, search.firstLine start decorators = above + 1 := by
    rcases first.1 with line | ⟨_, _, _, line⟩
    · exact ⟨_, line⟩
    · exact ⟨_, line⟩
  rw [line] at first
  have bare : ∀ doc, ¬ search.comments.EndsOn above doc := fun doc ends =>
    undocumented doc ⟨above, first, Or.inl ends⟩
  have below : ∀ doc, ¬ search.comments.EndsOn (above + 1) doc := fun doc ends =>
    undocumented doc ⟨above, first, Or.inr ⟨bare, ends⟩⟩
  rw [documentation_eq first, LineComments.docEndingAt?_eq_none_iff.mpr bare,
    LineComments.docEndingAt?_eq_none_iff.mpr below]
  rfl

variable (search start decorators)

def fieldMessages (fields : List (String × Nat)) : List Message :=
  (fields.filter fun (text, _) => Text.dedent text.toList ≠ []).map fun (text, position) =>
    search.messageOf (Text.dedent text.toList) (search.lineAt position) [search.lineAt position] false

/-- The messages of a class by itself, by what its first marker says and by what stands above it. -/
inductive ClassHolds : List Message → Prop
  | unmarked (plain : ∀ decorator ∈ decorators, ∀ arguments,
      ¬ Marks search.markers.decorators decorator arguments) : ClassHolds []
  | named {arguments : List Node} {found : List (String × Nat)}
    (first : IsFirstMark search.markers.decorators decorators arguments)
    (fields : Names search.markers.fields arguments found) (some : found ≠ []) :
    ClassHolds (search.fieldMessages found)
  | documented {arguments : List Node} {doc : DocBlock}
    (first : IsFirstMark search.markers.decorators decorators arguments)
    (nameless : ∀ found, Names search.markers.fields arguments found → found = [])
    (documented : search.IsDocumentedBy start decorators doc) :
    ClassHolds (if Text.cleanDocComment doc.text = [] then []
      else [search.messageOf (Text.cleanDocComment doc.text) doc.startLine [] true])
  | silent {arguments : List Node}
    (first : IsFirstMark search.markers.decorators decorators arguments)
    (nameless : ∀ found, Names search.markers.fields arguments found → found = [])
    (undocumented : ∀ doc, ¬ search.IsDocumentedBy start decorators doc) : ClassHolds []

variable {search start decorators}

private theorem ofClass_of_unmarked (plain : ∀ decorator ∈ decorators, ∀ arguments,
    ¬ Marks search.markers.decorators decorator arguments) : search.ofClass start decorators = [] := by
  have none : decorators.findSome? (markerArguments? search.markers.decorators) = none :=
    List.findSome?_eq_none_iff.mpr fun decorator member =>
      markerArguments?_eq_none_iff.mpr (plain decorator member)
  rw [ofClass, none]

private theorem scan_of_places (places : List (String × Nat)) :
    Scan.ofFindings (places.flatMap fun (text, position) =>
      search.message (Text.dedent text.toList) (search.lineAt position) [search.lineAt position] false) =
      ⟨search.fieldMessages places, []⟩ := by
  induction places with
  | nil => rfl
  | cons place places ih =>
    rw [List.flatMap_cons, Scan.ofFindings_append, ih, scan_message, List.nil_append]
    by_cases blank : Text.dedent place.1.toList = []
    · simp [fieldMessages, blank]
    · simp [fieldMessages, blank]

private theorem scan_of_fields {arguments : List Node} {found : List (String × Nat)}
    (first : IsFirstMark search.markers.decorators decorators arguments)
    (fields : Names search.markers.fields arguments found) (some : found ≠ []) :
    Scan.ofFindings (search.ofClass start decorators) = ⟨search.fieldMessages found, []⟩ := by
  rw [ofClass, findSome?_markerArguments?_eq_some_iff.mpr first]
  simp only [(fieldLiterals_eq_iff some).mpr fields]
  exact scan_of_places found

private theorem ofClass_of_nameless {arguments : List Node}
    (first : IsFirstMark search.markers.decorators decorators arguments)
    (nameless : ∀ found, Names search.markers.fields arguments found → found = []) :
    search.ofClass start decorators = search.documentation start decorators := by
  rw [ofClass, findSome?_markerArguments?_eq_some_iff.mpr first]
  simp only [fieldLiterals_eq_nil_iff.mpr nameless]

private theorem scan_of_classHolds {messages : List Message}
    (holds : search.ClassHolds start decorators messages) :
    Scan.ofFindings (search.ofClass start decorators) = ⟨messages, []⟩ := by
  cases holds with
  | unmarked plain => rw [ofClass_of_unmarked plain]; rfl
  | named first fields some => exact scan_of_fields first fields some
  | documented first nameless documented =>
    rw [ofClass_of_nameless first nameless, documentation_of_isDocumentedBy documented, scan_message]
  | silent first nameless undocumented =>
    rw [ofClass_of_nameless first nameless, documentation_of_not_isDocumentedBy undocumented]
    rfl

private theorem exists_classHolds : ∃ messages, search.ClassHolds start decorators messages := by
  cases found : decorators.findSome? (markerArguments? search.markers.decorators) with
  | none =>
    exact ⟨_, .unmarked fun decorator member =>
      markerArguments?_eq_none_iff.mp (List.findSome?_eq_none_iff.mp found decorator member)⟩
  | some arguments =>
    have first := findSome?_markerArguments?_eq_some_iff.mp found
    by_cases nameless : ∀ found, Names search.markers.fields arguments found → found = []
    · by_cases documented : ∃ doc, search.IsDocumentedBy start decorators doc
      · exact ⟨_, .documented first nameless documented.choose_spec⟩
      · exact ⟨_, .silent first nameless (not_exists.mp documented)⟩
    · obtain ⟨found, named⟩ := not_forall.mp nameless
      obtain ⟨fields, some⟩ := Classical.not_imp.mp named
      exact ⟨_, .named first fields some⟩

private theorem isDocumentation_of_classHolds {messages : List Message}
    (holds : search.ClassHolds start decorators messages) :
    (∀ message ∈ messages, message.isDocumentation = false) ∨
      messages.length ≤ 1 ∧ ∀ message ∈ messages, message.isDocumentation = true := by
  cases holds with
  | unmarked plain => simp
  | named first fields some =>
    refine Or.inl fun message member => ?_
    obtain ⟨place, -, rfl⟩ := List.mem_map.mp member
    rfl
  | documented first nameless documented =>
    split
    · simp
    · simp [messageOf]
  | silent first nameless undocumented => simp

/-- What a class holds by itself is told by its first marker and its documentation: it holds just that, no
issue, and never fields and documentation at once. -/
theorem scan_of_class (search : Search) (start : Nat) (decorators members rest : List Node) :
    let scan := Scan.ofFindings (search.own (.classLike start decorators members rest))
    (∀ messages, scan.messages = messages ↔ search.ClassHolds start decorators messages) ∧
      scan.issues = [] ∧
      ((∀ message ∈ scan.messages, message.isDocumentation = false) ∨
        scan.messages.length ≤ 1 ∧ ∀ message ∈ scan.messages, message.isDocumentation = true) := by
  intro scan
  obtain ⟨messages, holds⟩ : ∃ messages, search.ClassHolds start decorators messages :=
    exists_classHolds
  have whole : scan = ⟨messages, []⟩ :=
    (congrArg Scan.ofFindings (search.own_classLike ..)).trans (scan_of_classHolds holds)
  rw [whole]
  refine ⟨fun other => ⟨?_, fun held => ?_⟩, rfl, isDocumentation_of_classHolds holds⟩
  · rintro rfl
    exact holds
  · exact congrArg Scan.messages ((scan_of_classHolds holds).symm.trans (scan_of_classHolds held))

end Search

end Phrasebook.Script
