import Phrasebook.Script.Messages
import Mathlib.Data.List.Basic

/-!
A search as a walk over a syntax tree. Every node has an address, and the search comes to every address
once, in lexicographic order. What it finds is what the calls of an entry point and the marked classes
hold by themselves, one after the other.
-/

set_option autoImplicit false

namespace Phrasebook.Script

/-- A way down from the root of a tree: each number says with which part to go on. -/
abbrev Address := List Nat

namespace Node

def parts : Node → List Node
  | .name _ => []
  | .text _ _ => []
  | .template _ _ holes => holes
  | .paren inner => [inner]
  | .spread inner => [inner]
  | .member receiver _ => [receiver]
  | .call _ callee arguments => callee :: arguments
  | .object properties => properties
  | .pair _ key value => key ++ [value]
  | .shorthand _ => []
  | .decorator _ expression => [expression]
  | .classLike _ decorators members rest => decorators ++ members ++ rest
  | .method decorators key parameters body => key ++ parameters ++ decorators ++ body
  | .field decorators key value => key ++ value ++ decorators
  | .doWhile body test => [test, body]
  | .group _ inner => inner

def at? : Node → Address → Option Node
  | node, [] => some node
  | node, index :: rest => node.parts[index]?.bind (at? · rest)

theorem sizeOf_lt_of_mem_parts {node part : Node} (h : part ∈ node.parts) :
    sizeOf part < sizeOf node := by
  have inside : ∀ {nodes : List Node}, part ∈ nodes → sizeOf part < sizeOf nodes :=
    List.sizeOf_lt_of_mem
  cases node <;>
    simp only [parts, List.mem_append, List.mem_cons, List.not_mem_nil, or_false] at h
  case template value start holes => have := inside h; simp only [template.sizeOf_spec]; omega
  case paren inner => subst h; simp only [paren.sizeOf_spec]; omega
  case spread inner => subst h; simp only [spread.sizeOf_spec]; omega
  case member receiver field => subst h; simp only [member.sizeOf_spec]; omega
  case call span callee arguments =>
    rcases h with rfl | h
    · simp only [call.sizeOf_spec]; omega
    · have := inside h; simp only [call.sizeOf_spec]; omega
  case object properties => have := inside h; simp only [object.sizeOf_spec]; omega
  case pair name key value =>
    rcases h with h | rfl
    · have := inside h; simp only [pair.sizeOf_spec]; omega
    · simp only [pair.sizeOf_spec]; omega
  case decorator start expression => subst h; simp only [decorator.sizeOf_spec]; omega
  case classLike start decorators members rest =>
    rcases h with (h | h) | h <;> have := inside h <;> simp only [classLike.sizeOf_spec] <;> omega
  case method decorators key parameters body =>
    rcases h with ((h | h) | h) | h <;> have := inside h <;> simp only [method.sizeOf_spec] <;> omega
  case field decorators key value =>
    rcases h with (h | h) | h <;> have := inside h <;> simp only [field.sizeOf_spec] <;> omega
  case doWhile body test => rcases h with rfl | rfl <;> simp only [doWhile.sizeOf_spec] <;> omega
  case group form inner => have := inside h; simp only [group.sizeOf_spec]; omega

/-- What holds of a node if it holds of its parts holds of every tree. -/
theorem induction_parts {motive : Node → Prop}
    (step : ∀ node, (∀ part ∈ node.parts, motive part) → motive node) (node : Node) :
    motive node :=
  step node fun part _ => induction_parts step part
termination_by sizeOf node
decreasing_by exact sizeOf_lt_of_mem_parts ‹_›

def addresses (node : Node) : List Address :=
  [] :: node.parts.attach.zipIdx.flatMap fun (part, index) => (addresses part.1).map (index :: ·)
termination_by sizeOf node
decreasing_by exact sizeOf_lt_of_mem_parts part.2

theorem addresses_eq (node : Node) :
    node.addresses =
      [] :: node.parts.zipIdx.flatMap fun entry => entry.1.addresses.map (entry.2 :: ·) := by
  have plain : node.parts.zipIdx =
      node.parts.attach.zipIdx.map fun entry => (entry.1.1, entry.2) := by
    conv_lhs => rw [← List.attach_map_subtype_val node.parts, List.zipIdx_map]
    rfl
  rw [addresses, plain, List.flatMap_map]

theorem mem_addresses {node : Node} {address : Address} :
    address ∈ node.addresses ↔ ∃ found, node.at? address = some found := by
  induction node using induction_parts generalizing address with
  | step node ih =>
    rw [addresses_eq]
    cases address with
    | nil => simp [at?]
    | cons index rest =>
      simp only [List.mem_cons, reduceCtorEq, false_or, List.mem_flatMap, List.mem_map,
        List.cons.injEq, Prod.exists, List.mem_zipIdx_iff_getElem?, at?]
      constructor
      · rintro ⟨part, _, there, other, inside, rfl, rfl⟩
        rw [there]
        exact (ih part (List.mem_of_getElem? there)).mp inside
      · rintro ⟨found, there⟩
        obtain ⟨part, first, there⟩ := Option.bind_eq_some_iff.mp there
        exact ⟨part, index, first, rest,
          (ih part (List.mem_of_getElem? first)).mpr ⟨found, there⟩, rfl, rfl⟩

private theorem pairwise_zipIdx (nodes : List Node) :
    nodes.zipIdx.Pairwise fun first second => first.2 < second.2 := by
  have increasing := List.pairwise_lt_range' (s := 0) (n := nodes.length) 1
  rw [← List.zipIdx_map_snd, List.pairwise_map] at increasing
  exact increasing

/-- Every node is visited before its parts, and a part with all that is in it before the next one. -/
theorem pairwise_addresses (node : Node) : node.addresses.Pairwise (· < ·) := by
  induction node using induction_parts with
  | step node ih =>
    rw [addresses_eq, List.pairwise_cons, List.pairwise_flatMap]
    refine ⟨fun address h => ?_, fun entry h => ?_, ?_⟩
    · obtain ⟨_, _, h⟩ := List.mem_flatMap.mp h
      obtain ⟨_, _, rfl⟩ := List.mem_map.mp h
      exact List.nil_lt_cons _ _
    · have part : entry.1 ∈ node.parts :=
        List.mem_of_getElem? (List.mem_zipIdx_iff_getElem?.mp h)
      exact (ih entry.1 part).map _ fun _ _ less => List.cons_lt_cons_iff.mpr (Or.inr ⟨rfl, less⟩)
    · refine (pairwise_zipIdx node.parts).imp fun less address h other h' => ?_
      obtain ⟨_, _, rfl⟩ := List.mem_map.mp h
      obtain ⟨_, _, rfl⟩ := List.mem_map.mp h'
      exact List.cons_lt_cons_iff.mpr (Or.inl less)

end Node

namespace Search

variable (search : Search)

/-- Whether a node may hold something by itself: a call of an entry point, or a class with a decorator
that marks it. -/
def isSite : Node → Bool
  | .call _ callee _ => isNamed search.markers.entryPoints callee
  | .classLike _ decorators _ _ =>
    decorators.any fun decorator => (markerArguments? search.markers.decorators decorator).isSome
  | _ => false

/-- What a site holds by itself, whatever is found in it and around it. -/
def ofSite : Node → List Finding
  | .call span _ arguments => search.ofCall span arguments
  | .classLike start decorators _ _ => search.ofClass start decorators
  | _ => []

def own (node : Node) : List Finding := if search.isSite node then search.ofSite node else []

def sites (tree : Node) : List Address :=
  tree.addresses.filter fun address => (tree.at? address).any search.isSite

def held (tree : Node) (address : Address) : List Finding :=
  ((tree.at? address).map search.ofSite).getD []

theorem findingsOf_eq (nodes : List Node) :
    search.findingsOf nodes = nodes.flatMap search.findings := by
  induction nodes with
  | nil => rfl
  | cons node rest ih => rw [findingsOf, ih, List.flatMap_cons]

theorem own_classLike (start : Nat) (decorators members rest : List Node) :
    search.own (.classLike start decorators members rest) = search.ofClass start decorators := by
  simp only [own, ofSite]
  by_cases marked : search.isSite (.classLike start decorators members rest) = true
  · rw [if_pos marked]
  · have unmarked : decorators.findSome? (markerArguments? search.markers.decorators) = none := by
      simpa [isSite] using marked
    rw [if_neg marked, ofClass, unmarked]

theorem findings_eq (node : Node) :
    search.findings node = search.own node ++ node.parts.flatMap search.findings := by
  cases node with
  | name text => rfl
  | text value start => rfl
  | template value start holes =>
    rw [findings, findingsOf_eq]
    rfl
  | paren inner => simp [findings, own, isSite, Node.parts]
  | spread inner => simp [findings, own, isSite, Node.parts]
  | member receiver field => simp [findings, own, isSite, Node.parts]
  | call span callee arguments =>
    rw [findings, findingsOf_eq, List.append_assoc, ← List.flatMap_cons]
    rfl
  | object properties =>
    rw [findings, findingsOf_eq]
    rfl
  | pair name key value => simp [findings, findingsOf_eq, own, isSite, Node.parts]
  | shorthand name => rfl
  | decorator start expression => simp [findings, own, isSite, Node.parts]
  | classLike start decorators members rest =>
    simp only [own_classLike, findings, findingsOf_eq, Node.parts, List.flatMap_append,
      List.append_assoc]
  | method decorators key parameters body =>
    simp only [findings, findingsOf_eq, Node.parts, List.flatMap_append, List.append_assoc]
    rfl
  | field decorators key value =>
    simp only [findings, findingsOf_eq, Node.parts, List.flatMap_append, List.append_assoc]
    rfl
  | doWhile body test => simp [findings, own, isSite, Node.parts]
  | group form inner =>
    rw [findings, findingsOf_eq]
    rfl

theorem findings_eq_flatMap (tree : Node) :
    search.findings tree =
      tree.addresses.flatMap fun address => ((tree.at? address).map search.own).getD [] := by
  induction tree using Node.induction_parts with
  | step node ih =>
    have parts : node.parts.flatMap search.findings =
        node.parts.zipIdx.flatMap fun entry => search.findings entry.1 := by
      conv_lhs => rw [← List.zipIdx_map_fst 0 node.parts, List.flatMap_map]
    rw [findings_eq, parts, Node.addresses_eq, List.flatMap_cons, List.flatMap_assoc]
    refine congrArg (search.own node ++ ·) (List.flatMap_congr fun entry h => ?_)
    have there : node.parts[entry.2]? = some entry.1 := List.mem_zipIdx_iff_getElem?.mp h
    rw [ih entry.1 (List.mem_of_getElem? there), List.flatMap_map]
    simp only [Node.at?, there, Option.bind_some]

theorem mem_sites {tree : Node} {address : Address} :
    address ∈ search.sites tree ↔
      ∃ node, tree.at? address = some node ∧ search.isSite node = true := by
  rw [sites, List.mem_filter, Node.mem_addresses, Option.any_eq_true]
  constructor
  · rintro ⟨_, found⟩
    exact found
  · rintro ⟨node, there, site⟩
    exact ⟨⟨node, there⟩, node, there, site⟩

private theorem flatMap_filter {α β : Type} (keeps : α → Bool) (f : α → List β) (all : List α) :
    (all.filter keeps).flatMap f = all.flatMap fun one => if keeps one then f one else [] := by
  induction all with
  | nil => rfl
  | cons one rest ih => cases kept : keeps one <;> simp [kept, ih]

/-- What a tree holds is what its sites hold by themselves. -/
theorem findings_eq_sites (tree : Node) :
    search.findings tree = (search.sites tree).flatMap (search.held tree) := by
  rw [findings_eq_flatMap, sites, flatMap_filter]
  refine List.flatMap_congr fun address _ => ?_
  unfold held own
  cases tree.at? address with
  | none => rfl
  | some node => cases site : search.isSite node <;> simp [site]

private theorem ofCall_cases (span : Span) (arguments : List Node) :
    (∃ issue, search.ofCall span arguments = [.issue issue]) ∨
      search.ofCall span arguments = [] ∨
        ∃ message, search.ofCall span arguments = [.message message] := by
  unfold ofCall
  split
  · unfold message
    split
    · exact Or.inr (Or.inl rfl)
    · exact Or.inr (Or.inr ⟨_, rfl⟩)
  · exact Or.inl ⟨_, rfl⟩

/-- The messages and issues of a tree are those of its sites, one after the other in the order of the
visits, where each site counts once with what it holds by itself. A call holds one issue or at most one
message. -/
theorem scan_of_sites (tree : Node) :
    let scan := Scan.ofFindings (search.findings tree)
    let own := fun address => Scan.ofFindings (search.held tree address)
    (search.sites tree).Pairwise (· < ·) ∧
      (∀ address, address ∈ search.sites tree ↔
        ∃ node, tree.at? address = some node ∧ search.isSite node = true) ∧
      scan.messages = (search.sites tree).flatMap (fun address => (own address).messages) ∧
      scan.issues = (search.sites tree).flatMap (fun address => (own address).issues) ∧
      ∀ span callee arguments,
        let call := Scan.ofFindings (search.ofSite (.call span callee arguments))
        call.messages = [] ∧ call.issues.length = 1 ∨ call.messages.length ≤ 1 ∧ call.issues = [] := by
  intro scan own
  refine ⟨(Node.pairwise_addresses tree).filter _, fun _ => search.mem_sites, ?_, ?_, ?_⟩
  · simp only [scan, own, Scan.ofFindings, findings_eq_sites, List.filterMap_flatMap]
  · simp only [scan, own, Scan.ofFindings, findings_eq_sites, List.filterMap_flatMap]
  · intro span callee arguments
    rcases search.ofCall_cases span arguments with ⟨issue, h⟩ | h | ⟨message, h⟩ <;>
      simp [ofSite, h, Scan.ofFindings]

end Search

end Phrasebook.Script
