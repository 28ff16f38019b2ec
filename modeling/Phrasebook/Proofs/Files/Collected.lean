import Mathlib.Data.List.Sort
import Phrasebook.Proofs.Files.Selection

/-!
Which files are selected: the inputs that are files, and the script files that are found below the others
over directories alone, unless they are left out. As a set of paths this is the union over the inputs.
-/

set_option autoImplicit false

namespace Phrasebook

namespace FileTree

/-- Names that lead from a directory down to a file, over directories and no links. -/
inductive LeadsDown (tree : FileTree) : Names → Names → Prop
  | file {outer : Names} {name : String} {content : Content} :
    (outer ++ [name], .file content) ∈ tree.items → LeadsDown tree outer [name]
  | directory {outer chain : Names} {name : String} :
    (outer ++ [name], .directory) ∈ tree.items → LeadsDown tree (outer ++ [name]) chain →
      LeadsDown tree outer (name :: chain)

def deeperThan (tree : FileTree) (depth : Nat) : List (Names × Item) :=
  tree.items.filter fun entry => decide (depth < entry.1.length)

variable {tree : FileTree} {outer chain : Names}

theorem length_deeperThan_lt {names : Names} {item : Item} (there : (names, item) ∈ tree.items)
    {depth : Nat} (here : names.length = depth + 1) :
    (tree.deeperThan (depth + 1)).length < (tree.deeperThan depth).length := by
  have fewer : tree.deeperThan (depth + 1) =
      (tree.deeperThan depth).filter fun entry => decide (depth + 1 < entry.1.length) := by
    rw [deeperThan, deeperThan, List.filter_filter]
    refine List.filter_congr fun entry _ => ?_
    rw [← Bool.decide_and, decide_eq_decide]
    omega
  have member : (names, item) ∈ tree.deeperThan depth :=
    List.mem_filter.mpr ⟨there, by simp [here]⟩
  rw [fewer, List.length_filter_lt_length_iff_exists]
  exact ⟨_, member, by simp [here]⟩

theorem LeadsDown.ne_nil (leads : tree.LeadsDown outer chain) : chain ≠ [] := by
  cases leads <;> simp

/-- A way down has no more names than the tree has items: each name is that of one item more. -/
theorem LeadsDown.length_le (leads : tree.LeadsDown outer chain) :
    chain.length ≤ tree.items.length := by
  suffices below : chain.length ≤ (tree.deeperThan outer.length).length from
    below.trans (List.length_filter_le _ _)
  induction leads with
  | @file outer name content there =>
    have fewer := length_deeperThan_lt there (by simp : (outer ++ [name]).length = outer.length + 1)
    rw [List.length_singleton]
    omega
  | @directory outer chain name there _ ih =>
    have fewer := length_deeperThan_lt there (by simp : (outer ++ [name]).length = outer.length + 1)
    rw [List.length_append, List.length_singleton] at ih
    rw [List.length_cons]
    omega

end FileTree

namespace Selection

variable {tree : FileTree} {recursive : Bool}

theorem mem_filesUnder {deeper : String → Names → List String} {path other : String} {names : Names} :
    other ∈ filesUnder tree deeper path names ↔
      (∃ name content, (names ++ [name], .file content) ∈ tree.items ∧ other = Path.join path name) ∨
      ∃ name, (names ++ [name], .directory) ∈ tree.items ∧
        other ∈ deeper (Path.join path name) (names ++ [name]) := by
  rw [filesUnder, List.mem_flatMap]
  constructor
  · rintro ⟨⟨name, item⟩, there, found⟩
    have inside := FileTree.mem_childrenOf.mp there
    cases item with
    | file content => exact Or.inl ⟨name, content, inside, List.mem_singleton.mp found⟩
    | directory => exact Or.inr ⟨name, inside, found⟩
    | link target => cases found
  · rintro (⟨name, content, inside, rfl⟩ | ⟨name, inside, found⟩)
    · exact ⟨(name, .file content), FileTree.mem_childrenOf.mpr inside, List.mem_singleton.mpr rfl⟩
    · exact ⟨(name, .directory), FileTree.mem_childrenOf.mpr inside, found⟩

/-- The search of a directory finds what ways down lead to, as far as it goes. -/
theorem mem_filesIn_iff {depth : Nat} {path other : String} {names : Names} :
    other ∈ filesIn tree depth path names ↔
      ∃ chain, tree.LeadsDown names chain ∧ chain.length ≤ depth + 1 ∧
        other = chain.foldl Path.join path := by
  induction depth generalizing path names with
  | zero =>
    rw [mem_filesIn_zero]
    constructor
    · rintro ⟨name, content, there, rfl⟩
      exact ⟨[name], .file there, le_rfl, rfl⟩
    · rintro ⟨chain, leads, short, rfl⟩
      cases leads with
      | @file _ name content there => exact ⟨name, content, there, rfl⟩
      | directory _ rest =>
        have more := List.length_pos_of_ne_nil rest.ne_nil
        rw [List.length_cons] at short
        omega
  | succ depth ih =>
    rw [filesIn_succ, mem_filesUnder]
    constructor
    · rintro (⟨name, content, there, rfl⟩ | ⟨name, there, found⟩)
      · exact ⟨[name], .file there, by simp, rfl⟩
      · obtain ⟨chain, leads, short, rfl⟩ := ih.mp found
        exact ⟨name :: chain, .directory there leads, Nat.succ_le_succ short, rfl⟩
    · rintro ⟨chain, leads, short, rfl⟩
      cases leads with
      | @file _ name content there => exact Or.inl ⟨name, content, there, rfl⟩
      | @directory _ chain name there rest =>
        exact Or.inr ⟨name, there, ih.mpr ⟨chain, rest, Nat.le_of_succ_le_succ short, rfl⟩⟩

/-- A path that an input stands for: the input itself if it is a file, or that of a script file below the
directory that it is, which stands right in it unless the search goes deeper. -/
inductive StandsFor (tree : FileTree) (recursive : Bool) (input : String) : String → Prop
  | file : tree.isFile input = true → StandsFor tree recursive input input
  | script {names chain : Names} : tree.resolve input = .ok (names, .directory) →
    tree.LeadsDown names chain → (recursive = false → chain.length = 1) →
      isScript (chain.foldl Path.join input) = true →
        StandsFor tree recursive input (chain.foldl Path.join input)

theorem length_le_depthOf {names chain : Names} (leads : tree.LeadsDown names chain) :
    chain.length ≤ depthOf tree recursive + 1 ↔ (recursive = false → chain.length = 1) := by
  have some_ := List.length_pos_of_ne_nil leads.ne_nil
  have bound := leads.length_le
  cases recursive with
  | true => simpa [depthOf] using Nat.le_succ_of_le bound
  | false =>
    simp only [depthOf, Bool.false_eq_true, if_false, forall_const]
    omega

theorem mem_reached_iff {input path : String} :
    path ∈ reached tree recursive input ↔ StandsFor tree recursive input path := by
  unfold reached pathsOf
  constructor
  · intro member
    split at member
    · rename_i names content there
      obtain rfl := List.mem_singleton.mp member
      exact .file (by rw [FileTree.isFile, there])
    · rename_i names there
      obtain ⟨found, script⟩ := List.mem_filter.mp member
      obtain ⟨chain, leads, short, rfl⟩ := mem_filesIn_iff.mp found
      exact .script there leads ((length_le_depthOf leads).mp short) script
    · cases member
  · rintro (file | ⟨there, leads, short, script⟩)
    · unfold FileTree.isFile at file
      split at file
      · rename_i names content there
        rw [there]
        exact List.mem_singleton.mpr rfl
      · cases file
    · rw [there]
      refine List.mem_filter.mpr ⟨mem_filesIn_iff.mpr ?_, script⟩
      exact ⟨_, leads, (length_le_depthOf leads).mpr short, rfl⟩

theorem pathsOf_eq_none_iff {input : String} :
    pathsOf tree recursive input = none ↔
      tree.isFile input = false ∧ tree.isDirectory input = false := by
  unfold pathsOf FileTree.isFile FileTree.isDirectory
  rcases tree.resolve input with fault | ⟨names, content | _ | target⟩ <;> simp

theorem StandsFor.deeper {input path : String} (stands : StandsFor tree false input path) :
    StandsFor tree true input path := by
  cases stands with
  | file file => exact .file file
  | script there leads _ script => exact .script there leads (by simp) script

structure IsSelected (tree : FileTree) (inputs excludes : List String) (recursive : Bool)
    (path : String) : Prop where
  reached : ∃ input ∈ inputs, StandsFor tree recursive input path
  kept : ∀ text ∈ excludes, ¬Exclusion.LeavesOut text path

variable {inputs excludes : List String}

theorem isSelected_of_mem_files {path : String}
    (member : path ∈ (collect tree inputs excludes recursive).files) :
    IsSelected tree inputs excludes recursive path := by
  obtain ⟨⟨input, given, there⟩, kept⟩ := of_mem_files member
  exact ⟨⟨input, given, mem_reached_iff.mp there⟩, kept⟩

def placesOf (tree : FileTree) (inputs excludes : List String) (recursive : Bool) :
    List (List Path.Part) :=
  (collect tree inputs excludes recursive).files.map Path.parts

theorem mem_placesOf {place : List Path.Part} :
    place ∈ placesOf tree inputs excludes recursive ↔
      ∃ path, IsSelected tree inputs excludes recursive path ∧ Path.parts path = place := by
  rw [placesOf, List.mem_map]
  constructor
  · rintro ⟨path, member, rfl⟩
    exact ⟨path, isSelected_of_mem_files member, rfl⟩
  · rintro ⟨path, selected, rfl⟩
    obtain ⟨input, given, stands⟩ := selected.reached
    obtain ⟨other, member, same⟩ := exists_mem_files given (mem_reached_iff.mpr stands) selected.kept
    exact ⟨other, member, same.symm⟩

theorem pairwise_rank_files :
    ((collect tree inputs excludes recursive).files.map Path.rank).Pairwise (· < ·) := by
  rw [files_collect]
  exact Path.pairwise_foldl_insert .nil

theorem placesOf_congr {others : List String}
    (same : ∀ path, IsSelected tree others excludes recursive path ↔
      IsSelected tree inputs excludes recursive path) :
    placesOf tree others excludes recursive = placesOf tree inputs excludes recursive := by
  have ranks : ∀ inputs, (placesOf tree inputs excludes recursive).map (List.map Path.Part.key) =
      (collect tree inputs excludes recursive).files.map Path.rank := by
    intro inputs
    rw [placesOf, List.map_map]
    rfl
  refine List.map_injective_iff.mpr (List.map_injective_iff.mpr Path.Part.key_injective) ?_
  refine List.Pairwise.eq_of_mem_iff (ranks others ▸ pairwise_rank_files)
    (ranks inputs ▸ pairwise_rank_files) fun rank => ?_
  simp only [List.mem_map, mem_placesOf, same]

theorem missing_collect (tree : FileTree) (inputs excludes : List String) (recursive : Bool) :
    (collect tree inputs excludes recursive).missing =
      inputs.filter fun input => !tree.isFile input && !tree.isDirectory input := by
  have run : ∀ (exclusion : Exclusion) (start : Selection),
      (inputs.foldl (addInput tree exclusion recursive) start).missing =
        start.missing ++ inputs.filter fun input => !tree.isFile input && !tree.isDirectory input := by
    intro exclusion
    induction inputs with
    | nil => simp
    | cons input inputs ih =>
      intro start
      rw [List.foldl_cons, ih, List.filter_cons, addInput]
      cases paths : pathsOf tree recursive input with
      | none =>
        obtain ⟨noFile, noDirectory⟩ := pathsOf_eq_none_iff.mp paths
        simp [noFile, noDirectory]
      | some found =>
        have there : ¬(tree.isFile input = false ∧ tree.isDirectory input = false) := by
          rw [← @pathsOf_eq_none_iff tree recursive input, paths]
          simp
        rw [if_neg (by simpa using there)]
  exact run _ _

/-- The files that are selected are, whatever their spelling, the paths that inputs stand for and that are
not left out, each one once. They are those of all inputs together, so the order of the inputs does not
matter, nor whether one is given twice or stands for what another one stands for as well. There are no
more of them if more is left out, and none is lost by searching deeper. The inputs that are neither files
nor directories are missing. -/
theorem collect_selects (tree : FileTree) (inputs excludes : List String) (recursive : Bool) :
    let selection := collect tree inputs excludes recursive
    let places := placesOf tree inputs excludes recursive
    (∀ path ∈ selection.files, IsSelected tree inputs excludes recursive path) ∧
    (∀ path, IsSelected tree inputs excludes recursive path →
      ∃ other ∈ selection.files, Path.same path other = true) ∧
    (selection.files.map Path.rank).Pairwise (· < ·) ∧
    (∀ place, place ∈ places ↔ ∃ input ∈ inputs, place ∈ placesOf tree [input] excludes recursive) ∧
    (∀ others, (∀ input, input ∈ others ↔ input ∈ inputs) →
      placesOf tree others excludes recursive = places) ∧
    (∀ more, excludes ⊆ more → placesOf tree inputs more recursive ⊆ places) ∧
    placesOf tree inputs excludes false ⊆ placesOf tree inputs excludes true ∧
    selection.missing = inputs.filter fun input => !tree.isFile input && !tree.isDirectory input := by
  intro selection places
  refine ⟨fun path => isSelected_of_mem_files, fun path selected => ?_, pairwise_rank_files,
    fun place => ?_, fun others same => ?_, fun more fewer place => ?_, fun place => ?_,
    missing_collect tree inputs excludes recursive⟩
  · obtain ⟨input, given, stands⟩ := selected.reached
    obtain ⟨other, member, same⟩ := exists_mem_files given (mem_reached_iff.mpr stands) selected.kept
    exact ⟨other, member, Path.same_iff.mpr same⟩
  · simp only [places, mem_placesOf]
    constructor
    · rintro ⟨path, ⟨⟨input, given, stands⟩, kept⟩, rfl⟩
      exact ⟨input, given, path, ⟨⟨input, by simp, stands⟩, kept⟩, rfl⟩
    · rintro ⟨input, given, path, ⟨⟨only, alone, stands⟩, kept⟩, rfl⟩
      obtain rfl := List.mem_singleton.mp alone
      exact ⟨path, ⟨⟨only, given, stands⟩, kept⟩, rfl⟩
  · refine placesOf_congr fun path => ⟨fun selected => ?_, fun selected => ?_⟩
    · obtain ⟨input, given, stands⟩ := selected.reached
      exact ⟨⟨input, (same input).mp given, stands⟩, selected.kept⟩
    · obtain ⟨input, given, stands⟩ := selected.reached
      exact ⟨⟨input, (same input).mpr given, stands⟩, selected.kept⟩
  · rw [mem_placesOf, mem_placesOf]
    rintro ⟨path, selected, rfl⟩
    exact ⟨path, ⟨selected.reached, fun text member => selected.kept text (fewer member)⟩, rfl⟩
  · rw [mem_placesOf, mem_placesOf]
    rintro ⟨path, ⟨⟨input, given, stands⟩, kept⟩, rfl⟩
    exact ⟨path, ⟨⟨input, given, stands.deeper⟩, kept⟩, rfl⟩

private def nestedScripts : FileTree where
  items := [(["d"], .directory), (["d", "x.ts"], .file (.text "")), (["d", "e"], .directory),
    (["d", "e", "y.ts"], .file (.text "")), (["d", "z.ts"], .link "e/y.ts")]

theorem collect_selects_of_nested :
    let inputs := ["/d", "/d/e"]
    let excludes := ["/d/x.ts"]
    IsSelected nestedScripts inputs excludes true "/d/e/y.ts" ∧
    (∃ other ∈ (collect nestedScripts inputs excludes true).files,
      Path.same "/d/e/y.ts" other = true) ∧
    placesOf nestedScripts ["/d/e", "/d", "/d"] excludes true =
      placesOf nestedScripts inputs excludes true ∧
    placesOf nestedScripts inputs ["/d/x.ts", "**/y.*"] true ⊆
      placesOf nestedScripts inputs excludes true := by
  intro inputs excludes
  have resolved : nestedScripts.resolve "/d" = .ok (["d"], .directory) :=
    FileTree.resolve_of_descend (by decide) (by decide)
  have file : (["d"] ++ ["e"] ++ ["y.ts"], .file (.text "")) ∈ nestedScripts.items := by decide
  have leads : nestedScripts.LeadsDown ["d"] ["e", "y.ts"] := .directory (by decide) (.file file)
  have selected : IsSelected nestedScripts inputs excludes true "/d/e/y.ts" :=
    ⟨⟨"/d", by decide, .script resolved leads (by decide) (by decide)⟩, by decide⟩
  obtain ⟨-, kept, -, -, order, more, -⟩ := collect_selects nestedScripts inputs excludes true
  refine ⟨selected, kept _ selected, order _ fun input => ?_, more _ (by decide)⟩
  simp only [inputs, List.mem_cons, List.not_mem_nil, or_false]
  tauto

end Selection

end Phrasebook
