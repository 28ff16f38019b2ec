import Phrasebook.Files.Selection
import Phrasebook.Proofs.Files.Order
import Phrasebook.Proofs.Files.Place

/-!
The selection of script files: the paths that are reached from inputs and not left out, each once.
-/

set_option autoImplicit false

namespace Phrasebook

namespace Exclusion

/-- An exclusion leaves a path out: a pattern matches it, or a place is where it begins. -/
def LeavesOut (text path : String) : Prop :=
  if Glob.isPattern text then
    ∃ tokens, Glob.parse text = .ok tokens ∧ Glob.isMatch tokens path = true
  else Path.parts text <+: Path.parts path

instance (text path : String) : Decidable (LeavesOut text path) :=
  if wild : Glob.isPattern text = true then
    match parsed : Glob.parse text with
    | .ok tokens =>
      decidable_of_iff (Glob.isMatch tokens path = true) (by simp [LeavesOut, wild, parsed])
    | .error error => isFalse (by simp [LeavesOut, wild, parsed])
  else decidable_of_iff (Path.parts text <+: Path.parts path) (by simp [LeavesOut, wild])

theorem excludes_add (exclusion : Exclusion) (text path : String) :
    (exclusion.add text).1.excludes path = true ↔
      exclusion.excludes path = true ∨ LeavesOut text path := by
  unfold add LeavesOut
  by_cases wild : Glob.isPattern text = true
  · rw [if_pos wild, if_pos wild]
    cases Glob.parse text with
    | error error => simp
    | ok tokens => simp [excludes, or_assoc]
  · rw [if_neg wild, if_neg wild]
    simp only [excludes, List.any_append, List.any_cons, List.any_nil, Bool.or_false, Path.startsWith,
      Bool.or_eq_true, List.isPrefixOf_iff_prefix]
    tauto

theorem excludes_ofTexts {texts : List String} {path : String} :
    (ofTexts texts).1.excludes path = true ↔ ∃ text ∈ texts, LeavesOut text path := by
  -- Each exclusion adds to what is left out already, so the start has to be any.
  have run : ∀ start : Exclusion × List Log.Event,
      (texts.foldl (fun found text =>
        ((found.1.add text).1, found.2 ++ (found.1.add text).2)) start).1.excludes path = true ↔
        start.1.excludes path = true ∨ ∃ text ∈ texts, LeavesOut text path := by
    induction texts with
    | nil => simp
    | cons text texts ih =>
      intro start
      rw [List.foldl_cons, ih]
      simp [excludes_add, or_assoc]
  refine (run ({}, [])).trans ?_
  simp [excludes]

end Exclusion

namespace Selection

def reached (tree : FileTree) (recursive : Bool) (input : String) : List String :=
  (pathsOf tree recursive input).getD []

theorem files_addInput (tree : FileTree) (exclusion : Exclusion) (recursive : Bool)
    (selection : Selection) (input : String) :
    (addInput tree exclusion recursive selection input).files =
      ((reached tree recursive input).filter (!exclusion.excludes ·)).foldl
        (fun files path => Path.insert path files) selection.files := by
  unfold addInput reached
  cases pathsOf tree recursive input <;> rfl

theorem files_collect (tree : FileTree) (inputs excludes : List String) (recursive : Bool) :
    (collect tree inputs excludes recursive).files =
      ((inputs.flatMap (reached tree recursive)).filter
        (!(Exclusion.ofTexts excludes).1.excludes ·)).foldl
          (fun files path => Path.insert path files) [] := by
  have run : ∀ (exclusion : Exclusion) (start : Selection),
      (inputs.foldl (addInput tree exclusion recursive) start).files =
        ((inputs.flatMap (reached tree recursive)).filter (!exclusion.excludes ·)).foldl
          (fun files path => Path.insert path files) start.files := by
    intro exclusion
    induction inputs with
    | nil => exact fun start => rfl
    | cons input inputs ih =>
      intro start
      rw [List.foldl_cons, ih, files_addInput, List.flatMap_cons, List.filter_append,
        List.foldl_append]
  exact run _ _

theorem of_mem_files {tree : FileTree} {inputs excludes : List String} {recursive : Bool}
    {path : String} (h : path ∈ (collect tree inputs excludes recursive).files) :
    (∃ input ∈ inputs, path ∈ reached tree recursive input) ∧
      ∀ text ∈ excludes, ¬Exclusion.LeavesOut text path := by
  rw [files_collect] at h
  rcases Path.mem_foldl_insert h with h | h
  · cases h
  · obtain ⟨inside, kept⟩ := List.mem_filter.mp h
    refine ⟨List.mem_flatMap.mp inside, fun text ht leaves => ?_⟩
    rw [Exclusion.excludes_ofTexts.mpr ⟨text, ht, leaves⟩] at kept
    cases kept

theorem exists_mem_files {tree : FileTree} {inputs excludes : List String} {recursive : Bool}
    {input path : String} (member : input ∈ inputs) (there : path ∈ reached tree recursive input)
    (kept : ∀ text ∈ excludes, ¬Exclusion.LeavesOut text path) :
    ∃ other ∈ (collect tree inputs excludes recursive).files,
      Path.parts path = Path.parts other := by
  rw [files_collect]
  refine Path.exists_mem_foldl_insert (Or.inr (List.mem_filter.mpr ⟨?_, ?_⟩))
  · exact List.mem_flatMap.mpr ⟨input, member, there⟩
  · have free : ¬(Exclusion.ofTexts excludes).1.excludes path = true := by
      rw [Exclusion.excludes_ofTexts]
      rintro ⟨text, ht, leaves⟩
      exact kept text ht leaves
    simpa using free

end Selection

namespace FileTree

def IsNamed (tree : FileTree) : Prop :=
  ∀ entry ∈ tree.items, ∀ name ∈ entry.1, IsName name ∧ '/' ∉ name.toList

instance (tree : FileTree) : Decidable tree.IsNamed :=
  inferInstanceAs (Decidable (∀ entry ∈ tree.items, ∀ name ∈ entry.1, IsName name ∧ '/' ∉ name.toList))

theorem mem_childrenOf {tree : FileTree} {directory : Names} {child : String × Item} :
    child ∈ tree.childrenOf directory ↔ (directory ++ [child.1], child.2) ∈ tree.items := by
  rw [childrenOf, List.mem_mergeSort, List.mem_filterMap]
  constructor
  · rintro ⟨⟨names, item⟩, inside, found⟩
    simp only at found
    split at found
    · rename_i name last
      split at found
      · rename_i outer
        obtain rfl := Option.some.inj found
        obtain ⟨before, rfl⟩ := List.getLast?_eq_some_iff.mp last
        obtain rfl : before = directory := by simpa using outer
        exact inside
      · cases found
    · cases found
  · intro inside
    exact ⟨_, inside, by simp⟩

theorem IsNamed.of_mem_childrenOf {tree : FileTree} (named : tree.IsNamed) {directory : Names}
    {child : String × Item} (member : child ∈ tree.childrenOf directory) :
    IsName child.1 ∧ '/' ∉ child.1.toList :=
  named _ (mem_childrenOf.mp member) child.1 (by simp)

end FileTree

theorem FileTree.IsNamed.seenFrom {tree : FileTree} (named : tree.IsNamed) (place : Names) :
    (tree.seenFrom place).IsNamed := named

namespace Selection

variable {tree : FileTree}

def filesUnder (tree : FileTree) (deeper : String → Names → List String) (path : String)
    (names : Names) : List String :=
  (tree.childrenOf names).flatMap fun child =>
    match child.2 with
    | .file _ => [Path.join path child.1]
    | .directory => deeper (Path.join path child.1) (names ++ [child.1])
    | .link _ => []

theorem filesIn_zero (path : String) (names : Names) :
    filesIn tree 0 path names = filesUnder tree (fun _ _ => []) path names := by
  delta filesIn
  refine List.flatMap_congr (l := tree.childrenOf names) fun child _ => ?_
  obtain ⟨name, item⟩ := child
  cases item <;> rfl

theorem filesIn_succ (depth : Nat) (path : String) (names : Names) :
    filesIn tree (depth + 1) path names = filesUnder tree (filesIn tree depth) path names := by
  delta filesIn
  refine List.flatMap_congr (l := tree.childrenOf names) fun child _ => ?_
  obtain ⟨name, item⟩ := child
  cases item <;> rfl

theorem mem_filesIn_zero {path other : String} {names : Names} :
    other ∈ filesIn tree 0 path names ↔
      ∃ name content, (names ++ [name], .file content) ∈ tree.items ∧ other = Path.join path name := by
  rw [filesIn_zero, filesUnder, List.mem_flatMap]
  constructor
  · rintro ⟨⟨name, item⟩, there, found⟩
    cases item with
    | file content =>
      exact ⟨name, content, FileTree.mem_childrenOf.mp there, List.mem_singleton.mp found⟩
    | directory => cases found
    | link target => cases found
  · rintro ⟨name, content, there, rfl⟩
    have child : (name, Item.file content) ∈ tree.childrenOf names :=
      FileTree.mem_childrenOf.mpr there
    exact ⟨(name, .file content), child, List.mem_singleton.mpr rfl⟩

theorem filesIn_seenFrom (place : Names) (depth : Nat) :
    filesIn (tree.seenFrom place) depth = filesIn tree depth := by
  induction depth with
  | zero =>
    funext path names
    rw [filesIn_zero, filesIn_zero]
    rfl
  | succ depth ih =>
    funext path names
    rw [filesIn_succ, filesIn_succ, ih]
    rfl

private theorem filesUnder_join (base : String) {path : String} (full : path ≠ "")
    {deeper : String → Names → List String}
    (joined : ∀ inner, inner ≠ "" → ∀ names,
      deeper (Path.join base inner) names = (deeper inner names).map (Path.join base))
    (names : Names) :
    filesUnder tree deeper (Path.join base path) names =
      (filesUnder tree deeper path names).map (Path.join base) := by
  rw [filesUnder, filesUnder, List.map_flatMap]
  refine List.flatMap_congr fun child _ => ?_
  rw [Path.join_join base full]
  cases child.2 with
  | file content => rfl
  | directory => exact joined _ (Path.join_ne_empty_of_base full _) _
  | link target => rfl

theorem filesIn_join (base : String) (depth : Nat) {path : String} (full : path ≠ "")
    (names : Names) :
    filesIn tree depth (Path.join base path) names =
      (filesIn tree depth path names).map (Path.join base) := by
  induction depth generalizing path names with
  | zero =>
    rw [filesIn_zero, filesIn_zero]
    exact filesUnder_join base full (fun _ _ _ => rfl) names
  | succ depth ih =>
    rw [filesIn_succ, filesIn_succ]
    exact filesUnder_join base full (fun inner bare => ih bare) names

def EndsWithName (path : String) : Prop :=
  ∃ name, FileTree.IsName name ∧ (FileTree.piecesOf path).getLast? = some name

private theorem endsWithName_of_mem_filesUnder (named : tree.IsNamed)
    {deeper : String → Names → List String}
    (inside : ∀ inner names, ∀ other ∈ deeper inner names, EndsWithName other) {path : String}
    {names : Names} : ∀ other ∈ filesUnder tree deeper path names, EndsWithName other := by
  intro other member
  obtain ⟨child, there, found⟩ := List.mem_flatMap.mp member
  obtain ⟨proper, unsplit⟩ := named.of_mem_childrenOf there
  cases kind : child.2 with
  | file content =>
    rw [kind] at found
    obtain rfl := List.mem_singleton.mp found
    exact ⟨child.1, proper, FileTree.piecesOf_join unsplit path⟩
  | directory =>
    rw [kind] at found
    exact inside _ _ other found
  | link target =>
    rw [kind] at found
    cases found

theorem endsWithName_of_mem_filesIn (named : tree.IsNamed) (depth : Nat) {path : String}
    {names : Names} : ∀ other ∈ filesIn tree depth path names, EndsWithName other := by
  induction depth generalizing path names with
  | zero =>
    rw [filesIn_zero]
    exact endsWithName_of_mem_filesUnder named (by simp)
  | succ depth ih =>
    rw [filesIn_succ]
    exact endsWithName_of_mem_filesUnder named fun _ _ => ih

theorem EndsWithName.join {path : String} (ends : EndsWithName path) (base : String) :
    EndsWithName (Path.join base path) := by
  obtain ⟨name, proper, last⟩ := ends
  exact ⟨name, proper, (FileTree.getLast?_piecesOf_join base path).trans last⟩

theorem EndsWithName.fileName?_join {path : String} (ends : EndsWithName path) (base : String) :
    Path.fileName? (Path.join base path) = Path.fileName? path := by
  obtain ⟨name, proper, last⟩ := ends
  rw [Path.fileName?_of_getLast? proper last, Path.fileName?_of_getLast? proper
    ((FileTree.getLast?_piecesOf_join base path).trans last)]

theorem EndsWithName.isScript_join {path : String} (ends : EndsWithName path) (base : String) :
    isScript (Path.join base path) = isScript path := by
  rw [isScript, isScript, Path.extension?, Path.extension?, ends.fileName?_join]

theorem endsWithName_of_locate {path : String} {names : Names} {content : Content}
    (there : tree.locate true path = .ok (.item names (.file content))) : EndsWithName path := by
  obtain ⟨name, last, proper⟩ := FileTree.exists_name_of_locate there (by simp)
  exact ⟨name, proper, last⟩

theorem endsWithName_of_mem_reached (named : tree.IsNamed) {recursive : Bool} {input path : String}
    (member : path ∈ reached tree recursive input) : EndsWithName path := by
  unfold reached pathsOf at member
  split at member
  · rename_i names content there
    obtain rfl := List.mem_singleton.mp member
    exact endsWithName_of_locate (FileTree.resolve_eq_ok.mp there)
  · exact endsWithName_of_mem_filesIn named _ _ (List.mem_filter.mp member).1
  · cases member

theorem mem_reached_here {path : String} :
    path ∈ reached tree false "." ↔
      (∃ name content, (tree.place ++ [name], .file content) ∈ tree.items ∧
        path = Path.join "." name) ∧ isScript path = true := by
  have here : tree.resolve "." = .ok (tree.place, .directory) := by
    have pieces : FileTree.piecesOf "." = ["."] := by decide
    have sound : FileTree.pathFault? "." = none := by decide
    have start : tree.startOf "." = tree.place := rfl
    rw [FileTree.resolve, FileTree.locate_eq, sound, pieces, start]
    simp only [FileTree.walk_void tree true _ _ (Or.inr rfl), FileTree.walk_nil]
    rfl
  have depth : depthOf tree false = 0 := rfl
  rw [reached, pathsOf, here, Option.getD_some, depth, List.mem_filter, mem_filesIn_zero]

section Joined

variable {home : Names} (place : tree.IsPlace home)
  (clean : '\x00' ∉ (FileTree.absolute home).toList) (named : tree.IsNamed) {input : String}
  (full : input ≠ "")
  (short : (Path.join (FileTree.absolute home) input).utf8ByteSize < FileTree.pathLimit)
  (elsewhere : Names)

include place clean named full short

theorem pathsOf_join (recursive : Bool) :
    pathsOf (tree.seenFrom elsewhere) recursive (Path.join (FileTree.absolute home) input) =
      (pathsOf (tree.seenFrom home) recursive input).map
        (List.map (Path.join (FileTree.absolute home))) := by
  have depth : depthOf (tree.seenFrom elsewhere) recursive = depthOf (tree.seenFrom home) recursive :=
    rfl
  rw [pathsOf, pathsOf, FileTree.resolve_join_absolute place clean full short elsewhere]
  split
  · rfl
  · rename_i names there
    rw [depth, filesIn_seenFrom, filesIn_seenFrom, filesIn_join _ _ full, List.filter_map,
      Option.map_some]
    congr 2
    refine List.filter_congr fun path member => ?_
    exact (endsWithName_of_mem_filesIn named _ path member).isScript_join _
  · rfl

theorem reached_join (recursive : Bool) :
    reached (tree.seenFrom elsewhere) recursive (Path.join (FileTree.absolute home) input) =
      (reached (tree.seenFrom home) recursive input).map (Path.join (FileTree.absolute home)) := by
  rw [reached, reached, pathsOf_join place clean named full short]
  cases pathsOf (tree.seenFrom home) recursive input <;> rfl

end Joined

def Holds (selection : Selection) (tree : FileTree) (names : Names) : Prop :=
  ∃ path ∈ selection.files, ∃ content, tree.resolve path = .ok (names, .file content)

/-- A file is selected if and only if it is reached by a path that is not left out. -/
theorem holds_collect_iff (named : tree.IsNamed) {inputs excludes : List String} {recursive : Bool}
    (short : ∀ input ∈ inputs, ∀ path ∈ reached tree recursive input,
      path.utf8ByteSize < FileTree.pathLimit) {names : Names} :
    (collect tree inputs excludes recursive).Holds tree names ↔
      ∃ input ∈ inputs, ∃ path ∈ reached tree recursive input,
        (∀ text ∈ excludes, ¬Exclusion.LeavesOut text path) ∧
          ∃ content, tree.resolve path = .ok (names, .file content) := by
  constructor
  · rintro ⟨path, member, there⟩
    obtain ⟨⟨input, hi, inside⟩, kept⟩ := of_mem_files member
    exact ⟨input, hi, path, inside, kept, there⟩
  · rintro ⟨input, hi, path, inside, kept, content, there⟩
    -- The path may be spelled in another way among the selected ones; both lead to the same file.
    obtain ⟨other, member, same⟩ := exists_mem_files hi inside kept
    obtain ⟨⟨otherInput, ho, otherInside⟩, -⟩ := of_mem_files member
    obtain ⟨name, proper, last⟩ := endsWithName_of_mem_reached named inside
    obtain ⟨otherName, otherProper, otherLast⟩ := endsWithName_of_mem_reached named otherInside
    have located := FileTree.locate_congr same (FileTree.ends_of_getLast? proper last)
      (FileTree.ends_of_getLast? otherProper otherLast) (short input hi path inside)
      (short otherInput ho other otherInside) tree true
    refine ⟨other, member, content, ?_⟩
    rw [FileTree.resolve, ← located, ← FileTree.resolve]
    exact there

end Selection

end Phrasebook
