import Phrasebook.Files.Settled
import Phrasebook.Proofs.Files.Join
import Phrasebook.Proofs.Files.Place
import Phrasebook.Proofs.Files.Way

/-!
Paths as they are seen from the root, cut off after any of their parts, and what they lead to.
-/

set_option autoImplicit false

namespace Phrasebook

namespace Path

def Part.IsPlain (part : Part) : Prop :=
  '/' ∉ part.spelling.toList ∧ partsBehind part.spelling = [part]

theorem isPlain_name {name : String} (proper : FileTree.IsName name) (inside : '/' ∉ name.toList) :
    (Part.name name).IsPlain :=
  ⟨inside, partsBehind_of_isName proper inside⟩

theorem spelling_of_partOf? {piece : List Char} {part : Part} (stands : partOf? piece = some part) :
    part.spelling = String.ofList piece := by
  unfold partOf? at stands
  split at stands
  · cases stands
  · split at stands
    · rename_i up
      obtain rfl := Option.some.inj stands
      rw [beq_iff_eq.mp up]
      rfl
    · obtain rfl := Option.some.inj stands
      rfl

theorem isPlain_of_partOf? {piece : List Char} {part : Part} (unsplit : '/' ∉ piece)
    (stands : partOf? piece = some part) : part.IsPlain := by
  have spelled := spelling_of_partOf? stands
  have inside : '/' ∉ part.spelling.toList := by rwa [spelled, String.toList_ofList]
  refine ⟨inside, ?_⟩
  rw [partsBehind, FileTree.splitAt_of_not_mem inside, spelled, String.toList_ofList,
    List.filterMap_cons_some stands, List.filterMap_nil]

theorem isPlain_of_mem_partsBehind {path : String} {part : Part} (member : part ∈ partsBehind path) :
    part.IsPlain := by
  obtain ⟨piece, there, stands⟩ := List.mem_filterMap.mp member
  refine isPlain_of_partOf? (fun slash => ?_) stands
  simpa using (Text.mem_splitAt there).1 '/' slash

theorem Part.IsPlain.solid {text : String} (plain : (Part.name text).IsPlain) :
    text ≠ "" ∧ text ≠ "." ∧ text ≠ ".." := by
  obtain ⟨-, behind⟩ := plain
  refine ⟨?_, ?_, ?_⟩
  all_goals
    rintro rfl
    revert behind
    decide

theorem headParts_of_isAbsolute {path : List Char} (fromRoot : isAbsolute path = true) :
    headParts path = [.root] := by
  obtain ⟨rest, rfl⟩ := List.head?_eq_some_iff.mp (beq_iff_eq.mp fromRoot)
  rfl

theorem eq_here_of_mem_headParts {path : List Char} (relative : isAbsolute path = false)
    {part : Part} (member : part ∈ headParts path) : part = .here := by
  unfold headParts at member
  fun_cases splitHead path with
  | case1 rest => cases relative
  | case2 => simpa [splitHead] using member
  | case3 rest => simpa [splitHead] using member
  | case4 path absolute here below => simp [splitHead] at member

theorem partsBehind_eq_filter (path : String) :
    partsBehind path = (parts path).filter (·.step?.isSome) := by
  have before : (headParts path.toList).filter (·.step?.isSome) = [] := by
    have silent := filterMap_headParts path.toList
    rw [List.filterMap_eq_nil_iff] at silent
    refine List.filter_eq_nil_iff.mpr fun part member => ?_
    simp [silent part member]
  have behind : (partsBehind path).filter (·.step?.isSome) = partsBehind path := by
    refine List.filter_eq_self.mpr fun part member => ?_
    obtain ⟨piece, -, stands⟩ := List.mem_filterMap.mp member
    have named := part_of_partOf? stands
    cases part with
    | root => exact absurd rfl named.1
    | here => exact absurd rfl named.2
    | up => rfl
    | name text => rfl
  have whole : parts path = headParts path.toList ++ partsBehind path := parts_eq path
  rw [whole, List.filter_append, before, behind, List.nil_append]

theorem ofParts_concat (parts : List Part) (part : Part) :
    ofParts (parts ++ [part]) = join (ofParts parts) part.spelling := by
  simp [ofParts]

theorem parts_ofParts {rest : List Part} (plain : ∀ part ∈ rest, part.IsPlain) :
    parts (ofParts (.root :: rest)) = .root :: rest := by
  induction rest using List.reverseRecOn with
  | nil => decide
  | append_singleton rest part ih =>
    have outer := ih fun other member => plain other (by simp [member])
    obtain ⟨inside, behind⟩ := plain part (by simp)
    have full : ofParts (.root :: rest) ≠ "" := by
      intro empty
      rw [empty] at outer
      cases outer
    rw [← List.cons_append, ofParts_concat,
      parts_join_of_relative (isAbsolute_of_not_mem inside) full, behind, outer]

end Path

namespace FileTree

variable {tree : FileTree} {path : String}

def fromRoot (tree : FileTree) (path : String) : String :=
  Path.ofParts (tree.absoluteParts path) ++ endingOf path

theorem absoluteParts_eq (tree : FileTree) (path : String) :
    tree.absoluteParts path =
      .root :: ((tree.startOf path).map .name ++ Path.partsBehind path) := by
  have parts : Path.parts path = Path.headParts path.toList ++ Path.partsBehind path :=
    Path.parts_eq path
  rw [absoluteParts, startOf, parts]
  cases fromRoot : Path.isAbsolute path.toList with
  | true =>
    rw [Path.headParts_of_isAbsolute fromRoot]
    rfl
  | false =>
    have before : (Path.headParts path.toList).filter (· != .here) = [] := by
      refine List.filter_eq_nil_iff.mpr fun part member => ?_
      rw [Path.eq_here_of_mem_headParts fromRoot member]
      decide
    have behind : (Path.partsBehind path).filter (· != .here) = Path.partsBehind path := by
      refine List.filter_eq_self.mpr fun part member => ?_
      obtain ⟨piece, -, stands⟩ := List.mem_filterMap.mp member
      simpa using (Path.part_of_partOf? stands).2
    simp [before, behind]

theorem absoluteParts_of_parts_eq {a b : String} (same : Path.parts a = Path.parts b) :
    tree.absoluteParts a = tree.absoluteParts b := by
  rw [absoluteParts, absoluteParts, Path.isAbsolute_eq, Path.isAbsolute_eq, same]

theorem isPlace_startOf (place : tree.IsPlace tree.place) (path : String) :
    tree.IsPlace (tree.startOf path) := by
  unfold startOf
  split
  · exact ⟨by simp, fun outer start => by rw [List.prefix_nil.mp start]; rfl⟩
  · exact place

theorem isPlain_of_mem_absoluteParts (place : tree.IsPlace tree.place) {rest : List Path.Part}
    (parts : tree.absoluteParts path = .root :: rest) : ∀ part ∈ rest, part.IsPlain := by
  rw [absoluteParts_eq] at parts
  obtain rfl := (List.cons.inj parts).2
  intro part member
  rcases List.mem_append.mp member with outer | behind
  · obtain ⟨name, inside, rfl⟩ := List.mem_map.mp outer
    obtain ⟨proper, unsplit⟩ := (isPlace_startOf place path).proper name inside
    exact Path.isPlain_name proper unsplit
  · exact Path.isPlain_of_mem_partsBehind behind

def entered (tree : FileTree) (parts : List Path.Part) : Except Fault Names :=
  (tree.walk true linkLimit [] (parts.filterMap Path.Part.step?)).bind Spot.enter

theorem entered_absoluteParts (place : tree.IsPlace tree.place) (start : List Path.Part) :
    tree.entered (.root :: ((tree.startOf path).map .name ++ start)) =
      (tree.walk true linkLimit (tree.startOf path) (start.filterMap Path.Part.step?)).bind
        Spot.enter := by
  have steps : ((tree.startOf path).map Path.Part.name).filterMap Path.Part.step? =
      tree.startOf path := by
    rw [List.filterMap_map]
    exact List.filterMap_some
  rw [entered, List.filterMap_cons_none rfl, List.filterMap_append, steps,
    walk_append_of_descend (descend_names (isPlace_startOf place path))]

theorem filterMap_step?_parts (path : String) :
    (Path.parts path).filterMap Path.Part.step? =
      (Path.partsBehind path).filterMap Path.Part.step? := by
  rw [Path.parts_eq, List.filterMap_append, Path.filterMap_headParts]
  rfl

theorem enter_locate (place : tree.IsPlace tree.place) (sound : pathFault? path = none) :
    (tree.locate true path).bind Spot.enter = tree.entered (tree.absoluteParts path) := by
  rw [enter_locate_parts sound, filterMap_step?_parts, absoluteParts_eq, entered_absoluteParts place]

theorem resolve_eq_directory (place : tree.IsPlace tree.place) (sound : pathFault? path = none)
    {names : Names} :
    tree.resolve path = .ok (names, .directory) ↔ tree.entered (tree.absoluteParts path) = .ok names := by
  rw [← enter_locate place sound, enter_locate_eq_ok]

theorem wayIn_eq_entered (place : tree.IsPlace tree.place) {last : String}
    (found : (piecesOf path).getLast? = some last) (solid : Path.isSolid last = true)
    (sound : pathFault? path = none) :
    ∃ outer part, tree.absoluteParts path = outer ++ [part] ∧ part.step? = some last ∧
      tree.wayIn path = tree.entered outer := by
  obtain ⟨before, part, parts, steps⟩ := Path.exists_last_part found solid
  have behind : Path.headParts path.toList ++ Path.partsBehind path = before ++ [part] :=
    (Path.parts_eq path).symm.trans parts
  rcases List.eq_nil_or_concat' (Path.partsBehind path) with none | ⟨others, other, split⟩
  · -- What a path starts with is no step.
    have inHead : part ∈ Path.headParts path.toList := by
      rw [none, List.append_nil] at behind
      rw [behind]
      simp
    have silent := Path.filterMap_headParts path.toList
    rw [List.filterMap_eq_nil_iff] at silent
    rw [silent part inHead] at steps
    cases steps
  · rw [split, ← List.append_assoc] at behind
    obtain ⟨rfl, rfl⟩ := List.append_inj' behind rfl |>.imp id (fun same => List.cons.inj same |>.1)
    refine ⟨.root :: ((tree.startOf path).map .name ++ others), other, ?_, steps, ?_⟩
    · rw [absoluteParts_eq, split]
      simp
    · rw [wayIn_eq_walk found solid parts steps tree sound, entered_absoluteParts place,
        List.filterMap_append, Path.filterMap_headParts, List.nil_append]

theorem eq_directory_of_slash {names : Names} {item : Item}
    (there : tree.resolve (path ++ "/") = .ok (names, item)) : item = .directory := by
  have pieces := piecesOf_append path ""
  rw [String.append_empty] at pieces
  have last : (piecesOf (path ++ "/")).getLast? = some "" := by
    rw [pieces, (by decide : piecesOf "" = [""]), List.getLast?_concat]
  obtain ⟨home, left, walked⟩ := exists_walk_last last (resolve_eq_ok.mp there)
  rw [walk_void _ _ _ _ (Or.inl rfl), walk_nil] at walked
  exact (Spot.item.inj (Except.ok.inj walked)).2.symm

theorem sound_of_append {start rest : String} (full : start ≠ "")
    (sound : pathFault? (start ++ rest) = none) : pathFault? start = none := by
  obtain ⟨clean, -, short⟩ := pathFault?_eq_none_iff.mp sound
  rw [String.utf8ByteSize_append] at short
  refine pathFault?_eq_none_iff.mpr ⟨fun nul => clean ?_, full, by omega⟩
  rw [String.toList_append]
  exact List.mem_append_left _ nul

theorem sound_of_resolve {names : Names} {item : Item} (there : tree.resolve path = .ok (names, item)) :
    pathFault? path = none := by
  have located := resolve_eq_ok.mp there
  rw [locate_eq] at located
  cases fault : pathFault? path with
  | none => rfl
  | some fault =>
    rw [fault] at located
    cases located

section Start

variable (place : tree.IsPlace tree.place) {parts : List Path.Part}
  (start : parts <+: tree.absoluteParts path) (full : parts ≠ []) {ending : String}
  (slash : ending = "" ∨ ending = "/")

include place start full

theorem exists_rest_of_isPrefix : ∃ rest, parts = .root :: rest ∧ ∀ part ∈ rest, part.IsPlain := by
  obtain ⟨first, rest, rfl⟩ := List.exists_cons_of_ne_nil full
  obtain ⟨more, whole⟩ := start
  obtain rfl : Path.Part.root = first := by
    rw [absoluteParts_eq] at whole
    exact (List.cons.inj whole).1.symm
  refine ⟨rest, rfl, fun part member => ?_⟩
  exact isPlain_of_mem_absoluteParts place whole.symm part (List.mem_append_left _ member)

theorem isPlain_of_mem_of_isPrefix {name : String} (member : .name name ∈ parts) :
    (Path.Part.name name).IsPlain := by
  obtain ⟨rest, rfl, plain⟩ := exists_rest_of_isPrefix place start full
  exact plain _ ((List.mem_cons.mp member).resolve_left (by simp))

theorem ofParts_ne_empty : Path.ofParts parts ≠ "" := by
  obtain ⟨rest, rfl, plain⟩ := exists_rest_of_isPrefix place start full
  intro empty
  have parts := Path.parts_ofParts plain
  rw [empty] at parts
  cases parts

include slash

theorem parts_ofParts_append : Path.parts (Path.ofParts parts ++ ending) = parts := by
  have bare : Path.parts (Path.ofParts parts) = parts := by
    obtain ⟨rest, rfl, plain⟩ := exists_rest_of_isPrefix place start full
    exact Path.parts_ofParts plain
  rcases slash with rfl | rfl
  · rw [String.append_empty, bare]
  · rw [Path.parts_append_slash (ofParts_ne_empty place start full), bare]

theorem absoluteParts_ofParts : tree.absoluteParts (Path.ofParts parts ++ ending) = parts := by
  have same := parts_ofParts_append place start full slash
  have fromRoot : Path.isAbsolute (Path.ofParts parts ++ ending).toList = true := by
    obtain ⟨rest, rfl, -⟩ := exists_rest_of_isPrefix place start full
    rw [Path.isAbsolute_eq, same]
    rfl
  rw [absoluteParts, if_pos fromRoot, same]

theorem resolve_ofParts (sound : pathFault? (Path.ofParts parts ++ ending) = none) {names : Names} :
    tree.resolve (Path.ofParts parts ++ ending) = .ok (names, .directory) ↔
      tree.entered parts = .ok names := by
  rw [resolve_eq_directory place sound, absoluteParts_ofParts place start full slash]

end Start

theorem resolve_outer (place : tree.IsPlace tree.place) {outer : List Path.Part} {name ending : String}
    (start : outer ++ [.name name] <+: tree.absoluteParts path) (full : outer ≠ [])
    (sound : pathFault? (Path.ofParts (outer ++ [.name name]) ++ ending) = none) {home : Names}
    (enters : tree.entered outer = .ok home) :
    tree.resolve (Path.ofParts outer ++ "") = .ok (home, .directory) := by
  have outerStart := (List.prefix_append outer [Path.Part.name name]).trans start
  have plain : (Path.Part.name name).IsPlain :=
    isPlain_of_mem_of_isPrefix place start (by simp) (by simp)
  obtain ⟨rest, longer⟩ : ∃ rest,
      Path.ofParts (outer ++ [.name name]) ++ ending = Path.ofParts outer ++ "" ++ rest := by
    rw [Path.ofParts_concat, Path.join_eq _ (Path.isAbsolute_of_not_mem plain.1), Path.opened,
      if_neg (by simpa using ofParts_ne_empty place outerStart full), String.append_empty]
    split
    · exact ⟨_, String.append_assoc⟩
    · exact ⟨_, by rw [String.append_assoc, String.append_assoc]⟩
  rw [longer] at sound
  refine (resolve_ofParts place outerStart full (Or.inl rfl) (sound_of_append ?_ sound)).mpr enters
  rw [String.append_empty]
  exact ofParts_ne_empty place outerStart full

theorem resolve_ofParts_cases (place : tree.IsPlace tree.place) {outer : List Path.Part}
    {name ending : String} (start : outer ++ [.name name] <+: tree.absoluteParts path)
    (slash : ending = "" ∨ ending = "/") {names : Names} {item : Item}
    (there : tree.resolve (Path.ofParts (outer ++ [.name name]) ++ ending) = .ok (names, item)) :
    IsName name ∧ ∃ home, tree.entered outer = .ok home ∧
      (names = home ++ [name] ∧ tree.item? names = some item ∨
        ∃ target, tree.item? (home ++ [name]) = some (.link target)) := by
  have full : outer ++ [Path.Part.name name] ≠ [] := by simp
  have bare : tree.resolve (Path.ofParts (outer ++ [.name name]) ++ "") = .ok (names, item) := by
    rcases slash with rfl | rfl
    · exact there
    · obtain rfl := eq_directory_of_slash there
      have sound := sound_of_resolve there
      have shorter := sound_of_append (ofParts_ne_empty place start full) sound
      rw [resolve_ofParts place start full (Or.inr rfl) sound] at there
      rw [resolve_ofParts place start full (Or.inl rfl) (by rwa [String.append_empty])]
      exact there
  have own : (Path.Part.name name).IsPlain := isPlain_of_mem_of_isPrefix place start full (by simp)
  have last : (piecesOf (Path.ofParts (outer ++ [.name name]) ++ "")).getLast? = some name := by
    rw [String.append_empty, Path.ofParts_concat]
    exact piecesOf_join own.1 _
  obtain ⟨_, _, walked⟩ := exists_walk_last last (resolve_eq_ok.mp bare)
  have proper := isName_of_walk own.solid.1 own.solid.2.1 own.solid.2.2 walked
  obtain ⟨home, way, found⟩ := exists_wayIn_of_resolve last proper bare
  obtain ⟨others, part, parts, -, entered⟩ := wayIn_eq_entered place last
    proper.isSolid (sound_of_wayIn way)
  rw [absoluteParts_ofParts place start full (Or.inl rfl)] at parts
  obtain ⟨rfl, -⟩ := List.append_inj' parts rfl
  exact ⟨proper, home, entered.symm.trans way, found⟩

theorem resolve_of_item (place : tree.IsPlace tree.place) {outer : List Path.Part}
    {name ending : String} (start : outer ++ [.name name] <+: tree.absoluteParts path)
    (slash : ending = "" ∨ ending = "/") (proper : IsName name)
    (sound : pathFault? (Path.ofParts (outer ++ [.name name]) ++ ending) = none) {home : Names}
    (enters : tree.entered outer = .ok home) {item : Item}
    (there : tree.item? (home ++ [name]) = some item) (direct : ∀ target, item ≠ .link target)
    (below : ending = "/" → item = .directory) :
    tree.resolve (Path.ofParts (outer ++ [.name name]) ++ ending) = .ok (home ++ [name], item) := by
  have full : outer ++ [Path.Part.name name] ≠ [] := by simp
  have bareSound : pathFault? (Path.ofParts (outer ++ [.name name]) ++ "") = none := by
    rw [String.append_empty]
    exact sound_of_append (ofParts_ne_empty place start full) sound
  have bare : tree.resolve (Path.ofParts (outer ++ [.name name]) ++ "") =
      .ok (home ++ [name], item) := by
    have own : (Path.Part.name name).IsPlain :=
      isPlain_of_mem_of_isPrefix place start full (by simp)
    have last : (piecesOf (Path.ofParts (outer ++ [.name name]) ++ "")).getLast? = some name := by
      rw [String.append_empty, Path.ofParts_concat]
      exact piecesOf_join own.1 _
    obtain ⟨others, part, parts, -, way⟩ := wayIn_eq_entered place last
      proper.isSolid bareSound
    rw [absoluteParts_ofParts place start full (Or.inl rfl)] at parts
    obtain ⟨rfl, -⟩ := List.append_inj' parts rfl
    have solid : ∀ target, tree.item? (home ++ [name]) ≠ some (.link target) := by
      intro target linked
      exact direct target (Option.some.inj (there.symm.trans linked))
    rw [resolve_eq_ok, locate_of_wayIn last proper (way.trans enters) solid, spotAt, there]
  rcases slash with rfl | rfl
  · exact bare
  · obtain rfl := below rfl
    rw [resolve_ofParts place start full (Or.inl rfl) bareSound] at bare
    exact (resolve_ofParts place start full (Or.inr rfl) sound).mpr bare

theorem resolve_ne_link {names : Names} {target : String} :
    tree.resolve path ≠ .ok (names, .link target) := by
  intro there
  rcases stands_of_locate (resolve_eq_ok.mp there) with directory | ⟨-, direct⟩
  · cases directory
  · exact direct rfl target rfl

theorem proper_of_resolve (place : tree.IsPlace tree.place) {names : Names} {item : Item}
    (there : tree.resolve path = .ok (names, item)) :
    ∀ name ∈ names, IsName name ∧ '/' ∉ name.toList := by
  -- A link is followed by its own pieces, so the walk carries both: its directory and what is left of it.
  have walked : ∀ followsLast links directory pieces,
      (∀ name ∈ directory, IsName name ∧ '/' ∉ name.toList) →
      (∀ piece ∈ pieces, '/' ∉ piece.toList) →
      tree.walk followsLast links directory pieces = .ok (.item names item) →
        ∀ name ∈ names, IsName name ∧ '/' ∉ name.toList := by
    intro followsLast links directory pieces proper inside located
    have below : ∀ {directory : Names} {piece : String} {rest : List String},
        ¬(piece == "" || piece == ".") = true → ¬(piece == "..") = true →
        ¬piece.utf8ByteSize > nameLimit → (∀ name ∈ directory, IsName name ∧ '/' ∉ name.toList) →
        (∀ other ∈ piece :: rest, '/' ∉ other.toList) →
          ∀ name ∈ directory ++ [piece], IsName name ∧ '/' ∉ name.toList := by
      intro directory piece rest solid notUp short proper inside name member
      rcases List.mem_append.mp member with outer | own
      · exact proper name outer
      · rw [List.mem_singleton.mp own]
        exact ⟨isName_of_not solid notUp short, inside piece List.mem_cons_self⟩
    fun_induction tree.walk followsLast links directory pieces with
    | case1 =>
      obtain ⟨rfl, -⟩ := Spot.item.inj (Except.ok.inj located)
      exact proper
    | case2 _ _ _ _ _ ih =>
      exact ih proper (fun piece member => inside piece (List.mem_cons_of_mem _ member)) located
    | case3 _ _ _ _ _ _ ih =>
      exact ih (fun name member => proper name (List.dropLast_subset _ member))
        (fun piece member => inside piece (List.mem_cons_of_mem _ member)) located
    | case4 => cases located
    | case5 => cases located
    | case6 => cases located
    | case7 _ _ _ _ solid notUp short _ _ ih =>
      exact ih (below solid notUp short proper inside)
        (fun piece member => inside piece (List.mem_cons_of_mem _ member)) located
    | case8 _ _ _ _ solid notUp short _ _ _ _ =>
      obtain ⟨rfl, -⟩ := Spot.item.inj (Except.ok.inj located)
      exact below solid notUp short proper inside
    | case9 => cases located
    | case10 _ _ _ _ solid notUp short _ _ _ _ =>
      obtain ⟨rfl, -⟩ := Spot.item.inj (Except.ok.inj located)
      exact below solid notUp short proper inside
    | case11 => cases located
    | case12 _ _ _ _ _ _ _ _ _ _ _ start ih =>
      refine ih ?_ (fun piece member => ?_) located
      · unfold start
        split
        · simp
        · exact proper
      · rcases List.mem_append.mp member with target | rest
        · exact not_mem_of_mem_piecesOf target
        · exact inside piece (List.mem_cons_of_mem _ rest)
  have located := resolve_eq_ok.mp there
  rw [locate_eq, sound_of_resolve there] at located
  exact walked _ _ _ _ (isPlace_startOf place path).proper
    (fun piece member => not_mem_of_mem_piecesOf member) located

end FileTree

end Phrasebook
