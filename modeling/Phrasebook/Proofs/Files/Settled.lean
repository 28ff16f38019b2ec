import Phrasebook.Proofs.Files.Made

/-!
Settled paths as directories are made. A directory that is made with those that it is in keeps its settled
path, unless two points follow a name that was missing.
-/

set_option autoImplicit false

namespace Phrasebook

namespace Path

def Part.isName : Part → Bool
  | name _ => true
  | _ => false

def heelOf (parts : List Part) (ending : String) : String :=
  let outer := parts.rdropWhile Part.isName
  ofParts outer ++ if outer = parts then ending else ""

theorem heelOf_of_not_isName {outer : List Part} {part : Part} (solid : part.isName = false)
    (ending : String) : heelOf (outer ++ [part]) ending = ofParts (outer ++ [part]) ++ ending := by
  rw [heelOf, List.rdropWhile_concat_neg _ _ _ (by simp [solid])]
  simp

theorem heelOf_name (outer : List Part) (name ending : String) :
    heelOf (outer ++ [.name name]) ending = heelOf outer "" := by
  have shorter : outer.rdropWhile Part.isName ≠ outer ++ [.name name] := by
    intro same
    have lengths := (List.rdropWhile_prefix Part.isName (l := outer)).length_le
    rw [same, List.length_append, List.length_singleton] at lengths
    omega
  rw [heelOf, heelOf, List.rdropWhile_concat_pos _ _ _ (by rfl)]
  simp [shorter]

theorem heelOf_root {rest : List Part} (named : ∀ part ∈ rest, part.isName = true)
    (ending : String) :
    heelOf (.root :: rest) ending = "/" ++ ending ∨ heelOf (.root :: rest) ending = "/" ++ "" := by
  induction rest using List.reverseRecOn generalizing ending with
  | nil =>
    rw [← List.nil_append [Part.root]]
    exact Or.inl (heelOf_of_not_isName rfl ending)
  | append_singleton rest part ih =>
    right
    cases part with
    | name name =>
      rw [← List.cons_append, heelOf_name]
      exact (ih (fun other member => named other (by simp [member])) "").elim id id
    | _ => cases named _ (List.mem_append_right rest List.mem_cons_self)

theorem Part.IsPlain.isName {part : Part} (plain : part.IsPlain) (flat : part ≠ .up) :
    part.isName = true := by
  cases part with
  | root => exact absurd plain.1 (by decide)
  | here => exact absurd plain.2 (by decide)
  | up => exact absurd rfl flat
  | name text => rfl

theorem mem_of_mem_partsBehind {path : String} {part : Part} (member : part ∈ partsBehind path)
    {c : Char} (inside : c ∈ part.spelling.toList) : c ∈ path.toList := by
  obtain ⟨piece, there, stands⟩ := List.mem_filterMap.mp member
  rw [spelling_of_partOf? stands, String.toList_ofList] at inside
  exact (Text.mem_splitAt there).2 c inside

theorem mem_ofParts {parts : List Part} {c : Char} (member : c ∈ (ofParts parts).toList) :
    c = '/' ∨ ∃ part ∈ parts, c ∈ part.spelling.toList := by
  induction parts using List.reverseRecOn with
  | nil => cases member
  | append_singleton parts part ih =>
    have inside : c ∈ (ofParts parts).toList ∨ c = '/' ∨ c ∈ part.spelling.toList := by
      rw [ofParts_concat, join] at member
      split at member
      · exact Or.inr (Or.inr member)
      · split at member
        · rw [String.toList_append, List.mem_append] at member
          exact member.imp id Or.inr
        · simpa [String.toList_append] using member
    rcases inside with outer | slash | own
    · rcases ih outer with slash | ⟨other, there, inside⟩
      · exact Or.inl slash
      · exact Or.inr ⟨other, List.mem_append_left _ there, inside⟩
    · exact Or.inl slash
    · exact Or.inr ⟨part, List.mem_append_right _ List.mem_cons_self, own⟩

end Path

namespace FileTree

variable {tree : FileTree} {path : String}

section Parts

variable {parts : List Path.Part} {ending : String}

theorem settle?_concat (tree : FileTree) (ending : String) (outer : List Path.Part)
    (part : Path.Part) :
    tree.settle? ending (outer ++ [part]).reverse =
      match tree.resolve (Path.ofParts (outer ++ [part]) ++ ending), part with
      | .ok (names, _), _ => some (absolute names)
      | .error _, .name text => (tree.settle? "" outer.reverse).map (Path.join · text)
      | .error _, _ => none := by
  rw [List.reverse_concat, settle?.eq_def]
  simp only [List.reverse_cons, List.reverse_reverse, canonical]
  cases tree.resolve (Path.ofParts (outer ++ [part]) ++ ending) with
  | ok there => rfl
  | error fault => cases part <;> rfl

theorem settle?_of_resolve (full : parts ≠ []) {names : Names} {item : Item}
    (there : tree.resolve (Path.ofParts parts ++ ending) = .ok (names, item)) :
    tree.settle? ending parts.reverse = some (absolute names) := by
  obtain ⟨outer, part, rfl⟩ := List.eq_nil_or_concat' parts |>.resolve_left full
  rw [settle?_concat, there]

theorem exists_of_settle? {c : String} (settles : tree.settle? ending parts.reverse = some c)
    {fault : Fault} (fails : tree.resolve (Path.ofParts parts ++ ending) = .error fault) :
    ∃ outer name inner, parts = outer ++ [.name name] ∧ outer ≠ [] ∧
      tree.settle? "" outer.reverse = some inner ∧ c = Path.join inner name := by
  rcases List.eq_nil_or_concat' parts with rfl | ⟨outer, part, rfl⟩
  · cases settles
  rw [settle?_concat, fails] at settles
  cases part with
  | name text =>
    obtain ⟨inner, outerSettles, rfl⟩ := Option.map_eq_some_iff.mp settles
    refine ⟨outer, text, inner, rfl, ?_, outerSettles, rfl⟩
    rintro rfl
    cases outerSettles
  | _ => cases settles

variable (place : tree.IsPlace tree.place) (start : parts <+: tree.absoluteParts path)
  (full : parts ≠ []) (slash : ending = "" ∨ ending = "/")

include place start full slash

theorem isSome_settle?_iff :
    (tree.settle? ending parts.reverse).isSome = true ↔
      tree.isPresent (Path.heelOf parts ending) = true := by
  induction parts using List.reverseRecOn generalizing ending with
  | nil => exact absurd rfl full
  | append_singleton outer part ih =>
    cases named : part.isName with
    | false =>
      rw [Path.heelOf_of_not_isName named, settle?_concat, isPresent]
      cases tree.resolve (Path.ofParts (outer ++ [part]) ++ ending) with
      | ok there => exact iff_of_true rfl rfl
      | error fault =>
        cases part with
        | name text => cases named
        | _ => exact iff_of_false Bool.false_ne_true Bool.false_ne_true
    | true =>
      obtain ⟨name, rfl⟩ : ∃ name, part = .name name := by
        cases part with
        | name name => exact ⟨name, rfl⟩
        | _ => cases named
      have outerFull : outer ≠ [] := by
        rintro rfl
        obtain ⟨rest, same, -⟩ := exists_rest_of_isPrefix place start full
        cases same
      have outerStart := (List.prefix_append outer [Path.Part.name name]).trans start
      rw [Path.heelOf_name, ← ih outerStart outerFull (Or.inl rfl), settle?_concat]
      cases found : tree.resolve (Path.ofParts (outer ++ [.name name]) ++ ending) with
      | error fault => simp
      | ok there =>
        obtain ⟨names, item⟩ := there
        obtain ⟨-, home, enters, -⟩ := resolve_ofParts_cases place start slash found
        refine iff_of_true rfl ?_
        rw [settle?_of_resolve outerFull
          (resolve_outer place start outerFull (sound_of_resolve found) enters)]
        rfl

end Parts

theorem join_absolute_name {names : Names} {name : String}
    (proper : ∀ other ∈ names ++ [name], IsName other ∧ '/' ∉ other.toList) :
    Path.join (absolute names) name = absolute (names ++ [name]) := by
  have relative := Path.isAbsolute_of_not_mem (proper name (by simp)).2
  by_cases below : names = []
  · subst below
    rw [Path.join_eq _ relative]
    exact (absolute_concat_nil name).symm
  · rw [absolute_concat below, join_absolute (fun other member => proper other (by simp [member]))
      below relative]

section Made

variable (rooted : tree.IsRooted) {later : FileTree}
  (made : tree.perform (Change.makeDirectories (Path.bare path)) = (.ok (), later))

include rooted made

theorem new_of_made {outer : List Path.Part} {name ending : String}
    (start : outer ++ [.name name] <+: tree.absoluteParts path) (below : outer ≠ [])
    (slash : ending = "" ∨ ending = "/") {fault : Fault}
    (before : tree.resolve (Path.ofParts (outer ++ [.name name]) ++ ending) = .error fault)
    {home names : Names} {item : Item}
    (there : later.resolve (Path.ofParts (outer ++ [.name name]) ++ ending) = .ok (names, item))
    (enters : later.entered outer = .ok home)
    (reached : tree.resolve (Path.ofParts outer ++ "") = .ok (home, .directory) ∨
      tree.item? home = none) : names = home ++ [name] ∧ tree.item? names = none := by
  have grows := grows_of_made made
  have laterStart : outer ++ [.name name] <+: later.absoluteParts path := by
    rwa [absoluteParts_of_grows grows]
  have outerStart := (List.prefix_append outer [Path.Part.name name]).trans start
  have sound := sound_of_resolve there
  -- A directory that had something in it was there, and reached by the same parts.
  have entersBefore : ∀ {other}, tree.item? (home ++ [name]) = some other →
      tree.entered outer = .ok home := by
    intro other known
    have present := rooted.parents _ _ _ known
    rcases reached with resolved | absent
    · exact (resolve_ofParts rooted.place outerStart below (Or.inl rfl)
        (sound_of_resolve resolved)).mp resolved
    · rw [absent] at present
      cases present
  obtain ⟨proper, other, entersOther, found⟩ :=
    resolve_ofParts_cases (isPlace_of_grows rooted.place grows) laterStart slash there
  obtain rfl : home = other := Except.ok.inj (enters.symm.trans entersOther)
  rcases found with ⟨rfl, known⟩ | ⟨target, linked⟩
  · refine ⟨rfl, ?_⟩
    rcases grows.items (home ++ [name]) with same | ⟨free, -⟩
    · rw [same] at known
      have direct : ∀ target, item ≠ .link target := by
        rintro target rfl
        exact resolve_ne_link there
      have slashed : ending = "/" → item = .directory := by
        rintro rfl
        exact eq_directory_of_slash there
      rw [resolve_of_item rooted.place start slash proper sound (entersBefore known) known direct
        slashed] at before
      cases before
    · exact free
  · have known := links_of_grows grows _ _ linked
    obtain ⟨names, resolved⟩ := isDirectory_iff_resolve.mp
      (isDirectory_of_made rooted made start slash sound (entersBefore known) known)
    rw [resolved] at before
    cases before

variable {parts : List Path.Part} {ending c : String} (start : parts <+: tree.absoluteParts path)
  (slash : ending = "" ∨ ending = "/") (settles : tree.settle? ending parts.reverse = some c)

include start slash settles

theorem eq_absolute_of_settle? {names : Names} {item : Item}
    (there : later.resolve (Path.ofParts parts ++ ending) = .ok (names, item)) :
    c = absolute names ∧
      (tree.resolve (Path.ofParts parts ++ ending) = .ok (names, item) ∨ tree.item? names = none) := by
  have grows := grows_of_made made
  have laterPlace := isPlace_of_grows rooted.place grows
  induction parts using List.reverseRecOn generalizing ending c names item with
  | nil => cases settles
  | append_singleton outer part ih =>
    cases before : tree.resolve (Path.ofParts (outer ++ [part]) ++ ending) with
    | ok found =>
      obtain ⟨names, item⟩ := found
      obtain ⟨rfl, rfl⟩ := Prod.mk.inj (Except.ok.inj ((resolve_of_grows grows before).symm.trans there))
      rw [settle?_of_resolve (by simp) before] at settles
      exact ⟨(Option.some.inj settles).symm, Or.inl rfl⟩
    | error fault =>
      obtain ⟨_, name, inner, split, below, outerSettles, rfl⟩ := exists_of_settle? settles before
      obtain ⟨rfl, last⟩ := List.append_inj' split rfl
      obtain rfl : part = .name name := List.singleton_inj.mp last
      have laterStart : outer ++ [.name name] <+: later.absoluteParts path := by
        rwa [absoluteParts_of_grows grows]
      obtain ⟨-, home, enters, -⟩ := resolve_ofParts_cases laterPlace laterStart slash there
      obtain ⟨rfl, reached⟩ := ih ((List.prefix_append outer [Path.Part.name name]).trans start)
        (Or.inl rfl) outerSettles
        (resolve_outer laterPlace laterStart below (sound_of_resolve there) enters)
      obtain ⟨rfl, free⟩ := new_of_made rooted made start below slash before there enters reached
      exact ⟨join_absolute_name (proper_of_resolve laterPlace there), Or.inr free⟩

/-- The settled path of parts stays where a directory is made. -/
theorem settle?_of_made : later.settle? ending parts.reverse = some c := by
  have grows := grows_of_made made
  induction parts using List.reverseRecOn generalizing ending c with
  | nil => cases settles
  | append_singleton outer part ih =>
    cases after : later.resolve (Path.ofParts (outer ++ [part]) ++ ending) with
    | ok found =>
      obtain ⟨names, item⟩ := found
      obtain ⟨rfl, -⟩ := eq_absolute_of_settle? rooted made start slash settles after
      exact settle?_of_resolve (by simp) after
    | error fault =>
      cases before : tree.resolve (Path.ofParts (outer ++ [part]) ++ ending) with
      | ok found =>
        rw [resolve_of_grows grows before] at after
        cases after
      | error fault =>
        obtain ⟨_, name, inner, split, -, outerSettles, rfl⟩ := exists_of_settle? settles before
        obtain ⟨rfl, last⟩ := List.append_inj' split rfl
        obtain rfl : part = .name name := List.singleton_inj.mp last
        rw [settle?_concat, after, ih ((List.prefix_append outer [Path.Part.name name]).trans start)
          (Or.inl rfl) outerSettles]
        rfl

end Made

/-- The path as it is seen from the root, up to its last part that is no name. -/
def heel (tree : FileTree) (path : String) : String :=
  Path.heelOf (tree.absoluteParts path) (endingOf path)

theorem endingOf_cases (path : String) : endingOf path = "" ∨ endingOf path = "/" := by
  unfold endingOf
  split
  · exact Or.inr rfl
  · exact Or.inl rfl

theorem absoluteParts_ne_nil (tree : FileTree) (path : String) : tree.absoluteParts path ≠ [] := by
  simp [absoluteParts_eq]

theorem settled_eq (tree : FileTree) (full : path ≠ "") :
    tree.settled path =
      (tree.settle? (endingOf path) (tree.absoluteParts path).reverse).getD (tree.fromRoot path) := by
  rw [settled, if_neg (by simpa using full), fromRoot]

theorem isSome_settle?_iff_heel (place : tree.IsPlace tree.place) (path : String) :
    (tree.settle? (endingOf path) (tree.absoluteParts path).reverse).isSome = true ↔
      tree.isPresent (tree.heel path) = true :=
  isSome_settle?_iff place List.prefix_rfl (tree.absoluteParts_ne_nil path) (endingOf_cases path)

theorem settled_of_absent (place : tree.IsPlace tree.place) (full : path ≠ "")
    (absent : tree.isPresent (tree.heel path) = false) : tree.settled path = tree.fromRoot path := by
  rw [← Bool.not_eq_true, ← isSome_settle?_iff_heel place, Bool.not_eq_true,
    Option.isSome_eq_false_iff, Option.isNone_iff_eq_none] at absent
  rw [settled_eq tree full, absent, Option.getD_none]

theorem mem_absoluteParts_iff : .up ∈ tree.absoluteParts path ↔ .up ∈ Path.parts path := by
  unfold absoluteParts
  split <;> simp

theorem isPresent_heel (place : tree.IsPlace tree.place) (flat : .up ∉ Path.parts path) :
    tree.isPresent (tree.heel path) = true := by
  obtain ⟨rest, parts, plain⟩ :=
    exists_rest_of_isPrefix place List.prefix_rfl (tree.absoluteParts_ne_nil path)
  have root : ∀ ending, ending = "" ∨ ending = "/" → tree.isPresent ("/" ++ ending) = true := by
    intro ending slash
    have start : [Path.Part.root] <+: tree.absoluteParts path := ⟨rest, by rw [parts]; rfl⟩
    have sound : pathFault? ("/" ++ ending) = none := by
      rcases slash with rfl | rfl <;> decide
    have enters : tree.entered [.root] = .ok [] := by
      rw [entered, List.filterMap_cons_none rfl, List.filterMap_nil, walk_nil]
      rfl
    have there : tree.resolve ("/" ++ ending) = .ok ([], .directory) :=
      (resolve_ofParts place start (by simp) slash sound).mpr enters
    rw [isPresent, there]
    rfl
  have named : ∀ part ∈ rest, part.isName = true := by
    intro part member
    refine (plain part member).isName ?_
    rintro rfl
    have inside : .up ∈ tree.absoluteParts path := parts ▸ List.mem_cons_of_mem _ member
    exact flat (mem_absoluteParts_iff.mp inside)
  rw [heel, parts]
  rcases Path.heelOf_root named (endingOf path) with whole | bare
  · rw [whole]
    exact root _ (endingOf_cases path)
  · rw [bare]
    exact root _ (Or.inl rfl)

theorem not_mem_parts_of_settle? (place : tree.IsPlace tree.place) {parts : List Path.Part}
    {ending c : String} (start : parts <+: tree.absoluteParts path)
    (settles : tree.settle? ending parts.reverse = some c) : c ≠ "" ∧ .up ∉ Path.parts c := by
  induction parts using List.reverseRecOn generalizing ending c with
  | nil => cases settles
  | append_singleton outer part ih =>
    cases found : tree.resolve (Path.ofParts (outer ++ [part]) ++ ending) with
    | ok there =>
      obtain ⟨names, item⟩ := there
      rw [settle?_of_resolve (by simp) found] at settles
      obtain rfl := Option.some.inj settles
      refine ⟨absolute_ne_empty names, ?_⟩
      rw [parts_absolute (proper_of_resolve place found)]
      simp
    | error fault =>
      obtain ⟨_, name, inner, split, -, outerSettles, rfl⟩ := exists_of_settle? settles found
      obtain ⟨rfl, last⟩ := List.append_inj' split rfl
      obtain rfl : part = .name name := List.singleton_inj.mp last
      obtain ⟨full, flat⟩ :=
        ih ((List.prefix_append outer [Path.Part.name name]).trans start) outerSettles
      obtain ⟨inside, behind⟩ : '/' ∉ name.toList ∧ Path.partsBehind name = [.name name] :=
        isPlain_of_mem_of_isPrefix place start (by simp) (by simp)
      refine ⟨Path.join_ne_empty_of_base full name, ?_⟩
      rw [Path.parts_join_of_relative (Path.isAbsolute_of_not_mem inside) full, behind]
      simp [flat]

theorem not_mem_fromRoot (clean : ∀ name ∈ tree.place, '\x00' ∉ name.toList)
    (sound : pathFault? path = none) : '\x00' ∉ (tree.fromRoot path).toList := by
  intro nul
  rw [fromRoot, String.toList_append, List.mem_append] at nul
  rcases nul with start | ending
  · rcases Path.mem_ofParts start with slash | ⟨part, member, inside⟩
    · cases slash
    · rw [absoluteParts_eq, List.mem_cons, List.mem_append] at member
      rcases member with rfl | outer | behind
      · simp [Path.Part.spelling] at inside
      · obtain ⟨name, there, rfl⟩ := List.mem_map.mp outer
        unfold startOf at there
        split at there
        · cases there
        · exact clean name there inside
      · exact (pathFault?_eq_none_iff.mp sound).1 (Path.mem_of_mem_partsBehind behind inside)
  · rcases endingOf_cases path with none | slash
    · simp [none] at ending
    · simp [slash] at ending

/-- Whether a path leads to the directory under some names, also as it is seen from the root. -/
structure IsWayTo (tree : FileTree) (path : String) (names : Names) : Prop where
  there : tree.resolve path = .ok (names, .directory)
  short : (tree.fromRoot path).utf8ByteSize < pathLimit

theorem IsWayTo.settled (place : tree.IsPlace tree.place)
    (clean : ∀ name ∈ tree.place, '\x00' ∉ name.toList) {names : Names} (way : tree.IsWayTo path names) :
    tree.settled path = absolute names := by
  have sound := sound_of_resolve way.there
  have nonempty := tree.absoluteParts_ne_nil path
  have rootSound : pathFault? (tree.fromRoot path) = none := by
    refine pathFault?_eq_none_iff.mpr ⟨not_mem_fromRoot clean sound, ?_, way.short⟩
    intro empty
    rw [fromRoot, String.append_eq_empty_iff] at empty
    exact ofParts_ne_empty place List.prefix_rfl nonempty empty.1
  have enters := (resolve_eq_directory place sound).mp way.there
  rw [settled_eq tree (pathFault?_eq_none_iff.mp sound).2.1, settle?_of_resolve nonempty
    ((resolve_ofParts place List.prefix_rfl nonempty (endingOf_cases path) rootSound).mpr enters)]
  rfl

/-- A directory that is made keeps its settled path where its heel was there before, if it is there
now. -/
theorem settled_eq_iff (rooted : tree.IsRooted) {later : FileTree}
    (made : tree.perform (Change.makeDirectories (Path.bare path)) = (.ok (), later)) :
    later.settled path = tree.settled path ↔
      (later.isPresent (tree.heel path) = true → tree.isPresent (tree.heel path) = true) := by
  have grows := grows_of_made made
  have laterPlace := isPlace_of_grows rooted.place grows
  have same : later.absoluteParts path = tree.absoluteParts path := absoluteParts_of_grows grows
  by_cases full : path = ""
  · subst full
    exact iff_of_true rfl fun _ => isPresent_heel rooted.place (by decide)
  have before := isSome_settle?_iff_heel rooted.place path
  have after := isSome_settle?_iff_heel laterPlace path
  rw [heel, same, ← heel] at after
  rw [settled_eq later full, settled_eq tree full, fromRoot, same, ← fromRoot, ← before, ← after]
  cases settles : tree.settle? (endingOf path) (tree.absoluteParts path).reverse with
  | some c =>
    rw [settle?_of_made rooted made List.prefix_rfl (endingOf_cases path) settles]
    simp
  | none =>
    cases settlesNow : later.settle? (endingOf path) (tree.absoluteParts path).reverse with
    | none => simp
    | some c =>
      refine iff_of_false ?_ (by simp)
      rw [Option.getD_some, Option.getD_none]
      rintro rfl
      have start : tree.absoluteParts path <+: later.absoluteParts path := by rw [same]
      obtain ⟨-, flat⟩ := not_mem_parts_of_settle? laterPlace start settlesNow
      rw [fromRoot, parts_ofParts_append rooted.place List.prefix_rfl
        (tree.absoluteParts_ne_nil path) (endingOf_cases path), mem_absoluteParts_iff] at flat
      rw [settles, isPresent_heel rooted.place flat] at before
      cases before.mpr rfl

end FileTree

end Phrasebook
