import Mathlib.Data.List.Induction
import Phrasebook.Localization.Registry

/-!
Localizers over whole runs, in which localizers are asked for, loaded again and looked up in while the
files change: which localizers there are, and as of when each one has its texts.
-/

set_option autoImplicit false

namespace Phrasebook.Registry

/-- What happens in a run. A localizer goes by its number in the order in which localizers were made. -/
inductive Event
  | acquire (name path : String)
  | reload (number : Nat)
  | reloadAll
  | lookUp (number : Nat) (key locale : String)
  | change (tree : FileTree)

def Event.Reloads (number : Nat) : Event → Prop
  | reload other => other = number
  | reloadAll => True
  | _ => False

structure State where
  tree : FileTree
  registry : Registry := {}

namespace State

def localizer? (state : State) (number : Nat) : Option Localizer :=
  state.registry.localizers[number]?

/-- What looking up a key in a localizer gives: its text in one locale and in all of them. -/
def lookUp (state : State) (number : Nat) (key locale : String) : Option Localized :=
  (state.localizer? number).map fun localizer => localizer.localizeIn key locale

def next (state : State) : Event → State
  | .acquire name path => { state with registry := (state.registry.acquire state.tree name path).2 }
  | .reload number =>
    match state.localizer? number with
    | some localizer =>
      { state with registry := state.registry.reload state.tree localizer.directory }
    | none => state
  | .reloadAll => { state with registry := state.registry.reloadAll state.tree }
  | .lookUp .. => state
  | .change tree => { state with tree }

def Makes (state : State) (number : Nat) (event : Event) : Prop :=
  state.localizer? number = none ∧ ((state.next event).localizer? number).isSome

def IsDistinct (state : State) : Prop :=
  ∀ i j a b, state.localizer? i = some a → state.localizer? j = some b →
    Path.same a.directory b.directory = true → i = j

end State

def after (start : FileTree) (events : List Event) : State := events.foldl State.next { tree := start }

/-- Whether a localizer was made under a name and for a directory: the settled path that it was asked
for by, as of then. -/
def IsMadeAs (start : FileTree) (events : List Event) (number : Nat) (name directory : String) : Prop :=
  ∃ before path later, events = before ++ .acquire name path :: later ∧
    (after start before).Makes number (.acquire name path) ∧
    directory = (after start before).tree.settled path

/-- Whether a localizer was loaded last from a tree: the one that was there when it was made, or at the
last event that loaded it again. -/
def IsLoadedFrom (start : FileTree) (events : List Event) (number : Nat) (tree : FileTree) : Prop :=
  ∃ before event later, events = before ++ event :: later ∧
    (after start before).tree = tree ∧
    ((after start before).Makes number event ∨
      ((after start before).localizer? number).isSome ∧ event.Reloads number) ∧
    ∀ other ∈ later, ¬ other.Reloads number

theorem acquire_cases (registry : Registry) (tree : FileTree) (name path : String) :
    (∃ found, registry.find? (tree.settled path) = some found ∧
      registry.acquire tree name path = (found, registry)) ∨
    registry.find? (tree.settled path) = none ∧
      let made : Localizer :=
        ⟨name, tree.settled path, Texts.load tree (tree.settled path)⟩
      registry.acquire tree name path = (made, ⟨registry.localizers ++ [made]⟩) := by
  cases found : registry.find? (tree.settled path) with
  | some localizer => exact Or.inl ⟨localizer, rfl, by simp only [acquire, found]⟩
  | none => exact Or.inr ⟨rfl, by simp only [acquire, found]⟩

theorem find?_eq_none_iff {registry : Registry} {directory : String} :
    registry.find? directory = none ↔
      ∀ (number : Nat) (known : Localizer), registry.localizers[number]? = some known →
        Path.same known.directory directory = false := by
  unfold find?
  rw [List.find?_eq_none]
  constructor
  · intro h number known found
    simpa using h known (List.mem_of_getElem? found)
  · intro h known member
    obtain ⟨number, found⟩ := List.mem_iff_getElem?.mp member
    simp [h number known found]

theorem exists_of_find? {registry : Registry} {directory : String} {found : Localizer}
    (h : registry.find? directory = some found) :
    ∃ number : Nat, registry.localizers[number]? = some found ∧
      Path.same found.directory directory = true := by
  obtain ⟨number, there⟩ := List.mem_iff_getElem?.mp (List.mem_of_find?_eq_some h)
  exact ⟨number, there, by simpa using List.find?_some h⟩

namespace State

variable {state : State} {event : Event} {number : Nat} {localizer : Localizer}

private theorem getElem?_map {localizers : List Localizer} {change : Localizer → Localizer}
    (h : localizers[number]? = some localizer) :
    (localizers.map change)[number]? = some (change localizer) := by
  rw [List.getElem?_map, h]
  rfl

theorem localizer?_next_of_reloads (h : state.localizer? number = some localizer)
    (reloads : event.Reloads number) :
    (state.next event).localizer? number = some (localizer.reload state.tree) := by
  cases event with
  | reload other =>
    obtain rfl : other = number := reloads
    simp only [next, h]
    refine (getElem?_map h).trans ?_
    simp [Path.same]
  | reloadAll => exact getElem?_map h
  | _ => cases reloads

theorem localizer?_next_of_not_reloads (distinct : state.IsDistinct)
    (h : state.localizer? number = some localizer) (other : ¬ event.Reloads number) :
    (state.next event).localizer? number = some localizer := by
  cases event with
  | acquire name path =>
    obtain ⟨found, -, same⟩ | ⟨-, made⟩ := acquire_cases state.registry state.tree name path
    · simpa only [next, same] using h
    · obtain ⟨inside, -⟩ := List.getElem?_eq_some_iff.mp h
      simp only [next, made, localizer?]
      rw [List.getElem?_append_left inside]
      exact h
  | reload reloaded =>
    cases found : state.localizer? reloaded with
    | none => simpa only [next, found] using h
    | some target =>
      have apart : ¬ Path.same localizer.directory target.directory = true := fun same =>
        other (distinct number reloaded localizer target h found same).symm
      simp only [next, found]
      refine (getElem?_map h).trans ?_
      rw [if_neg apart]
  | reloadAll => exact absurd trivial other
  | lookUp number key locale => exact h
  | change tree => exact h

theorem exists_of_makes (made : state.Makes number event) :
    ∃ name path, event = .acquire name path ∧ number = state.registry.localizers.length ∧
      state.registry.find? (state.tree.settled path) = none ∧
      (state.next event).localizer? number =
        some ⟨name, state.tree.settled path, Texts.load state.tree (state.tree.settled path)⟩ := by
  obtain ⟨absent, there⟩ := made
  have outside : state.registry.localizers.length ≤ number := List.getElem?_eq_none_iff.mp absent
  have inside : number < (state.next event).registry.localizers.length := by
    obtain ⟨localizer, found⟩ := Option.isSome_iff_exists.mp there
    exact (List.getElem?_eq_some_iff.mp found).1
  cases event with
  | acquire name path =>
    obtain ⟨found, -, same⟩ | ⟨free, new⟩ := acquire_cases state.registry state.tree name path
    · simp only [next, same] at inside
      omega
    · simp only [next, new, List.length_append, List.length_singleton] at inside
      obtain rfl : number = state.registry.localizers.length := by omega
      refine ⟨name, path, rfl, rfl, free, ?_⟩
      simp [next, new, localizer?]
  | reload other =>
    have length : (state.next (.reload other)).registry.localizers.length =
        state.registry.localizers.length := by
      simp only [next]
      split
      · exact List.length_map _
      · rfl
    omega
  | reloadAll =>
    simp only [next, reloadAll, List.length_map] at inside
    omega
  | lookUp other key locale => exact absurd inside (by simpa [next] using outside)
  | change tree => exact absurd inside (by simpa [next] using outside)

/-- What a localizer is after an event: it was made by the event, or it is the one that was there before,
perhaps with new texts. -/
theorem localizer?_next_cases (distinct : state.IsDistinct)
    (h : (state.next event).localizer? number = some localizer) :
    state.Makes number event ∨
      ∃ old, state.localizer? number = some old ∧
        (event.Reloads number ∧ localizer = old.reload state.tree ∨
          ¬ event.Reloads number ∧ localizer = old) := by
  cases before : state.localizer? number with
  | none => exact Or.inl ⟨before, by rw [h]; rfl⟩
  | some old =>
    refine Or.inr ⟨old, rfl, ?_⟩
    by_cases reloads : event.Reloads number
    · refine Or.inl ⟨reloads, Option.some.inj ?_⟩
      rw [← h, localizer?_next_of_reloads before reloads]
    · refine Or.inr ⟨reloads, Option.some.inj ?_⟩
      rw [← h, localizer?_next_of_not_reloads distinct before reloads]

theorem isDistinct_next (distinct : state.IsDistinct) (event : Event) :
    (state.next event).IsDistinct := by
  -- A localizer that is made has a directory that no other one has.
  have apart : ∀ {number other made known}, state.Makes number event →
      (state.next event).localizer? number = some made → state.localizer? other = some known →
      Path.same known.directory made.directory = false := by
    intro number other made known makes found before
    obtain ⟨name, path, -, -, free, new⟩ := exists_of_makes makes
    obtain rfl := Option.some.inj (new.symm.trans found)
    exact find?_eq_none_iff.mp free other known before
  have commutes : ∀ a b, Path.same a b = Path.same b a := fun a b => by
    unfold Path.same
    exact Bool.beq_comm
  intro i j a b ha hb same
  obtain makesA | ⟨oldA, beforeA, stepA⟩ := localizer?_next_cases distinct ha
  · obtain makesB | ⟨oldB, beforeB, stepB⟩ := localizer?_next_cases distinct hb
    · obtain ⟨-, -, -, rfl, -⟩ := exists_of_makes makesA
      obtain ⟨-, -, -, rfl, -⟩ := exists_of_makes makesB
      rfl
    · have directory : b.directory = oldB.directory := by
        rcases stepB with ⟨-, rfl⟩ | ⟨-, rfl⟩ <;> rfl
      rw [directory, commutes, apart makesA ha beforeB] at same
      cases same
  · have directoryA : a.directory = oldA.directory := by
      rcases stepA with ⟨-, rfl⟩ | ⟨-, rfl⟩ <;> rfl
    obtain makesB | ⟨oldB, beforeB, stepB⟩ := localizer?_next_cases distinct hb
    · rw [directoryA, apart makesB hb beforeA] at same
      cases same
    · have directoryB : b.directory = oldB.directory := by
        rcases stepB with ⟨-, rfl⟩ | ⟨-, rfl⟩ <;> rfl
      rw [directoryA, directoryB] at same
      exact distinct i j oldA oldB beforeA beforeB same

theorem acquire_of_same (distinct : state.IsDistinct) {path : String}
    (here : state.localizer? number = some localizer)
    (same : Path.same localizer.directory (state.tree.settled path) = true) (name : String) :
    state.registry.acquire state.tree name path = (localizer, state.registry) ∧
      state.registry.acquireEvents state.tree name path = [] := by
  obtain ⟨found, taken, given⟩ | ⟨free, -⟩ := acquire_cases state.registry state.tree name path
  · obtain ⟨place, there, agrees⟩ := exists_of_find? taken
    -- Both are for the directory that is asked for, so they are one.
    have one : Path.same localizer.directory found.directory = true := by
      rw [Path.same, beq_iff_eq] at same agrees ⊢
      exact same.trans agrees.symm
    obtain rfl := distinct number place localizer found here there one
    obtain rfl := Option.some.inj (there.symm.trans here)
    exact ⟨given, by simp only [acquireEvents, taken]⟩
  · rw [find?_eq_none_iff.mp free number localizer here] at same
    cases same

theorem acquire_of_free {path : String}
    (free : ∀ number known, state.localizer? number = some known →
      Path.same known.directory (state.tree.settled path) = false) (name : String) :
    state.registry.acquire state.tree name path =
      (⟨name, state.tree.settled path, Texts.load state.tree (state.tree.settled path)⟩,
        ⟨state.registry.localizers ++
          [⟨name, state.tree.settled path, Texts.load state.tree (state.tree.settled path)⟩]⟩) := by
  obtain ⟨found, taken, -⟩ | ⟨-, made⟩ := acquire_cases state.registry state.tree name path
  · rw [find?_eq_none_iff.mpr free] at taken
    cases taken
  · exact made

end State

section Runs

variable {start : FileTree} {events : List Event} {number : Nat} {localizer : Localizer}

theorem after_concat (start : FileTree) (events : List Event) (event : Event) :
    after start (events ++ [event]) = (after start events).next event := by
  simp [after]

theorem isDistinct_after (start : FileTree) (events : List Event) :
    (after start events).IsDistinct := by
  induction events using List.reverseRecOn with
  | nil =>
    intro i j a b ha
    cases ha
  | append_singleton events event ih =>
    rw [after_concat]
    exact State.isDistinct_next ih event

theorem IsMadeAs.concat {name directory : String} (made : IsMadeAs start events number name directory)
    (event : Event) : IsMadeAs start (events ++ [event]) number name directory := by
  obtain ⟨before, path, later, rfl, makes, settled⟩ := made
  exact ⟨before, path, later ++ [event], by simp, makes, settled⟩

/-- The name, the directory and the texts of a localizer, by the events of the run that they come
from. -/
theorem exists_of_localizer? (h : (after start events).localizer? number = some localizer) :
    IsMadeAs start events number localizer.name localizer.directory ∧
      ∃ tree, IsLoadedFrom start events number tree ∧
        localizer.texts = Texts.load tree localizer.directory := by
  induction events using List.reverseRecOn generalizing localizer with
  | nil => cases h
  | append_singleton events event ih =>
    rw [after_concat] at h
    obtain makes | ⟨old, before, step⟩ := State.localizer?_next_cases (isDistinct_after start events) h
    · obtain ⟨name, path, rfl, -, -, new⟩ := State.exists_of_makes makes
      obtain rfl := Option.some.inj (new.symm.trans h)
      exact ⟨⟨events, path, [], rfl, makes, rfl⟩, (after start events).tree,
        ⟨events, _, [], rfl, rfl, Or.inl makes, by simp⟩, rfl⟩
    · obtain ⟨made, tree, ⟨earlier, last, later, split, there, loads, quiet⟩, texts⟩ := ih before
      obtain ⟨reloads, rfl⟩ | ⟨other, rfl⟩ := step
      · refine ⟨made.concat event, (after start events).tree, ?_, rfl⟩
        exact ⟨events, event, [], rfl, rfl, Or.inr ⟨by rw [before]; rfl, reloads⟩, by simp⟩
      · refine ⟨made.concat event, tree, ?_, texts⟩
        refine ⟨earlier, last, later ++ [event], by simp [split], there, loads, ?_⟩
        intro next member
        rcases List.mem_append.mp member with member | member
        · exact quiet next member
        · rw [List.mem_singleton.mp member]
          exact other

/-- Localizers over whole runs. At most one localizer is for a directory. Each one keeps the name and the
directory that it was made with, and has the texts that its directory held as of the last time it was made
or loaded again. Asking for a directory gives the localizer that is for it as it is, and reads nothing,
exactly if there is one. An event that does not load a localizer again, whether the files change or others
are loaded, changes no lookup in it. -/
theorem localizers_of_run (start : FileTree) (events : List Event) :
    let state := after start events
    (∀ i j a b, state.localizer? i = some a → state.localizer? j = some b →
      Path.same a.directory b.directory = true → i = j) ∧
    (∀ number localizer, state.localizer? number = some localizer →
      IsMadeAs start events number localizer.name localizer.directory ∧
        ∃ tree, IsLoadedFrom start events number tree ∧
          localizer.texts = Texts.load tree localizer.directory) ∧
    (∀ name path,
      let directory := state.tree.settled path
      let result := state.registry.acquire state.tree name path
      (∀ number known, state.localizer? number = some known →
        Path.same known.directory directory = true →
          result = (known, state.registry) ∧
            state.registry.acquireEvents state.tree name path = []) ∧
      ((∀ number known, state.localizer? number = some known →
        Path.same known.directory directory = false) →
          result.1 = ⟨name, directory, Texts.load state.tree directory⟩ ∧
            result.2.localizers = state.registry.localizers ++ [result.1])) ∧
    (∀ event number localizer, state.localizer? number = some localizer →
      (event.Reloads number →
        (state.next event).localizer? number = some (localizer.reload state.tree)) ∧
      (¬ event.Reloads number →
        (state.next event).localizer? number = some localizer ∧
          ∀ key locale, (state.next event).lookUp number key locale = state.lookUp number key locale)) := by
  intro state
  have distinct : state.IsDistinct := isDistinct_after start events
  refine ⟨distinct, fun number localizer h => exists_of_localizer? h, ?_, ?_⟩
  · intro name path directory result
    refine ⟨fun number known here same => State.acquire_of_same distinct here same name, fun free => ?_⟩
    have made : result = _ := State.acquire_of_free free name
    rw [made]
    exact ⟨rfl, rfl⟩
  · intro event number localizer h
    refine ⟨State.localizer?_next_of_reloads h, fun other => ?_⟩
    have same := State.localizer?_next_of_not_reloads distinct h other
    refine ⟨same, fun key locale => ?_⟩
    rw [State.lookUp, State.lookUp, same, h]

end Runs

end Phrasebook.Registry
