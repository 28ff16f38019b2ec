import Phrasebook.Proofs.Files.Settled
import Phrasebook.Proofs.Localization.Registry

/-!
Localizers for directories that are made only after they are asked for. The localizer for a directory is
still the same one afterwards, unless two points follow a missing name in the path.
-/

set_option autoImplicit false

namespace Phrasebook.Registry

namespace State

variable {state : State} {number : Nat} {localizer : Localizer}

theorem exists_localizer?_of_acquire (state : State) (name path : String) :
    ∃ number localizer, (state.next (.acquire name path)).localizer? number = some localizer ∧
      (state.registry.acquire state.tree name path).1 = localizer ∧
      Path.same localizer.directory (state.tree.settled path) = true := by
  obtain ⟨found, taken, given⟩ | ⟨-, made⟩ := acquire_cases state.registry state.tree name path
  · obtain ⟨number, there, same⟩ := exists_of_find? taken
    refine ⟨number, found, ?_, by rw [given], same⟩
    simpa only [next, given, localizer?] using there
  · refine ⟨state.registry.localizers.length, _, ?_, by rw [made], by simp [Path.same]⟩
    simp [next, made, localizer?]

theorem exists_localizer?_next (distinct : state.IsDistinct)
    (here : state.localizer? number = some localizer) (event : Event) :
    ∃ kept, (state.next event).localizer? number = some kept ∧
      kept.directory = localizer.directory := by
  by_cases reloads : event.Reloads number
  · exact ⟨_, localizer?_next_of_reloads here reloads, rfl⟩
  · exact ⟨_, localizer?_next_of_not_reloads distinct here reloads, rfl⟩

end State

theorem exists_localizer?_after {start : FileTree} {events : List Event} {number : Nat}
    {localizer : Localizer} (here : (after start events).localizer? number = some localizer)
    (rest : List Event) :
    ∃ kept, (after start (events ++ rest)).localizer? number = some kept ∧
      kept.directory = localizer.directory := by
  induction rest using List.reverseRecOn with
  | nil => exact ⟨localizer, by rwa [List.append_nil], rfl⟩
  | append_singleton rest event ih =>
    obtain ⟨kept, there, same⟩ := ih
    obtain ⟨last, found, again⟩ :=
      State.exists_localizer?_next (isDistinct_after start _) there event
    rw [← List.append_assoc, after_concat]
    exact ⟨last, found, again.trans same⟩

/-- A localizer is had again in a later tree by a path with the settled path that it was asked for by. -/
theorem acquire_again {tree later : FileTree} {path other : String}
    (same : later.settled other = tree.settled path) {start : FileTree} {events : List Event}
    (now : (after start events).tree = tree) (first : String) :
    ∃ number, (after start (events ++ [.acquire first path])).localizer? number =
        some ((after start events).registry.acquire tree first path).1 ∧
      ∀ rest second, let state := after start (events ++ .acquire first path :: rest)
        state.tree = later → ∃ localizer, state.localizer? number = some localizer ∧
          state.registry.acquire later second other = (localizer, state.registry) := by
  subst now
  obtain ⟨number, localizer, here, given, own⟩ :=
    State.exists_localizer?_of_acquire (after start events) first path
  rw [← after_concat] at here
  refine ⟨number, by rw [here, given], ?_⟩
  intro rest second state after
  obtain ⟨kept, there, directory⟩ := exists_localizer?_after here rest
  rw [List.append_assoc, List.singleton_append] at there
  rw [← directory, ← same, ← after] at own
  have distinct : state.IsDistinct := isDistinct_after start _
  obtain ⟨again, -⟩ := State.acquire_of_same distinct there own second
  rw [after] at again
  exact ⟨kept, there, again⟩

/-- A directory keeps its settled path when it is made exactly if the part of the path up to its last two
points is there before, unless it is not even there afterwards; without two points it is. The localizer
that was had by the path before is then had by every path to the directory, whatever comes between. -/
theorem acquire_of_made {tree later : FileTree} {path : String} (rooted : tree.IsRooted)
    (made : tree.perform (Change.makeDirectories (Path.bare path)) = (.ok (), later)) :
    (later.settled path = tree.settled path ↔
      (later.isPresent (tree.heel path) = true → tree.isPresent (tree.heel path) = true)) ∧
    (.up ∉ Path.parts path → tree.isPresent (tree.heel path) = true) ∧
    (tree.isPresent (tree.heel path) = true →
      ∀ other names, later.IsWayTo path names → later.IsWayTo other names →
        ∀ start events, (after start events).tree = tree → ∀ first,
          ∃ number, (after start (events ++ [.acquire first path])).localizer? number =
              some ((after start events).registry.acquire tree first path).1 ∧
            ∀ rest second, let state := after start (events ++ .acquire first path :: rest)
              state.tree = later → ∃ localizer, state.localizer? number = some localizer ∧
                state.registry.acquire later second other = (localizer, state.registry)) := by
  have same := FileTree.settled_eq_iff rooted made
  refine ⟨same, FileTree.isPresent_heel rooted.place, fun present other names way otherWay => ?_⟩
  have grows := FileTree.grows_of_made made
  have place := FileTree.isPlace_of_grows rooted.place grows
  have clean : ∀ name ∈ later.place, '\x00' ∉ name.toList := by
    rw [grows.place]
    exact rooted.clean
  have settled : later.settled other = tree.settled path := by
    rw [otherWay.settled place clean, ← way.settled place clean]
    exact same.mpr fun _ => present
  exact fun start events now first => acquire_again settled now first

def linkedTree : FileTree where
  items := [(["real"], .directory), (["link"], .link "real")]

namespace Linked

open FileTree

private def madeTree : FileTree := linkedTree.put ["real", "locales"] .directory

private theorem walk_linked {tree : FileTree} (linked : tree.item? ([] ++ ["link"]) = some (.link "real"))
    {rest : List String} {names : Names} (h : tree.descend [] ("real" :: rest) = some names) :
    tree.walk true linkLimit [] ("link" :: rest) = .ok (.item names .directory) := by
  rw [linkLimit, walk_link (by decide) (Or.inr rfl) linked]
  exact walk_of_descend h true _

private theorem perform_makeDirectories_linked :
    linkedTree.perform (Change.makeDirectories (Path.bare "link/locales")) = (.ok (), madeTree) := by
  have bare : Path.bare "link/locales" = "link/locales" := by decide
  have ancestors : Change.withAncestors "link/locales" = ["link/locales", "link", ""] := by decide
  have last : (piecesOf "link/locales").getLast? = some "locales" := by decide
  have pieces : (piecesOf "link/locales").dropLast = ["link"] := by decide
  have sound : pathFault? "link/locales" = none := by decide
  have followed : linkedTree.walk true linkLimit (linkedTree.startOf "link/locales") ["link"] =
      .ok (.item ["real"] .directory) :=
    walk_linked (by decide) (by decide)
  have way : linkedTree.wayIn "link/locales" = .ok ["real"] := by
    rw [wayIn, sound, pieces]
    simp only
    rw [followed]
    rfl
  have free := locate_of_vacant last (by decide) way (by decide) false
  rw [bare, Change.makeDirectories, ancestors, perform_makeFirst_cons,
    perform_ensureDirectory_of_free free]
  rfl

private theorem isWayTo_linked : madeTree.IsWayTo "link/locales" ["real", "locales"] := by
  refine ⟨?_, by decide⟩
  have pieces : piecesOf "link/locales" = ["link", "locales"] := by decide
  have sound : pathFault? "link/locales" = none := by decide
  rw [resolve_eq_ok, locate_eq, sound, pieces]
  exact walk_linked (by decide) (by decide)

theorem acquire_of_linked :
    ∃ later, linkedTree.IsRooted ∧
      linkedTree.perform (Change.makeDirectories (Path.bare "link/locales")) = (.ok (), later) ∧
      later.settled "link/locales" = linkedTree.settled "link/locales" ∧
      ∃ number localizer,
        let state := after linkedTree [.acquire "before" "link/locales", .change later]
        state.localizer? number = some localizer ∧
          state.registry.acquire later "after" "real/locales" = (localizer, state.registry) := by
  have rooted : linkedTree.IsRooted := isRooted_of_items rfl (by decide)
  have direct : madeTree.IsWayTo "real/locales" ["real", "locales"] :=
    ⟨resolve_of_descend (by decide) (by decide), by decide⟩
  obtain ⟨same, flat, kept⟩ := acquire_of_made rooted perform_makeDirectories_linked
  have present := flat (by decide)
  obtain ⟨number, -, again⟩ :=
    kept present "real/locales" _ isWayTo_linked direct linkedTree [] rfl "before"
  obtain ⟨localizer, there, had⟩ := again [.change madeTree] "after" rfl
  exact ⟨madeTree, rooted, perform_makeDirectories_linked, same.mpr fun _ => present, number,
    localizer, there, had⟩

end Linked

namespace Doubled

open FileTree

private def outerTree : FileTree := ({} : FileTree).put ["a"] .directory

private def madeTree : FileTree := outerTree.put ["b"] .directory

private theorem locate_missing {path : String} (sound : pathFault? path = none) {rest : List String}
    (pieces : piecesOf path = "a" :: rest ∨ piecesOf path = "" :: "a" :: rest) (more : rest ≠ [])
    (followsLast : Bool) : ({} : FileTree).locate followsLast path = .error .notFound := by
  have start : ({} : FileTree).startOf path = [] := by
    unfold startOf
    split <;> rfl
  rw [locate_eq, sound]
  simp only
  rw [start]
  rcases pieces with bare | rooted
  · rw [bare]
    exact walk_missing (by decide) more (by decide)
  · rw [rooted, walk_void _ _ _ _ (Or.inl rfl)]
    exact walk_missing (by decide) more (by decide)

private theorem perform_makeDirectories_doubled :
    ({} : FileTree).perform (Change.makeDirectories (Path.bare "a/../b")) = (.ok (), madeTree) := by
  have bare : Path.bare "a/../b" = "a/../b" := by decide
  have ancestors : Change.withAncestors "a/../b" = ["a/../b", "a/..", "a", ""] := by decide
  have missing : piecesOf "a/../b" = ["a", "..", "b"] := by decide
  have first : ({} : FileTree).perform (Change.ensureDirectory "a/../b") = (.error .notFound, {}) :=
    perform_ensureDirectory_of_error (locate_missing (by decide) (Or.inl missing) (by simp))
  have above : piecesOf "a/.." = ["a", ".."] := by decide
  have second : ({} : FileTree).perform (Change.ensureDirectory "a/..") = (.error .notFound, {}) :=
    perform_ensureDirectory_of_error (locate_missing (by decide) (Or.inl above) (by simp))
  have third : ({} : FileTree).perform (Change.ensureDirectory "a") = (.ok (), outerTree) := by
    have last : (piecesOf "a").getLast? = some "a" := by decide
    have way : ({} : FileTree).wayIn "a" = .ok [] := wayIn_of_descend (by decide) (by decide)
    exact perform_ensureDirectory_of_free (locate_of_vacant last (by decide) way (by decide) false)
  have fourth : outerTree.perform (Change.ensureDirectory "a/..") = (.ok (), outerTree) :=
    perform_ensureDirectory_of_isDirectory
      (isDirectory_of_descend (by decide) (by decide : _ = some []))
  have fifth : outerTree.perform (Change.ensureDirectory "a/../b") = (.ok (), madeTree) := by
    have last : (piecesOf "a/../b").getLast? = some "b" := by decide
    have way : outerTree.wayIn "a/../b" = .ok [] := wayIn_of_descend (by decide) (by decide)
    exact perform_ensureDirectory_of_free (locate_of_vacant last (by decide) way (by decide) false)
  simp [Change.makeDirectories, bare, ancestors, perform_makeFirst_cons, first, second, third, fourth,
    fifth]

/-- A second localizer is had by the same path after its directory is made. -/
theorem acquire_of_doubled :
    ∃ later, ({} : FileTree).IsRooted ∧
      ({} : FileTree).perform (Change.makeDirectories (Path.bare "a/../b")) = (.ok (), later) ∧
      ({} : FileTree).settled "a/../b" = "/a/../b" ∧ later.settled "a/../b" = "/b" ∧
      (after {} [.acquire "before" "a/../b", .change later,
        .acquire "after" "a/../b"]).registry.localizers.map (·.directory) = ["/a/../b", "/b"] := by
  have rooted : ({} : FileTree).IsRooted := isRooted_of_items rfl (by simp)
  have absent : ({} : FileTree).isPresent (({} : FileTree).heel "a/../b") = false := by
    have heel : ({} : FileTree).heel "a/../b" = "/a/.." := by decide
    have pieces : piecesOf "/a/.." = ["", "a", ".."] := by decide
    rw [heel, isPresent, resolve, locate_missing (by decide) (Or.inr pieces) (by simp)]
    rfl
  have before : ({} : FileTree).settled "a/../b" = "/a/../b" := by
    rw [settled_of_absent rooted.place (by decide) absent]
    decide
  have made : madeTree.IsRooted := isRooted_of_items rfl (by decide)
  have now : madeTree.settled "a/../b" = "/b" := by
    have way : madeTree.IsWayTo "a/../b" ["b"] :=
      ⟨resolve_of_descend (by decide) (by decide), by decide⟩
    rw [way.settled made.place made.clean]
    decide
  refine ⟨madeTree, rooted, perform_makeDirectories_doubled, before, now, ?_⟩
  have apart : Path.same "/a/../b" "/b" = false := by decide
  simp [after, State.next, acquire, find?, before, now, apart]

end Doubled

end Phrasebook.Registry
