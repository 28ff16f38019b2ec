import Mathlib.Data.List.Induction
import Mathlib.Data.List.Lex
import Mathlib.Data.List.Nodup
import Mathlib.Data.Prod.Lex
import Mathlib.Data.String.Basic
import Phrasebook.Files.Path

/-!
The order of paths: a strict order of their parts, in which paths are kept when they are inserted.
-/

set_option autoImplicit false

namespace Phrasebook.Path

def Part.key : Part → ℕ ×ₗ String
  | .root => toLex (0, "")
  | .here => toLex (1, "")
  | .up => toLex (2, "")
  | .name text => toLex (3, text)

theorem Part.key_injective : Function.Injective Part.key := by
  intro a b h
  cases a <;> cases b <;> simp_all [Part.key]

theorem Part.before_iff (a b : Part) : a.before b = true ↔ a.key < b.key := by
  cases a <;> cases b <;> simp [-String.lt_iff_ltb, Part.before, Part.rank, Part.key, Prod.Lex.toLex_lt_toLex]

def rank (path : String) : List (ℕ ×ₗ String) := (parts path).map Part.key

theorem rank_eq_iff {a b : String} : rank a = rank b ↔ parts a = parts b :=
  (List.map_injective_iff.mpr Part.key_injective).eq_iff

theorem partsBefore_iff (a b : List Part) :
    partsBefore a b = true ↔ a.map Part.key < b.map Part.key := by
  fun_induction partsBefore a b with
  | case1 => simp
  | case2 => simp
  | case3 a as b bs ih =>
    rw [List.map_cons, List.map_cons, List.cons_lt_cons_iff, Bool.or_eq_true, Bool.and_eq_true,
      Part.before_iff, beq_iff_eq, ih, Part.key_injective.eq_iff]

theorem before_iff (a b : String) : before a b = true ↔ rank a < rank b :=
  partsBefore_iff _ _

theorem same_iff {a b : String} : same a b = true ↔ parts a = parts b := by simp [same]

theorem mem_insert {path other : String} {paths : List String} (h : other ∈ insert path paths) :
    other = path ∨ other ∈ paths := by
  fun_induction insert path paths with
  | case1 => simpa using h
  | case2 first rest known => exact Or.inr h
  | case3 first rest new smaller =>
    rcases List.mem_cons.mp h with rfl | h
    · exact Or.inl rfl
    · exact Or.inr h
  | case4 first rest new larger ih =>
    rcases List.mem_cons.mp h with rfl | h
    · exact Or.inr (by simp)
    · exact (ih h).imp_right (List.mem_cons_of_mem _)

theorem mem_insert_of_mem {path other : String} {paths : List String} (h : other ∈ paths) :
    other ∈ insert path paths := by
  fun_induction insert path paths with
  | case1 => cases h
  | case2 first rest known => exact h
  | case3 first rest new smaller => exact List.mem_cons_of_mem _ h
  | case4 first rest new larger ih =>
    rcases List.mem_cons.mp h with rfl | h
    · simp
    · exact List.mem_cons_of_mem _ (ih h)

theorem exists_mem_insert (path : String) (paths : List String) :
    ∃ other ∈ insert path paths, parts path = parts other := by
  fun_induction insert path paths with
  | case1 => exact ⟨path, by simp, rfl⟩
  | case2 first rest known => exact ⟨first, by simp, same_iff.mp known⟩
  | case3 first rest new smaller => exact ⟨path, by simp, rfl⟩
  | case4 first rest new larger ih =>
    obtain ⟨other, ho, equal⟩ := ih
    exact ⟨other, List.mem_cons_of_mem _ ho, equal⟩

theorem pairwise_insert {paths : List String} (sorted : (paths.map rank).Pairwise (· < ·))
    (path : String) : ((insert path paths).map rank).Pairwise (· < ·) := by
  fun_induction insert path paths with
  | case1 => simp
  | case2 first rest known => exact sorted
  | case3 first rest new smaller =>
    have less := (before_iff path first).mp smaller
    obtain ⟨others, -⟩ := List.pairwise_cons.mp sorted
    refine List.pairwise_cons.mpr ⟨?_, sorted⟩
    intro other ho
    rcases List.mem_cons.mp ho with rfl | ho
    · exact less
    · exact less.trans (others other ho)
  | case4 first rest new larger ih =>
    obtain ⟨others, below⟩ := List.pairwise_cons.mp sorted
    have greater : rank first < rank path := by
      have different : rank path ≠ rank first := fun h => new (same_iff.mpr (rank_eq_iff.mp h))
      have notLess : ¬rank path < rank first := fun h => larger ((before_iff path first).mpr h)
      exact lt_of_le_of_ne (not_lt.mp notLess) different.symm
    refine List.pairwise_cons.mpr ⟨?_, ih below⟩
    intro other ho
    obtain ⟨spelled, hs, rfl⟩ := List.mem_map.mp ho
    rcases mem_insert hs with rfl | hs
    · exact greater
    · exact others _ (List.mem_map_of_mem hs)

variable {paths known : List String}

theorem mem_foldl_insert {other : String}
    (h : other ∈ paths.foldl (fun known path => insert path known) known) :
    other ∈ known ∨ other ∈ paths := by
  induction paths generalizing known with
  | nil => exact Or.inl h
  | cons path paths ih =>
    rcases ih h with inside | there
    · rcases mem_insert inside with rfl | inside
      · exact Or.inr (by simp)
      · exact Or.inl inside
    · exact Or.inr (by simp [there])

theorem exists_mem_foldl_insert {path : String} (h : path ∈ known ∨ path ∈ paths) :
    ∃ other ∈ paths.foldl (fun known path => insert path known) known, parts path = parts other := by
  induction paths generalizing known path with
  | nil =>
    rcases h with h | h
    · exact ⟨path, h, rfl⟩
    · cases h
  | cons first paths ih =>
    rcases h with h | h
    · exact ih (Or.inl (mem_insert_of_mem h))
    · rcases List.mem_cons.mp h with rfl | h
      · obtain ⟨spelled, hs, equal⟩ := exists_mem_insert path known
        obtain ⟨last, hl, same⟩ := ih (Or.inl hs)
        exact ⟨last, hl, equal.trans same⟩
      · exact ih (Or.inr h)

theorem pairwise_foldl_insert (sorted : (known.map rank).Pairwise (· < ·)) :
    ((paths.foldl (fun known path => insert path known) known).map rank).Pairwise (· < ·) := by
  induction paths generalizing known with
  | nil => exact sorted
  | cons path paths ih => exact ih (pairwise_insert sorted path)

theorem find?_of_mem_foldl_insert {path : String}
    (h : path ∈ paths.foldl (fun known path => insert path known) []) :
    paths.find? (same · path) = some path := by
  induction paths using List.reverseRecOn with
  | nil => cases h
  | append_singleton paths last ih =>
    rw [List.foldl_append] at h
    rw [List.find?_append]
    rcases mem_insert h with rfl | earlier
    · by_cases earlier : path ∈ paths.foldl (fun known path => insert path known) []
      · rw [ih earlier, Option.some_or]
      · -- Were one of the earlier paths the same, it would be there in its place.
        have none_ : paths.find? (same · path) = none := by
          refine List.find?_eq_none.mpr fun other ho equal => earlier ?_
          have listed : other ∈ ([] : List String) ∨ other ∈ paths := Or.inr ho
          obtain ⟨kept, hk, parts⟩ := exists_mem_foldl_insert listed
          have sorted : ((paths.foldl (fun known path => insert path known) []).map rank).Pairwise
              (· < ·) := pairwise_foldl_insert .nil
          have distinct := (pairwise_insert sorted path).imp fun less => ne_of_lt less
          have ranks : rank kept = rank path :=
            rank_eq_iff.mpr (parts.symm.trans (same_iff.mp equal))
          rw [← List.inj_on_of_nodup_map distinct (mem_insert_of_mem hk) h ranks]
          exact hk
        rw [none_, Option.none_or]
        simp [same]
    · rw [ih earlier, Option.some_or]

end Phrasebook.Path
