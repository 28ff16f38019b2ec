import Mathlib.Data.List.Nodup
import Phrasebook.Pairs

/-!
Names and lookups in lists of pairs, as pairs are put in one after the other.
-/

set_option autoImplicit false

namespace Phrasebook.Pairs

variable {α β : Type} {name : String} {value : α} {pairs : List (String × α)}

theorem mem_of_lookup (h : pairs.lookup name = some value) : (name, value) ∈ pairs := by
  obtain ⟨before, after, rfl, -⟩ := List.lookup_eq_some_iff.mp h
  simp

theorem lookup_map (names : List String) (make : String → α) (name : String) :
    (names.map fun name => (name, make name)).lookup name =
      if name ∈ names then some (make name) else none := by
  induction names with
  | nil => rfl
  | cons first names ih =>
    rw [List.map_cons, List.lookup_cons, ih]
    by_cases here : name = first
    · simp [here]
    · simp [here, beq_false_of_ne here]

theorem lookup_eq_none_of_not_mem (absent : name ∉ pairs.map (·.1)) : pairs.lookup name = none := by
  cases found : pairs.lookup name with
  | none => rfl
  | some value => exact absurd (List.mem_map_of_mem (mem_of_lookup found)) absent

theorem eq_map_of_lookup {make : String → α} (distinct : (pairs.map (·.1)).Nodup)
    (found : ∀ name ∈ pairs.map (·.1), pairs.lookup name = some (make name)) :
    pairs = (pairs.map (·.1)).map fun name => (name, make name) := by
  induction pairs with
  | nil => rfl
  | cons pair pairs ih =>
    rw [List.map_cons] at distinct found
    obtain ⟨absent, distinct⟩ := List.nodup_cons.mp distinct
    have here := found pair.1 List.mem_cons_self
    rw [List.lookup_cons, beq_self_eq_true] at here
    have rest : ∀ name ∈ pairs.map (·.1), pairs.lookup name = some (make name) := by
      intro name member
      have other : name ≠ pair.1 := fun same => absent (same ▸ member)
      have below := found name (List.mem_cons_of_mem _ member)
      rwa [List.lookup_cons, beq_false_of_ne other] at below
    rw [List.map_cons, List.map_cons, ← ih distinct rest, ← Option.some.inj here]

theorem mem_map_fst_put {other : String} :
    other ∈ (put name value pairs).map (·.1) ↔ other = name ∨ other ∈ pairs.map (·.1) := by
  fun_induction put name value pairs with
  | case1 => simp
  | case2 first rest same => simp [same]
  | case3 first rest different ih =>
    rw [List.map_cons, List.mem_cons, ih, List.map_cons, List.mem_cons, or_left_comm]

theorem mem_put {pair : String × α} (h : pair ∈ put name value pairs) :
    pair = (name, value) ∨ pair ∈ pairs := by
  fun_induction put name value pairs with
  | case1 => simpa using h
  | case2 first rest same =>
    rcases List.mem_cons.mp h with here | below
    · exact Or.inl here
    · exact Or.inr (List.mem_cons_of_mem _ below)
  | case3 first rest different ih =>
    rcases List.mem_cons.mp h with rfl | below
    · exact Or.inr List.mem_cons_self
    · exact (ih below).imp_right (List.mem_cons_of_mem _)

theorem map_fst_put_of_mem (there : name ∈ pairs.map (·.1)) :
    (put name value pairs).map (·.1) = pairs.map (·.1) := by
  fun_induction put name value pairs with
  | case1 => cases there
  | case2 first rest same => simp [same]
  | case3 first rest different ih =>
    rcases List.mem_cons.mp there with here | below
    · exact absurd here.symm different
    · rw [List.map_cons, ih below, List.map_cons]

theorem nodup_put (distinct : (pairs.map (·.1)).Nodup) : ((put name value pairs).map (·.1)).Nodup := by
  fun_induction put name value pairs with
  | case1 => simp
  | case2 first rest same => simpa [same] using distinct
  | case3 first rest different ih =>
    rw [List.map_cons, List.nodup_cons] at distinct ⊢
    refine ⟨fun member => ?_, ih distinct.2⟩
    rcases mem_map_fst_put.mp member with same | below
    · exact different same
    · exact distinct.1 below

theorem lookup_put (name : String) (value : α) (pairs : List (String × α)) (other : String) :
    (put name value pairs).lookup other = if other = name then some value else pairs.lookup other := by
  fun_induction put name value pairs with
  | case1 =>
    by_cases here : other = name
    · simp [here]
    · simp [List.lookup_cons, here, beq_false_of_ne here]
  | case2 first rest same =>
    rw [List.lookup_cons, List.lookup_cons]
    by_cases here : other = name
    · simp [here]
    · simp [same, here, beq_false_of_ne here]
  | case3 first rest different ih =>
    rw [List.lookup_cons, List.lookup_cons, ih]
    by_cases there : other = first.1
    · simp [there, different]
    · simp [beq_false_of_ne there]

theorem put_of_not_mem (absent : name ∉ pairs.map (·.1)) :
    put name value pairs = pairs ++ [(name, value)] := by
  fun_induction put name value pairs with
  | case1 => rfl
  | case2 first rest same => simp [same] at absent
  | case3 first rest different ih =>
    have below : name ∉ rest.map (·.1) := fun h => absent (List.mem_cons_of_mem _ h)
    rw [ih below, List.cons_append]

section Several

variable (change : String × α → β) {done : List (String × β)}

theorem mem_map_fst_foldl_put :
    name ∈ (pairs.foldl (fun all pair => put pair.1 (change pair) all) done).map (·.1) ↔
      name ∈ done.map (·.1) ∨ name ∈ pairs.map (·.1) := by
  induction pairs generalizing done with
  | nil => simp
  | cons pair pairs ih =>
    rw [List.foldl_cons, ih, mem_map_fst_put, List.map_cons, List.mem_cons, or_assoc, or_left_comm]

theorem nodup_foldl_put (distinct : (done.map (·.1)).Nodup) :
    ((pairs.foldl (fun all pair => put pair.1 (change pair) all) done).map (·.1)).Nodup := by
  induction pairs generalizing done with
  | nil => exact distinct
  | cons pair pairs ih => exact ih (nodup_put distinct)

theorem lookup_foldl_put (distinct : (pairs.map (·.1)).Nodup) (name : String) :
    (pairs.foldl (fun all pair => put pair.1 (change pair) all) done).lookup name =
      ((pairs.lookup name).map fun value => change (name, value)).or (done.lookup name) := by
  induction pairs generalizing done with
  | nil => rfl
  | cons pair pairs ih =>
    obtain ⟨absent, distinct⟩ := List.nodup_cons.mp distinct
    rw [List.foldl_cons, ih distinct, lookup_put, List.lookup_cons]
    by_cases here : name = pair.1
    · subst here
      simp [lookup_eq_none_of_not_mem absent]
    · simp [here, beq_false_of_ne here]

private theorem foldl_put_eq_append (distinct : (done.map (·.1) ++ pairs.map (·.1)).Nodup) :
    pairs.foldl (fun all pair => put pair.1 (change pair) all) done =
      done ++ pairs.map fun pair => (pair.1, change pair) := by
  induction pairs generalizing done with
  | nil => simp
  | cons pair pairs ih =>
    have absent : pair.1 ∉ done.map (·.1) := fun member =>
      (List.nodup_append.mp distinct).2.2 _ member pair.1 (by simp) rfl
    rw [List.foldl_cons, put_of_not_mem absent, ih (by simpa using distinct)]
    simp

theorem foldl_put_eq_map (distinct : (pairs.map (·.1)).Nodup) :
    pairs.foldl (fun all pair => put pair.1 (change pair) all) [] =
      pairs.map fun pair => (pair.1, change pair) := by
  have none : (([] : List (String × β)).map (·.1) ++ pairs.map (·.1)).Nodup := by simpa using distinct
  rw [foldl_put_eq_append change none, List.nil_append]

end Several

end Phrasebook.Pairs
