import Mathlib.Data.List.Nodup
import Mathlib.Data.Prod.Lex
import Mathlib.Data.String.Basic
import Mathlib.Order.WithBot
import Phrasebook.Catalog.Printer

/-!
The order of occurrences and of entries. Both are linear orders of what decides the place of a member,
so a sorted list depends on the members alone.
-/

set_option autoImplicit false

namespace Phrasebook

section Sorting

variable {α β : Type} [LinearOrder β] {rank : α → β} {atMost : α → α → Bool}

theorem pairwise_mergeSort_of_rank (ranked : ∀ a b, atMost a b = true ↔ rank a ≤ rank b)
    (members : List α) : (members.mergeSort atMost).Pairwise fun a b => rank a ≤ rank b := by
  have transitive : ∀ a b c, atMost a b = true → atMost b c = true → atMost a c = true := by
    intro a b c hab hbc
    exact (ranked a c).mpr (((ranked a b).mp hab).trans ((ranked b c).mp hbc))
  have total : ∀ a b, (atMost a b || atMost b a) = true := by
    intro a b
    rcases le_total (rank a) (rank b) with h | h
    · simp [(ranked a b).mpr h]
    · simp [(ranked b a).mpr h]
  exact (List.pairwise_mergeSort transitive total members).imp fun {a b} h => (ranked a b).mp h

/-- The sorted list of members with distinct ranks does not depend on their order before. -/
theorem mergeSort_congr_of_rank (ranked : ∀ a b, atMost a b = true ↔ rank a ≤ rank b)
    {members others : List α} (same : members.Perm others)
    (distinct : ∀ a ∈ members, ∀ b ∈ members, rank a = rank b → a = b) :
    members.mergeSort atMost = others.mergeSort atMost := by
  have perm : (members.mergeSort atMost).Perm (others.mergeSort atMost) :=
    (List.mergeSort_perm members atMost).trans
      (same.trans (List.mergeSort_perm others atMost).symm)
  refine perm.eq_of_pairwise ?_ (pairwise_mergeSort_of_rank ranked members)
    (pairwise_mergeSort_of_rank ranked others)
  intro a b ha hb hab hba
  have left : a ∈ members := by simpa using ha
  have right : b ∈ members := same.mem_iff.mpr (by simpa using hb)
  exact distinct a left b right (le_antisymm hab hba)

end Sorting

namespace Occurrence

def rank (occurrence : Occurrence) : String ×ₗ Nat := toLex (occurrence.path, occurrence.line)

theorem rank_injective : Function.Injective rank := by
  intro a b h
  cases a
  cases b
  simpa [rank] using h

theorem before_iff (a b : Occurrence) : a.before b = true ↔ a.rank < b.rank := by
  simp [-String.lt_iff_ltb, before, rank, Prod.Lex.toLex_lt_toLex]

theorem atMost_iff (a b : Occurrence) : a.atMost b = true ↔ a.rank ≤ b.rank := by
  rw [atMost, Bool.not_eq_true', ← Bool.not_eq_true, before_iff, not_lt]

end Occurrence

namespace Entry

theorem pairwise_sortedOccurrences (entry : Entry) :
    entry.sortedOccurrences.Pairwise fun a b => a.rank ≤ b.rank :=
  pairwise_mergeSort_of_rank Occurrence.atMost_iff entry.occurrences

theorem sortedOccurrences_perm (entry : Entry) :
    entry.sortedOccurrences.Perm entry.occurrences :=
  List.mergeSort_perm _ _

theorem sortedOccurrences_congr {a b : Entry} (same : a.occurrences.Perm b.occurrences) :
    a.sortedOccurrences = b.sortedOccurrences :=
  mergeSort_congr_of_rank Occurrence.atMost_iff same
    fun _ _ _ _ equal => Occurrence.rank_injective equal

private theorem foldl_least (first : Occurrence) (others : List Occurrence) :
    let least := others.foldl (fun least other => if other.before least then other else least) first
    least ∈ first :: others ∧ ∀ other ∈ first :: others, least.rank ≤ other.rank := by
  induction others generalizing first with
  | nil => simp
  | cons next others ih =>
    simp only [List.foldl_cons]
    split
    · rename_i smaller
      rw [Occurrence.before_iff] at smaller
      obtain ⟨member, bound⟩ := ih next
      refine ⟨List.mem_cons_of_mem _ member, ?_⟩
      intro other ho
      rcases List.mem_cons.mp ho with rfl | ho
      · exact (bound next (by simp)).trans smaller.le
      · exact bound other ho
    · rename_i larger
      rw [Occurrence.before_iff, not_lt] at larger
      obtain ⟨member, bound⟩ := ih first
      refine ⟨?_, ?_⟩
      · rcases List.mem_cons.mp member with h | h
        · rw [h]
          simp
        · exact List.mem_cons_of_mem _ (List.mem_cons_of_mem _ h)
      · intro other ho
        rcases List.mem_cons.mp ho with rfl | ho
        · exact bound _ (by simp)
        · rcases List.mem_cons.mp ho with rfl | ho
          · exact (bound first (by simp)).trans larger
          · exact bound other (by simp [ho])

theorem firstOccurrence?_eq_head? (entry : Entry) :
    entry.firstOccurrence? = entry.sortedOccurrences.head? := by
  have perm := entry.sortedOccurrences_perm
  have sorted := entry.pairwise_sortedOccurrences
  unfold firstOccurrence?
  split
  · rename_i empty
    rw [empty] at perm
    simp [perm.eq_nil]
  · rename_i first others found
    obtain ⟨member, bound⟩ := foldl_least first others
    cases h : entry.sortedOccurrences with
    | nil =>
      rw [h, found] at perm
      exact absurd perm.symm.eq_nil (by simp)
    | cons head rest =>
      rw [h, found] at perm
      rw [h, List.pairwise_cons] at sorted
      have least := bound head (perm.mem_iff.mp (by simp))
      simp only [List.head?_cons, Option.some.injEq]
      refine Occurrence.rank_injective (le_antisymm least ?_)
      rcases List.mem_cons.mp (perm.symm.mem_iff.mp member) with same | later
      · exact le_of_eq (congrArg Occurrence.rank same.symm)
      · exact sorted.1 _ later

/-- What decides the place of an entry in the file: its first occurrence if it has any, and its
key. -/
def place (entry : Entry) : WithTop (String ×ₗ Nat) ×ₗ String :=
  toLex (match entry.firstOccurrence? with
    | some first => (first.rank : WithTop (String ×ₗ Nat))
    | none => ⊤, entry.key)

theorem key_eq_of_place_eq {a b : Entry} (h : a.place = b.place) : a.key = b.key :=
  congrArg (fun place => (ofLex place).2) h

theorem before_iff (a b : Entry) : a.before b = true ↔ a.place < b.place := by
  unfold before place
  rw [Prod.Lex.toLex_lt_toLex]
  cases ha : a.firstOccurrence? with
  | none => cases hb : b.firstOccurrence? <;> simp [-String.lt_iff_ltb]
  | some x =>
    cases hb : b.firstOccurrence? with
    | none => simp [-String.lt_iff_ltb]
    | some y =>
      simp [-String.lt_iff_ltb, Occurrence.before_iff, Occurrence.rank_injective.eq_iff]

theorem atMost_iff (a b : Entry) : a.atMost b = true ↔ a.place ≤ b.place := by
  rw [atMost, Bool.not_eq_true', ← Bool.not_eq_true, before_iff, not_lt]

def ordered (entry : Entry) : Entry := { entry with occurrences := entry.sortedOccurrences }

@[simp] theorem key_ordered (entry : Entry) : entry.ordered.key = entry.key := rfl

@[simp] theorem sortedOccurrences_ordered (entry : Entry) :
    entry.ordered.sortedOccurrences = entry.sortedOccurrences :=
  sortedOccurrences_congr entry.sortedOccurrences_perm

theorem place_congr {a b : Entry} (keys : a.key = b.key)
    (occurrences : a.sortedOccurrences = b.sortedOccurrences) : a.place = b.place := by
  simp only [place, firstOccurrence?_eq_head?, keys, occurrences]

end Entry

namespace Catalog

def keys (catalog : Catalog) : List String := catalog.entries.map Entry.key

@[simp] theorem renderEntry_ordered (entry : Entry) :
    renderEntry entry.ordered = renderEntry entry := by
  simp only [renderEntry, metadataLines, flagNames, Entry.sortedOccurrences_ordered]
  rfl

theorem sorted_perm (catalog : Catalog) : catalog.sorted.Perm catalog.entries :=
  List.mergeSort_perm _ _

theorem pairwise_sorted (catalog : Catalog) :
    catalog.sorted.Pairwise fun a b => a.place ≤ b.place :=
  pairwise_mergeSort_of_rank Entry.atMost_iff catalog.entries

theorem map_ordered_sorted (catalog : Catalog) :
    catalog.sorted.map Entry.ordered = (catalog.entries.map Entry.ordered).mergeSort Entry.atMost := by
  refine List.map_mergeSort fun a _ b _ => ?_
  have left : a.ordered.place = a.place :=
    Entry.place_congr rfl a.sortedOccurrences_ordered
  have right : b.ordered.place = b.place :=
    Entry.place_congr rfl b.sortedOccurrences_ordered
  rw [Bool.eq_iff_iff, Entry.atMost_iff, Entry.atMost_iff, left, right]

/-- The written form depends on the entries alone, and neither on their order nor on the order of
their occurrences. -/
theorem render_congr {a b : Catalog} (distinct : a.keys.Nodup)
    (same : (a.entries.map Entry.ordered).Perm (b.entries.map Entry.ordered)) :
    a.render = b.render := by
  have equal : a.sorted.map Entry.ordered = b.sorted.map Entry.ordered := by
    rw [map_ordered_sorted, map_ordered_sorted]
    refine mergeSort_congr_of_rank Entry.atMost_iff same ?_
    have distinctKeys : ((a.entries.map Entry.ordered).map Entry.key).Nodup := by
      simpa [keys, Function.comp_def] using distinct
    intro x hx y hy places
    exact List.inj_on_of_nodup_map distinctKeys hx hy (Entry.key_eq_of_place_eq places)
  have blocks : ∀ entries : List Entry,
      entries.map renderEntry = (entries.map Entry.ordered).map renderEntry := by
    intro entries
    simp [Function.comp_def]
  rw [render, render, renderChars, renderChars, blocks a.sorted, blocks b.sorted, equal]

end Catalog

end Phrasebook
