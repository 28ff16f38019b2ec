import Mathlib.Data.List.Induction
import Mathlib.Data.String.Basic
import Phrasebook.Catalog.Entry

/-!
Entries as they grow: occurrences are added once, and remarks are kept sorted and distinct.
-/

set_option autoImplicit false

namespace Phrasebook

theorem eq_of_pairwise_lt {α : Type} [PartialOrder α] {a b : List α} (ha : a.Pairwise (· < ·))
    (hb : b.Pairwise (· < ·)) (same : ∀ x, x ∈ a ↔ x ∈ b) : a = b := by
  have distinct {members : List α} (h : members.Pairwise (· < ·)) : members.Nodup :=
    h.imp fun less => ne_of_lt less
  have perm : a.Perm b := (List.perm_ext_iff_of_nodup (distinct ha) (distinct hb)).mpr same
  exact perm.eq_of_pairwise (fun x y _ _ hxy hyx => absurd hxy hyx.asymm) ha hb

theorem eraseDups_concat {α : Type} [BEq α] [LawfulBEq α] (seen : List α) (item : α) :
    (seen ++ [item]).eraseDups =
      if seen.eraseDups.contains item then seen.eraseDups else seen.eraseDups ++ [item] := by
  rw [List.eraseDups_append]
  by_cases known : item ∈ seen
  · simp [known, List.removeAll]
  · simp [known, List.removeAll, List.eraseDups_cons]

namespace Entry

private theorem mem_dropRepeats {texts : List String} {text : String} :
    text ∈ dropRepeats texts ↔ text ∈ texts := by
  fun_induction dropRepeats texts with
  | case1 a rest ih =>
    rw [ih]
    simp
  | case2 a b rest different ih =>
    simp only [List.mem_cons, ih]
  | case3 short => rfl

private theorem pairwise_dropRepeats {texts : List String}
    (sorted : texts.Pairwise (· ≤ ·)) : (dropRepeats texts).Pairwise (· < ·) := by
  fun_induction dropRepeats texts with
  | case1 a rest ih => exact ih (List.pairwise_cons.mp sorted).2
  | case2 a b rest different ih =>
    obtain ⟨first, others⟩ := List.pairwise_cons.mp sorted
    refine List.pairwise_cons.mpr ⟨?_, ih others⟩
    intro text ht
    have later : text ∈ b :: rest := mem_dropRepeats.mp ht
    have next : a < b := lt_of_le_of_ne (first b (by simp)) different
    rcases List.mem_cons.mp later with rfl | later
    · exact next
    · exact lt_of_lt_of_le next ((List.pairwise_cons.mp others).1 text later)
  | case3 short shape =>
    match short, shape with
    | [], _ => exact List.Pairwise.nil
    | [a], _ => simp
    | a :: b :: rest, shape => exact absurd rfl (shape a b rest)

@[simp] theorem mem_sortedDistinct {texts : List String} {text : String} :
    text ∈ sortedDistinct texts ↔ text ∈ texts := by
  rw [sortedDistinct, mem_dropRepeats, List.mem_mergeSort]

theorem pairwise_sortedDistinct (texts : List String) :
    (sortedDistinct texts).Pairwise (· < ·) := by
  refine pairwise_dropRepeats ?_
  have transitive : ∀ a b c : String, decide (a ≤ b) = true → decide (b ≤ c) = true →
      decide (a ≤ c) = true := by
    intro a b c hab hbc
    simp only [decide_eq_true_eq] at hab hbc ⊢
    exact hab.trans hbc
  have total : ∀ a b : String, (decide (a ≤ b) || decide (b ≤ a)) = true := by
    intro a b
    simp only [Bool.or_eq_true, decide_eq_true_eq]
    exact le_total a b
  have sorted := List.pairwise_mergeSort transitive total texts
  exact sorted.imp fun h => by simpa using h

theorem sortedDistinct_congr {a b : List String} (same : ∀ text, text ∈ a ↔ text ∈ b) :
    sortedDistinct a = sortedDistinct b :=
  eq_of_pairwise_lt (pairwise_sortedDistinct a) (pairwise_sortedDistinct b) (by simpa using same)

theorem sortedDistinct_of_pairwise {texts : List String} (h : texts.Pairwise (· < ·)) :
    sortedDistinct texts = texts :=
  eq_of_pairwise_lt (pairwise_sortedDistinct texts) h (by simp)

theorem foldl_addComments (entry : Entry) (remarks : List String)
    (sorted : entry.comments.Pairwise (· < ·)) :
    remarks.foldl (fun grown remark => grown.addComments [remark]) entry =
      { entry with comments := sortedDistinct (entry.comments ++ remarks) } := by
  induction remarks generalizing entry with
  | nil =>
    simp [sortedDistinct_of_pairwise sorted]
  | cons remark remarks ih =>
    rw [List.foldl_cons, ih _ (pairwise_sortedDistinct _)]
    simp only [addComments]
    congr 1
    exact sortedDistinct_congr fun text => by simp [or_assoc]

theorem mem_addOccurrence {entry : Entry} {occurrence other : Occurrence} :
    other ∈ (entry.addOccurrence occurrence).occurrences ↔
      other ∈ entry.occurrences ∨ other = occurrence := by
  unfold addOccurrence
  split
  · rename_i known
    have member : occurrence ∈ entry.occurrences := by simpa using known
    refine ⟨Or.inl, ?_⟩
    rintro (h | rfl)
    · exact h
    · exact member
  · simp

theorem nodup_addOccurrence {entry : Entry} (distinct : entry.occurrences.Nodup)
    (occurrence : Occurrence) : (entry.addOccurrence occurrence).occurrences.Nodup := by
  unfold addOccurrence
  split
  · exact distinct
  · rename_i new
    have absent : occurrence ∉ entry.occurrences := by simpa using new
    refine List.nodup_append.mpr ⟨distinct, by simp, ?_⟩
    intro a ha b hb equal
    obtain rfl : b = occurrence := by simpa using hb
    exact absent (equal ▸ ha)

theorem addOccurrence_eq (entry : Entry) (occurrence : Occurrence) :
    entry.addOccurrence occurrence =
      { entry with occurrences := (entry.addOccurrence occurrence).occurrences } := by
  unfold addOccurrence
  split <;> rfl

theorem foldl_addOccurrence_congr {entry other : Entry}
    (same : entry.occurrences = other.occurrences) (added : List Occurrence) :
    added.foldl addOccurrence entry =
      { entry with occurrences := (added.foldl addOccurrence other).occurrences } := by
  induction added generalizing entry other with
  | nil => simp [← same]
  | cons occurrence added ih =>
    have next : (entry.addOccurrence occurrence).occurrences =
        (other.addOccurrence occurrence).occurrences := by
      simp only [addOccurrence, same]
      split <;> simp [same]
    rw [List.foldl_cons, ih next, List.foldl_cons, addOccurrence_eq]

theorem foldl_addOccurrence {entry : Entry} {added : List Occurrence}
    (distinct : (entry.occurrences ++ added).Nodup) :
    added.foldl addOccurrence entry =
      { entry with occurrences := entry.occurrences ++ added } := by
  induction added generalizing entry with
  | nil => simp
  | cons occurrence added ih =>
    have absent : occurrence ∉ entry.occurrences := by
      have apart := (List.nodup_append.mp distinct).2.2
      intro member
      exact apart _ member _ (by simp) rfl
    have step : entry.addOccurrence occurrence =
        { entry with occurrences := entry.occurrences ++ [occurrence] } := by
      simp [addOccurrence, absent]
    rw [List.foldl_cons, step, ih (by simpa using distinct)]
    simp

theorem occurrences_foldl_addOccurrence {entry : Entry} (bare : entry.occurrences = [])
    (added : List Occurrence) :
    (added.foldl addOccurrence entry).occurrences = added.eraseDups := by
  induction added using List.reverseRecOn with
  | nil => simp [bare]
  | append_singleton added occurrence ih =>
    rw [List.foldl_append, List.foldl_cons, List.foldl_nil, eraseDups_concat, ← ih, addOccurrence]
    split <;> rfl

end Entry

end Phrasebook
