import Phrasebook.Proofs.Catalog.Keyed
import Phrasebook.Proofs.Catalog.NormalForm

/-!
What holds of a catalog however it came about: by reading, recording, inserting or merging, in any order
and any number of times.
-/

set_option autoImplicit false

namespace Phrasebook

namespace Entry

/-- No occurrence is there twice, and the remarks are sorted and distinct. -/
structure IsTidy (entry : Entry) : Prop where
  distinct : entry.occurrences.Nodup
  sorted : entry.comments.Pairwise (· < ·)

def HasFirst (entry : Entry) (first : Occurrence) : Prop :=
  first ∈ entry.occurrences ∧ ∀ other ∈ entry.occurrences,
    first.path < other.path ∨ first.path = other.path ∧ first.line ≤ other.line

/-- The order of entries in a file: by smallest occurrence, those without any last, and by key between
equals. -/
inductive Precedes (a b : Entry) : Prop
  | place (x y : Occurrence) (ha : a.HasFirst x) (hb : b.HasFirst y)
      (less : x.path < y.path ∨ x.path = y.path ∧ x.line < y.line)
  | used (ha : a.occurrences ≠ []) (hb : b.occurrences = [])
  | key (x : Occurrence) (ha : a.HasFirst x) (hb : b.HasFirst x) (less : a.key < b.key)
  | unused (ha : a.occurrences = []) (hb : b.occurrences = []) (less : a.key < b.key)

theorem isTidy_ofKey (key : String) : (ofKey key).IsTidy := ⟨List.nodup_nil, List.Pairwise.nil⟩

theorem IsRead.isTidy {entry : Entry} (read : entry.IsRead) : entry.IsTidy :=
  ⟨read.distinct, read.sorted⟩

theorem IsTidy.addTo {entry : Entry} (tidy : entry.IsTidy) (use : Catalog.Use) :
    (use.addTo entry).IsTidy := by
  refine ⟨?_, ?_⟩
  · rw [Catalog.Use.occurrences_addTo]
    exact nodup_addOccurrence tidy.distinct use.occurrence
  · rw [Catalog.Use.comments_addTo]
    exact pairwise_sortedDistinct _

theorem firstOccurrence?_eq_none_iff {entry : Entry} :
    entry.firstOccurrence? = none ↔ entry.occurrences = [] := by
  unfold firstOccurrence?
  split <;> simp_all

theorem hasFirst_iff {entry : Entry} {first : Occurrence} :
    entry.HasFirst first ↔ entry.firstOccurrence? = some first := by
  have least : ∀ {x}, entry.firstOccurrence? = some x →
      x ∈ entry.occurrences ∧ ∀ other ∈ entry.occurrences, x.rank ≤ other.rank := by
    intro x h
    rw [firstOccurrence?_eq_head?] at h
    obtain ⟨rest, ordered⟩ := List.head?_eq_some_iff.mp h
    have perm := entry.sortedOccurrences_perm
    have sorted := entry.pairwise_sortedOccurrences
    rw [ordered] at perm sorted
    refine ⟨perm.mem_iff.mp (by simp), fun other ho => ?_⟩
    rcases List.mem_cons.mp (perm.mem_iff.mpr ho) with rfl | later
    · exact le_rfl
    · exact (List.pairwise_cons.mp sorted).1 other later
  have ranks : ∀ x other : Occurrence, x.rank ≤ other.rank ↔
      x.path < other.path ∨ x.path = other.path ∧ x.line ≤ other.line := by
    intro x other
    simp [-String.lt_iff_ltb, Occurrence.rank, Prod.Lex.toLex_le_toLex]
  constructor
  · rintro ⟨member, bound⟩
    cases found : entry.firstOccurrence? with
    | none =>
      rw [firstOccurrence?_eq_none_iff.mp found] at member
      cases member
    | some x =>
      obtain ⟨there, below⟩ := least found
      have above : first.rank ≤ x.rank := (ranks first x).mpr (bound x there)
      rw [Occurrence.rank_injective (le_antisymm (below first member) above)]
  · intro found
    obtain ⟨member, bound⟩ := least found
    exact ⟨member, fun other ho => (ranks first other).mp (bound other ho)⟩

theorem precedes_iff {a b : Entry} : a.Precedes b ↔ a.place < b.place := by
  rw [← before_iff]
  constructor
  · rintro (⟨x, y, ha, hb, less⟩ | ⟨ha, hb⟩ | ⟨x, ha, hb, less⟩ | ⟨ha, hb, less⟩)
    · simp [-String.lt_iff_ltb, Entry.before, hasFirst_iff.mp ha, hasFirst_iff.mp hb,
        Occurrence.before, less]
    · obtain ⟨x, found⟩ := Option.ne_none_iff_exists'.mp (mt firstOccurrence?_eq_none_iff.mp ha)
      simp [Entry.before, found, firstOccurrence?_eq_none_iff.mpr hb]
    · simp [Entry.before, hasFirst_iff.mp ha, hasFirst_iff.mp hb, less]
    · simp [Entry.before, firstOccurrence?_eq_none_iff.mpr ha, firstOccurrence?_eq_none_iff.mpr hb,
        less]
  · intro sooner
    unfold Entry.before at sooner
    cases ha : a.firstOccurrence? with
    | none =>
      have bareA := firstOccurrence?_eq_none_iff.mp ha
      cases hb : b.firstOccurrence? with
      | none =>
        exact .unused bareA (firstOccurrence?_eq_none_iff.mp hb) (by simpa [ha, hb] using sooner)
      | some y => simp [ha, hb] at sooner
    | some x =>
      cases hb : b.firstOccurrence? with
      | none =>
        have used : a.occurrences ≠ [] := fun bare => by
          simp [firstOccurrence?_eq_none_iff.mpr bare] at ha
        exact .used used (firstOccurrence?_eq_none_iff.mp hb)
      | some y =>
        have firstA := hasFirst_iff.mpr ha
        have firstB := hasFirst_iff.mpr hb
        simp only [ha, hb, Bool.or_eq_true, Bool.and_eq_true, beq_iff_eq, decide_eq_true_eq] at sooner
        rcases sooner with smaller | ⟨rfl, keys⟩
        · exact .place x y firstA firstB (by simpa [Occurrence.before] using smaller)
        · exact .key x firstA firstB keys

end Entry

namespace Catalog

/-- A way to come by a catalog. -/
inductive Construction
  | empty (locale : String)
  | parse (content locale : String)
  | record (base : Construction) (use : Use)
  | insert (base : Construction) (entry : Entry)
  | merge (existing fresh : Construction)

namespace Construction

def catalog : Construction → Catalog
  | empty locale => Catalog.empty locale
  | parse content locale => Catalog.parse content locale
  | record base use => base.catalog.record use
  | insert base entry => base.catalog.insert entry
  | merge existing fresh => existing.catalog.merge fresh.catalog

def map : Construction → Keyed
  | empty locale => Keyed.empty locale
  | parse content locale => Keyed.parse content locale
  | record base use => base.map.record use
  | insert base entry => base.map.insert entry
  | merge existing fresh => existing.map.merge fresh.map

def IsTidy : Construction → Prop
  | empty _ => True
  | parse _ _ => True
  | record base _ => base.IsTidy
  | insert base entry => base.IsTidy ∧ entry.IsTidy
  | merge existing fresh => existing.IsTidy ∧ fresh.IsTidy

end Construction

structure IsTidy (catalog : Catalog) : Prop where
  sound : catalog.IsSound
  entries : ∀ entry ∈ catalog.entries, entry.IsTidy

theorem isTidy_empty (locale : String) : (empty locale).IsTidy :=
  ⟨isSound_empty locale, by simp [empty]⟩

theorem isTidy_parse (content locale : String) : (parse content locale).IsTidy := by
  obtain ⟨sound, read⟩ := parse_isRead content locale
  exact ⟨sound, fun entry he => (read entry he).isTidy⟩

theorem IsTidy.insert {catalog : Catalog} (tidy : catalog.IsTidy) {entry : Entry}
    (new : entry.IsTidy) : (catalog.insert entry).IsTidy := by
  refine ⟨tidy.sound.insert entry, fun other ho => ?_⟩
  rcases mem_insert ho with rfl | ho
  · exact new
  · exact tidy.entries other ho

theorem IsTidy.record {catalog : Catalog} (tidy : catalog.IsTidy) (use : Use) :
    (catalog.record use).IsTidy := by
  refine tidy.insert (Entry.IsTidy.addTo ?_ use)
  cases known : catalog.get? use.key with
  | none => exact Entry.isTidy_ofKey use.key
  | some entry => exact tidy.entries entry (key_of_get? known).1

theorem IsTidy.merge {fresh : Catalog} (tidy : fresh.IsTidy) (existing : Catalog) :
    (existing.merge fresh).IsTidy := by
  refine ⟨tidy.sound.merge existing, fun entry he => ?_⟩
  obtain ⟨other, ho, rfl⟩ := List.mem_map.mp he
  obtain ⟨distinct, sorted⟩ := tidy.entries other ho
  exact ⟨distinct, sorted⟩

theorem pairwise_precedes_sorted {catalog : Catalog} (sound : catalog.IsSound) :
    catalog.sorted.Pairwise Entry.Precedes := by
  have distinct : catalog.sorted.Pairwise fun a b => a.key ≠ b.key := by
    have keys : (catalog.sorted.map Entry.key).Nodup :=
      (catalog.sorted_perm.map Entry.key).nodup_iff.mpr sound.distinct
    exact List.pairwise_map.mp keys
  refine (catalog.pairwise_sorted.and distinct).imp fun {a b} h => ?_
  refine Entry.precedes_iff.mpr (lt_of_le_of_ne h.1 fun equal => ?_)
  exact h.2 (Entry.key_eq_of_place_eq equal)

namespace Construction

theorem isSound (construction : Construction) : construction.catalog.IsSound := by
  induction construction with
  | empty locale => exact isSound_empty locale
  | parse content locale => exact (isTidy_parse content locale).sound
  | record base use ih => exact ih.insert _
  | insert base entry ih => exact ih.insert entry
  | merge existing fresh _ ih => exact ih.merge _

theorem isTidy_catalog {construction : Construction} (tidy : construction.IsTidy) :
    construction.catalog.IsTidy := by
  induction construction with
  | empty locale => exact isTidy_empty locale
  | parse content locale => exact isTidy_parse content locale
  | record base use ih => exact (ih tidy).record use
  | insert base entry ih => exact (ih tidy.1).insert tidy.2
  | merge existing fresh _ ih => exact (ih tidy.2).merge _

theorem map_eq (construction : Construction) : construction.map = construction.catalog.keyed := by
  induction construction with
  | empty locale => rfl
  | parse content locale => exact parse_keyed content locale
  | record base use ih => rw [map, catalog, ih, record_keyed base.isSound]
  | insert base entry ih => rw [map, catalog, ih, insert_keyed]
  | merge existing fresh ihExisting ihFresh =>
    rw [map, catalog, ihExisting, ihFresh, merge_keyed fresh.isSound]

/-- However a catalog is come by, the keys under which entries are stored are distinct, none of them is
empty, and each is that of its entry, whose occurrences are distinct and whose remarks are sorted and
distinct. The empty key is never taken in. The file order lists every stored entry once and is strict. -/
theorem representation {construction : Construction} (tidy : construction.IsTidy) :
    let stored := construction.map.pairs
    let catalog := construction.catalog
    (stored.map (·.1)).Nodup ∧
    (∀ key entry, (key, entry) ∈ stored →
      key ≠ "" ∧ entry.key = key ∧ entry.occurrences.Nodup ∧ entry.comments.Pairwise (· < ·)) ∧
    (∀ key entry, catalog.get? key = some entry ↔ (key, entry) ∈ stored) ∧
    (∀ use : Use, use.key = "" →
      catalog.record use = catalog ∧ construction.map.record use = construction.map) ∧
    (∀ entry : Entry, entry.key = "" →
      catalog.insert entry = catalog ∧ construction.map.insert entry = construction.map) ∧
    catalog.sorted.Nodup ∧
    (∀ entry, entry ∈ catalog.sorted ↔ ∃ key, (key, entry) ∈ stored) ∧
    catalog.sorted.Pairwise Entry.Precedes := by
  intro stored catalog
  obtain ⟨sound, tidy⟩ := isTidy_catalog tidy
  have member : ∀ key entry, (key, entry) ∈ stored ↔ entry ∈ catalog.entries ∧ entry.key = key := by
    intro key entry
    simp [stored, catalog, map_eq, keyed, and_comm, eq_comm]
  refine ⟨?_, fun key entry h => ?_, fun key entry => ?_, fun use unnamed => ?_,
    fun entry unnamed => ?_, ?_, fun entry => ?_, pairwise_precedes_sorted sound⟩
  · rw [show stored = construction.catalog.keyed.pairs by rw [← map_eq], map_fst_keyed]
    exact sound.distinct
  · obtain ⟨there, rfl⟩ := (member key entry).mp h
    obtain ⟨occurrences, comments⟩ := tidy entry there
    exact ⟨sound.named entry there, rfl, occurrences, comments⟩
  · rw [member, get?_eq_some_iff sound]
  · exact ⟨record_of_eq_empty unnamed sound, by simp [Keyed.record, unnamed]⟩
  · exact ⟨by simp [Catalog.insert, unnamed], by simp [Keyed.insert, unnamed]⟩
  · exact catalog.sorted_perm.nodup_iff.mpr (List.Nodup.of_map Entry.key sound.distinct)
  · rw [catalog.sorted_perm.mem_iff]
    simp [member]

private def assembled : Construction :=
  merge (parse "#. b\n#. a\nmsgid \"A\"\nmsgstr \"B\"\n" "fr") <|
    insert (record (record (empty "") ⟨"A", ["d", "c"], ⟨"x.ts", 3⟩, false, false⟩)
      ⟨"C", [], ⟨"a.ts", 1⟩, true, false⟩) { key := "D", comments := ["e"] }

theorem representation_assembled :
    assembled.IsTidy ∧ assembled.map.pairs.map (·.1) = ["A", "C", "D"] ∧
      (∀ key entry, (key, entry) ∈ assembled.map.pairs →
        key ≠ "" ∧ entry.key = key ∧ entry.occurrences.Nodup ∧ entry.comments.Pairwise (· < ·)) ∧
      assembled.catalog.sorted.Nodup ∧ assembled.catalog.sorted.Pairwise Entry.Precedes := by
  have tidy : assembled.IsTidy := ⟨trivial, trivial, by simp, by simp⟩
  obtain ⟨-, stored, -, -, -, distinct, -, sorted⟩ := representation tidy
  exact ⟨tidy, by decide +kernel, stored, distinct, sorted⟩

end Construction

end Catalog

end Phrasebook
