import BeliefRevision.Proofs.ContractionSearch

/-!
# The order of the search

All collections which the search may try make up one list: the collections of one belief, then
those of two, and so on up to the limit, and within a size in the order of combined scores. The
search takes the first of them that works. Whether a collection works is said with an assignment,
so that only the place in the list depends on scores.

A belief which is inconsistent by itself is turned away without a search. That saves work and
changes nothing, as no collection would have worked.
-/

namespace BeliefRevision.Contraction

/-- Some assignment makes the belief true together with what is left of the base without the
collection. -/
def Works (base : Base) (belief : Belief) (collection : List Nat) : Prop :=
  ((base.without collection).clauses ++ belief.clauses).Satisfiable

/-- The collections within the limit, in the order in which they are tried. -/
def tried (settings : Settings) (base : Base) : List (List Nat) :=
  (List.range' 1 (limit settings base)).flatMap (Entrenchment.collections base)

/-- The full search: size by size, whether or not the belief is consistent by itself. -/
def exhaustive? (settings : Settings) (base : Base) (belief : Belief) : Option (List Nat) :=
  ((List.range' 1 (limit settings base)).findSome? (firstOfSize? settings base belief)).map
    fun collection => collection.mergeSort

variable {settings : Settings} {base : Base} {belief : Belief}

/-- A collection works exactly where the search accepts it, with tautologies left out or not. -/
theorem works_iff_admits (pruning : Bool) {collection : List Nat} :
    Works base belief collection ↔ admits pruning (base.without collection) belief = true :=
  Resolution.isConsistent_iff.symm

/-- What makes room is a collection within the limit which works. -/
theorem makesRoom_iff {collection : List Nat} :
    MakesRoom settings base belief collection ↔
      (collection.Nodup ∧ ∀ index ∈ collection, index < base.size) ∧
        (1 ≤ collection.length ∧ collection.length ≤ limit settings base) ∧
          Works base belief collection := by
  rw [works_iff_admits true, admits_iff]
  constructor
  · rintro ⟨distinct, inside, nonempty, limited, admits⟩
    exact ⟨⟨distinct, inside⟩, ⟨nonempty, limited⟩, admits⟩
  · rintro ⟨⟨distinct, inside⟩, ⟨nonempty, limited⟩, admits⟩
    exact ⟨distinct, inside, nonempty, limited, admits⟩

/-- The collections which are tried are those within the limit, each in removal order. -/
theorem mem_tried {collection : List Nat} :
    collection ∈ tried settings base ↔ collection.Sublist (Entrenchment.removalOrder base) ∧
      1 ≤ collection.length ∧ collection.length ≤ limit settings base := by
  simp only [tried, List.mem_flatMap, List.mem_range'_1, Entrenchment.mem_collections]
  constructor
  · rintro ⟨size, bounds, chosen, rfl⟩
    exact ⟨chosen, by omega⟩
  · rintro ⟨chosen, bounds⟩
    exact ⟨collection.length, by omega, chosen, rfl⟩

/-- A collection which is tried names no belief twice. -/
theorem nodup_of_mem_tried {collection : List Nat} (isTried : collection ∈ tried settings base) :
    collection.Nodup :=
  (mem_tried.mp isTried).1.nodup
    ((Entrenchment.removalOrder_perm base).nodup_iff.mpr List.nodup_range)

/-- Size by size, the search goes through the list of all that may be tried. -/
theorem exhaustive?_eq_find?_tried :
    exhaustive? settings base belief =
      ((tried settings base).find? fun collection =>
        admits settings.tautologyPruning (base.without collection) belief).map
          fun collection => collection.mergeSort := by
  rw [tried, List.find?_flatMap]
  rfl

/-- Turning a belief away which is inconsistent by itself does not change what is found. -/
theorem exhaustive?_eq_find? : exhaustive? settings base belief = find? settings base belief := by
  by_cases alone : admits settings.tautologyPruning .empty belief = true
  · rw [find?, if_pos alone]
    rfl
  · rw [find?, if_neg alone, exhaustive?, Option.map_eq_none_iff, List.findSome?_eq_none_iff]
    intro size _
    refine List.find?_eq_none.mpr ?_
    -- Whatever is left of the base, a belief which is admitted is true somewhere by itself.
    intro collection _ admitted
    obtain ⟨truth, _, holds⟩ := admits_iff.mp admitted
    exact alone (admits_iff.mpr ⟨truth, rfl, holds⟩)

/-- The same indices in ascending order are the same list. -/
theorem mergeSort_eq_of_ascending {first collection : List Nat} (permuted : collection.Perm first)
    (ascending : collection.Pairwise (· < ·)) : first.mergeSort = collection := by
  have sorted : collection.Pairwise (· ≤ ·) := ascending.imp Nat.le_of_lt
  exact ((List.mergeSort_perm first _).trans permuted.symm).eq_of_pairwise
    (fun _ _ _ _ => Nat.le_antisymm) List.sortedLE_mergeSort.pairwise sorted

/-- What is found is the first collection that works, in ascending order. -/
theorem find?_eq_some_iff {collection : List Nat} :
    find? settings base belief = some collection ↔
      ∃ before first after, tried settings base = before ++ first :: after ∧
        Works base belief first ∧ (∀ earlier ∈ before, ¬ Works base belief earlier) ∧
          collection.Perm first ∧ collection.Pairwise (· < ·) := by
  have works_iff (other : List Nat) : Works base belief other ↔
      admits settings.tautologyPruning (base.without other) belief = true := works_iff_admits _
  simp only [← exhaustive?_eq_find?, exhaustive?_eq_find?_tried, Option.map_eq_some_iff,
    List.find?_eq_some_iff_append, Bool.not_eq_true', works_iff, Bool.not_eq_true]
  constructor
  · rintro ⟨first, ⟨works, before, after, all, failed⟩, rfl⟩
    have isTried : first ∈ tried settings base := by
      rw [all]
      exact List.mem_append_right before List.mem_cons_self
    have permuted : first.mergeSort.Perm first := List.mergeSort_perm first _
    have distinct : first.mergeSort.Nodup := permuted.nodup_iff.mpr (nodup_of_mem_tried isTried)
    exact ⟨before, first, after, all, works, failed, permuted,
      (List.sortedLE_mergeSort.sortedLT_of_nodup distinct).pairwise⟩
  · rintro ⟨before, first, after, all, works, failed, permuted, ascending⟩
    exact ⟨first, ⟨works, before, after, all, failed⟩, mergeSort_eq_of_ascending permuted ascending⟩

/-- The search finds a collection exactly when one within the limit works. What it finds is the
first that works in the order in which collections are tried, and so no smaller one does, except
for none at all. That a belief is turned away where it is inconsistent by itself changes nothing. -/
theorem find?_first (settings : Settings) (base : Base) (belief : Belief) :
    ((find? settings base belief).isSome = true ↔
      ∃ collection : List Nat, (collection.Nodup ∧ ∀ index ∈ collection, index < base.size) ∧
        (1 ≤ collection.length ∧ collection.length ≤ limit settings base) ∧
          Works base belief collection) ∧
    (∀ collection, find? settings base belief = some collection ↔
      ∃ before first after, tried settings base = before ++ first :: after ∧
        Works base belief first ∧ (∀ earlier ∈ before, ¬ Works base belief earlier) ∧
          collection.Perm first ∧ collection.Pairwise (· < ·)) ∧
    (∀ collection other : List Nat, find? settings base belief = some collection →
      (other.Nodup ∧ ∀ index ∈ other, index < base.size) →
        1 ≤ other.length ∧ other.length < collection.length → ¬ Works base belief other) ∧
    find? settings base belief = exhaustive? settings base belief := by
  refine ⟨?_, fun collection => find?_eq_some_iff, ?_, exhaustive?_eq_find?.symm⟩
  · simp only [find?_isSome_iff, makesRoom_iff]
  · intro collection other found indices sizes works
    have limited : collection.length ≤ limit settings base := (makesRoom_of_find? found).limited
    have makesRoom : MakesRoom settings base belief other :=
      makesRoom_iff.mpr ⟨indices, ⟨sizes.1, by omega⟩, works⟩
    have least := length_le_of_find? found makesRoom
    omega

end BeliefRevision.Contraction
