import BeliefRevision.Contraction
import BeliefRevision.Proofs.Combinations
import BeliefRevision.Proofs.Refutation

/-!
# The search for a contraction

Removal order puts the indices of a base in some order without losing one, and so
every collection of indices is tried, though in another order than it may be given.
What is left of a base depends on the members of the collection alone.

The search finds a collection exactly when there is one within the limit. Scores
decide which one is found, and nothing else.
-/

namespace BeliefRevision

namespace Entrenchment

/-- Sorting by scores loses and repeats nothing, whatever the scores are. -/
theorem sortByScore_perm {α : Type} (score : α → Float) (values : List α) :
    (sortByScore score values).Perm values := by
  have permuted := (List.mergeSort_perm (values.map fun value => (score value, value))
    fun first second => precedes first.1 second.1).map Prod.snd
  simpa [sortByScore, List.map_map, Function.comp_def] using permuted

/-- Each index of the base occurs in removal order exactly once. -/
theorem removalOrder_perm (base : Base) : (removalOrder base).Perm (List.range base.size) :=
  sortByScore_perm _ _

/-- What is sorted are the selections of so many indices in removal order. -/
theorem collections_eq (base : Base) (size : Nat) :
    collections base size =
      sortByScore (combinedScore base) (selections size (removalOrder base)) := by
  rw [collections, ← selections_eq_map_combinations]

/-- The collections of a size are the selections of so many indices in removal order. -/
theorem mem_collections {base : Base} {size : Nat} {collection : List Nat} :
    collection ∈ collections base size ↔
      collection.Sublist (removalOrder base) ∧ collection.length = size := by
  rw [← mem_selections, collections_eq]
  exact (sortByScore_perm _ _).mem_iff

/-- Different indices of a base, in any order, are one of the collections of their
number in removal order. -/
theorem exists_mem_collections {base : Base} {collection : List Nat}
    (distinct : collection.Nodup) (inside : ∀ index ∈ collection, index < base.size) :
    ∃ ordered ∈ collections base collection.length, ordered.Perm collection := by
  have covered : collection ⊆ removalOrder base := by
    intro index member
    exact (removalOrder_perm base).mem_iff.mpr (List.mem_range.mpr (inside index member))
  obtain ⟨ordered, permuted, chosen⟩ := List.subperm_of_subset distinct covered
  exact ⟨ordered, mem_collections.mpr ⟨chosen, permuted.length_eq⟩, permuted⟩

/-- A collection which is tried consists of different indices of the base. -/
theorem distinct_of_mem_collections {base : Base} {size : Nat} {collection : List Nat}
    (tried : collection ∈ collections base size) :
    collection.Nodup ∧ (∀ index ∈ collection, index < base.size) ∧ collection.length = size := by
  obtain ⟨chosen, length⟩ := mem_collections.mp tried
  refine ⟨chosen.nodup ((removalOrder_perm base).nodup_iff.mpr List.nodup_range), ?_, length⟩
  intro index member
  exact List.mem_range.mp ((removalOrder_perm base).mem_iff.mp (chosen.subset member))

end Entrenchment

namespace Base

/-- What is left depends on the members of the collection alone. -/
theorem without_congr (base : Base) {first second : List Nat}
    (same : ∀ index, index ∈ first ↔ index ∈ second) :
    base.without first = base.without second := by
  have contains : ∀ index, first.contains index = second.contains index := by
    intro index
    rw [Bool.eq_iff_iff, List.contains_iff_mem, List.contains_iff_mem, same]
  simp only [without, contains]

end Base

namespace Contraction

/-- A base admits a belief exactly when some assignment makes both true. -/
theorem admits_iff {pruning : Bool} {base : Base} {belief : Belief} :
    admits pruning base belief = true ↔
      ∃ truth, base.clauses.eval truth = true ∧ belief.clauses.eval truth = true := by
  simp only [admits, Resolution.isConsistent_iff, ClauseSet.Satisfiable, ClauseSet.eval_append,
    Bool.and_eq_true]

/-- Whether a belief is admitted depends on where its clauses are true alone. -/
theorem admits_congr {pruning otherPruning : Bool} {belief other : Belief}
    (same : ∀ truth, belief.clauses.eval truth = other.clauses.eval truth) (base : Base) :
    admits pruning base belief = admits otherPruning base other := by
  rw [Bool.eq_iff_iff, admits_iff, admits_iff]
  simp only [same]

/-- What is found depends on where the clauses of the belief are true, and on no setting but
the limit. -/
theorem find?_congr {settings others : Settings} {belief other : Belief}
    (sameLimit : settings.contractionLimit = others.contractionLimit)
    (same : ∀ truth, belief.clauses.eval truth = other.clauses.eval truth) (base : Base) :
    find? settings base belief = find? others base other := by
  have sameAdmits (left : Base) : admits settings.tautologyPruning left belief =
      admits others.tautologyPruning left other := admits_congr same left
  simp only [find?, limit, sameLimit, sameAdmits]

/-- A collection of beliefs, at least one and no more than the limit, without which
the base admits the belief. -/
structure MakesRoom (settings : Settings) (base : Base) (belief : Belief)
    (collection : List Nat) : Prop where
  distinct : collection.Nodup
  inside : ∀ index ∈ collection, index < base.size
  nonempty : 1 ≤ collection.length
  limited : collection.length ≤ limit settings base
  admits : ∃ truth, (base.without collection).clauses.eval truth = true ∧
    belief.clauses.eval truth = true

/-- Whether a collection makes room does not depend on its order. -/
theorem MakesRoom.perm {settings : Settings} {base : Base} {belief : Belief}
    {first second : List Nat} (makesRoom : MakesRoom settings base belief first)
    (permuted : second.Perm first) : MakesRoom settings base belief second where
  distinct := permuted.nodup_iff.mpr makesRoom.distinct
  inside := fun index member => makesRoom.inside index (permuted.mem_iff.mp member)
  nonempty := permuted.length_eq ▸ makesRoom.nonempty
  limited := permuted.length_eq ▸ makesRoom.limited
  admits := by
    rw [base.without_congr fun index => permuted.mem_iff]
    exact makesRoom.admits

/-- The first collection of the size, in the order in which they are tried, without which
the base admits the belief. -/
def firstOfSize? (settings : Settings) (base : Base) (belief : Belief) (size : Nat) :
    Option (List Nat) :=
  (Entrenchment.collections base size).find? fun collection =>
    admits settings.tautologyPruning (base.without collection) belief

/-- What a search that succeeds does: it finds nothing at the smaller sizes, and puts the
first collection which it finds in the order of the base. -/
theorem of_find?_eq_some {settings : Settings} {base : Base} {belief : Belief}
    {collection : List Nat} (found : find? settings base belief = some collection) :
    ∃ ordered, ordered.mergeSort = collection ∧ 1 ≤ ordered.length ∧
      ordered.length ≤ limit settings base ∧
      firstOfSize? settings base belief ordered.length = some ordered ∧
      ∀ size, 1 ≤ size → size < ordered.length →
        firstOfSize? settings base belief size = none := by
  unfold find? at found
  split at found
  case isFalse => cases found
  case isTrue alone =>
    obtain ⟨ordered, searched, same⟩ := Option.map_eq_some_iff.mp found
    obtain ⟨before, size, after, sizes, here, passed⟩ := List.findSome?_eq_some_iff.mp searched
    have length : ordered.length = size :=
      (Entrenchment.distinct_of_mem_collections (List.mem_of_find?_eq_some here)).2.2
    subst length
    have inRange (other : Nat) :
        other ∈ before ++ ordered.length :: after ↔
          1 ≤ other ∧ other < 1 + limit settings base := by
      rw [← sizes, List.mem_range'_1]
    have bounds := (inRange ordered.length).mp (by simp)
    refine ⟨ordered, same, bounds.1, by omega, here, fun size positive smaller => passed size ?_⟩
    -- The sizes ascend, and so a smaller one stands before the size of what was found.
    have ascending : (before ++ ordered.length :: after).Pairwise (· < ·) :=
      sizes ▸ List.pairwise_lt_range'
    have later := (List.pairwise_cons.mp (List.pairwise_append.mp ascending).2.1).1
    rcases List.mem_append.mp ((inRange size).mpr ⟨positive, by omega⟩) with earlier | rest
    · exact earlier
    · rcases List.mem_cons.mp rest with same | behind
      · omega
      · have larger := later size behind
        omega

/-- What is found makes room. -/
theorem makesRoom_of_find? {settings : Settings} {base : Base} {belief : Belief}
    {collection : List Nat} (found : find? settings base belief = some collection) :
    MakesRoom settings base belief collection := by
  obtain ⟨ordered, rfl, nonempty, limited, here, _⟩ := of_find?_eq_some found
  have room := List.find?_some here
  obtain ⟨distinct, inside, _⟩ :=
    Entrenchment.distinct_of_mem_collections (List.mem_of_find?_eq_some here)
  have makesRoom : MakesRoom settings base belief ordered :=
    ⟨distinct, inside, nonempty, limited, admits_iff.mp room⟩
  exact makesRoom.perm (List.mergeSort_perm ordered _)

/-- What is found is given in the order of the base. -/
theorem ascending_of_find? {settings : Settings} {base : Base} {belief : Belief}
    {collection : List Nat} (found : find? settings base belief = some collection) :
    collection.Pairwise (· < ·) := by
  have distinct := (makesRoom_of_find? found).distinct
  obtain ⟨ordered, rfl, _⟩ := of_find?_eq_some found
  exact (List.sortedLE_mergeSort.sortedLT_of_nodup distinct).pairwise

/-- Where a collection makes room, one of those which are tried at its size does. -/
theorem MakesRoom.firstOfSize?_isSome {settings : Settings} {base : Base} {belief : Belief}
    {collection : List Nat} (makesRoom : MakesRoom settings base belief collection) :
    (firstOfSize? settings base belief collection.length).isSome = true := by
  obtain ⟨ordered, tried, permuted⟩ :=
    Entrenchment.exists_mem_collections makesRoom.distinct makesRoom.inside
  have ready := makesRoom.perm permuted
  exact List.find?_isSome.mpr ⟨ordered, tried, admits_iff.mpr ready.admits⟩

/-- Something is found where a collection makes room. The belief is then consistent by
itself, and so the search does take place. -/
theorem find?_isSome_of_makesRoom {settings : Settings} {base : Base} {belief : Belief}
    {collection : List Nat} (makesRoom : MakesRoom settings base belief collection) :
    (find? settings base belief).isSome = true := by
  obtain ⟨truth, _, beliefHolds⟩ := makesRoom.admits
  have alone : admits settings.tautologyPruning .empty belief = true :=
    admits_iff.mpr ⟨truth, rfl, beliefHolds⟩
  have inRange : collection.length ∈ List.range' 1 (limit settings base) := by
    have nonempty := makesRoom.nonempty
    have limited := makesRoom.limited
    rw [List.mem_range'_1]
    omega
  rw [find?, if_pos alone, Option.isSome_map, List.findSome?_isSome_iff]
  exact ⟨collection.length, inRange, makesRoom.firstOfSize?_isSome⟩

/-- The search finds a collection exactly when some collection makes room. -/
theorem find?_isSome_iff {settings : Settings} {base : Base} {belief : Belief} :
    (find? settings base belief).isSome = true ↔
      ∃ collection, MakesRoom settings base belief collection := by
  constructor
  · intro found
    obtain ⟨collection, same⟩ := Option.isSome_iff_exists.mp found
    exact ⟨collection, makesRoom_of_find? same⟩
  · rintro ⟨collection, makesRoom⟩
    exact find?_isSome_of_makesRoom makesRoom

/-- Nothing smaller than what is found makes room. -/
theorem length_le_of_find? {settings : Settings} {base : Base} {belief : Belief}
    {collection other : List Nat} (found : find? settings base belief = some collection)
    (makesRoom : MakesRoom settings base belief other) : collection.length ≤ other.length := by
  obtain ⟨ordered, rfl, _, _, _, none⟩ := of_find?_eq_some found
  rw [List.length_mergeSort]
  by_contra smaller
  have first := makesRoom.firstOfSize?_isSome
  rw [none other.length makesRoom.nonempty (Nat.lt_of_not_le smaller)] at first
  cases first

/-- Which collection of a size is found first does not depend on the settings. -/
theorem firstOfSize?_congr (settings others : Settings) (base : Base) (belief : Belief)
    (size : Nat) :
    firstOfSize? settings base belief size = firstOfSize? others base belief size := by
  have sameAdmits (left : Base) : admits settings.tautologyPruning left belief =
      admits others.tautologyPruning left belief := admits_congr (fun _ => rfl) left
  simp only [firstOfSize?, sameAdmits]

/-- Under any two settings the same collections are tried in the same order, so that nothing
different is found where something is found under both. -/
theorem eq_of_find?_eq_some {settings others : Settings} {base : Base} {belief : Belief}
    {collection other : List Nat} (found : find? settings base belief = some collection)
    (foundOther : find? others base belief = some other) : collection = other := by
  obtain ⟨first, rfl, nonempty, _, here, none⟩ := of_find?_eq_some found
  obtain ⟨second, rfl, otherNonempty, _, there, otherNone⟩ := of_find?_eq_some foundOther
  rw [firstOfSize?_congr others settings] at there
  rcases Nat.lt_trichotomy first.length second.length with shorter | same | longer
  · have notFound := otherNone first.length nonempty shorter
    rw [firstOfSize?_congr others settings, here] at notFound
    cases notFound
  · rw [same, there] at here
    exact congrArg (·.mergeSort) (Option.some.inj here).symm
  · have notFound := none second.length otherNonempty longer
    rw [there] at notFound
    cases notFound

/-- What is found under one limit is found under another as long as that is not exceeded. -/
theorem find?_of_find? {settings others : Settings} {base : Base} {belief : Belief}
    {collection : List Nat} (found : find? settings base belief = some collection) :
    find? others base belief =
      if collection.length ≤ limit others base then some collection else none := by
  have room := makesRoom_of_find? found
  split
  case isTrue within =>
    have otherRoom : MakesRoom others base belief collection :=
      ⟨room.distinct, room.inside, room.nonempty, within, room.admits⟩
    obtain ⟨other, foundOther⟩ :=
      Option.isSome_iff_exists.mp (find?_isSome_of_makesRoom otherRoom)
    rw [foundOther, eq_of_find?_eq_some found foundOther]
  case isFalse beyond =>
    cases foundOther : find? others base belief with
    | none => rfl
    | some other =>
      have limited := (makesRoom_of_find? foundOther).limited
      rw [← eq_of_find?_eq_some found foundOther] at limited
      exact absurd limited beyond

end Contraction
end BeliefRevision
