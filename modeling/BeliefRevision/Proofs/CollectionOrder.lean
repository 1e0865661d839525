import BeliefRevision.Proofs.Consequence
import BeliefRevision.Proofs.ContractionSearch
import Mathlib.Data.Finset.Powerset

/-!
# The order of the collections

Three steps lead to the order in which collections are tried. The indices of a base are sorted
by score; the selections of a size are listed by the places of their indices in that order; and
the list is sorted once more, by combined score. Sorting loses nothing and keeps the order of
what has equal scores, and so every set of that many indices is tried once.

Scores are compared by their bits, which is a total order. That a wider belief has a smaller
score is a property of division, and an assumption here.
-/

namespace BeliefRevision

namespace Entrenchment

/-- Scores are compared as whole numbers, and so one which comes before a second comes before all
that the second comes before. -/
theorem precedes_trans (first second third : Float) (earlier : precedes first second = true)
    (later : precedes second third = true) : precedes first third = true := by
  rw [precedes, decide_eq_true_iff] at *
  exact UInt64.le_trans earlier later

/-- Of any two scores one comes before the other, even where they are not numbers. -/
theorem precedes_total (first second : Float) :
    (precedes first second || precedes second first) = true := by
  rw [Bool.or_eq_true, precedes, precedes, decide_eq_true_iff, decide_eq_true_iff]
  exact UInt64.le_total _ _

/-- Equal scores count as in order, which is what makes sorting keep their order. -/
theorem precedes_refl (score : Float) : precedes score score = true :=
  decide_eq_true (UInt64.le_refl _)

section Sorting

variable {α : Type}

/-- The scores are computed once, and sorting by them is sorting the values. -/
theorem sortByScore_eq (score : α → Float) (values : List α) :
    sortByScore score values =
      values.mergeSort fun first second => precedes (score first) (score second) := by
  have paired : (values.mergeSort fun first second => precedes (score first) (score second)).map
      (fun value => (score value, value)) =
        (values.map fun value => (score value, value)).mergeSort
          fun first second => precedes first.1 second.1 :=
    List.map_mergeSort fun _ _ _ _ => rfl
  rw [sortByScore, ← paired, List.map_map]
  exact List.map_id _

/-- Values with one score stand in the order which they had. -/
theorem filter_sortByScore (score : α → Float) (values : List α) (level : Float) :
    (sortByScore score values).filter (fun value => (score value).toBits = level.toBits) =
      values.filter fun value => (score value).toBits = level.toBits := by
  have tied : (values.filter fun value => (score value).toBits = level.toBits).Pairwise
      fun first second => precedes (score first) (score second) = true := by
    rw [List.pairwise_filter]
    refine List.pairwise_of_forall fun first second firstLevel secondLevel => ?_
    rw [decide_eq_true_iff] at firstLevel secondLevel
    rw [precedes, firstLevel, secondLevel]
    exact decide_eq_true (UInt64.le_refl _)
  have kept := List.sublist_mergeSort
    (fun first second third => precedes_trans (score first) (score second) (score third))
    (fun first second => precedes_total (score first) (score second)) tied List.filter_sublist
  have inLevel := kept.filter fun value => (score value).toBits = level.toBits
  simp only [List.filter_filter, Bool.and_self, ← sortByScore_eq] at inLevel
  exact (inLevel.eq_of_length ((sortByScore_perm score values).filter _).length_eq.symm).symm

/-- What is sorted comes in ascending order of scores, and where these are equal in the order
which it had. -/
theorem sortByScore_pairwise {before : α → α → Prop} (score : α → Float) {values : List α}
    (ordered : values.Pairwise before) :
    (sortByScore score values).Pairwise fun first second =>
      precedes (score first) (score second) = true ∧
        (precedes (score second) (score first) = true → before first second) := by
  rw [List.pairwise_iff_forall_sublist]
  intro first second stand
  have ascending : (sortByScore score values).Pairwise fun first second =>
      precedes (score first) (score second) = true := by
    rw [sortByScore_eq]
    exact List.pairwise_mergeSort
      (fun first second third => precedes_trans (score first) (score second) (score third))
      (fun first second => precedes_total (score first) (score second)) values
  rw [List.pairwise_iff_forall_sublist] at ascending
  refine ⟨ascending stand, fun notLess => ?_⟩
  have sameBits : (score second).toBits = (score first).toBits :=
    UInt64.le_antisymm (of_decide_eq_true notLess) (of_decide_eq_true (ascending stand))
  -- Two values with one score are found in the same order before sorting.
  have together := stand.filter fun value => (score value).toBits = (score first).toBits
  rw [filter_sortByScore, List.filter_cons_of_pos (by simp),
    List.filter_cons_of_pos (by simpa using sameBits)] at together
  exact List.pairwise_iff_forall_sublist.mp ordered (together.trans List.filter_sublist)

end Sorting

/-- The width which counts for the score. A belief without a literal counts as one with a
single literal. -/
def countedWidth (belief : Belief) : Nat := max 1 belief.clauses.width

/-- The width which counts for the belief at the index. -/
def widthAt (base : Base) (index : Nat) : Nat := ((base.get? index).map countedWidth).getD 1

/-- The places of the indices in removal order. -/
def places (base : Base) (collection : List Nat) : List Nat :=
  collection.map (removalOrder base).idxOf

/-- The score is one divided by the width, also where this is counted as one. -/
theorem score_eq (belief : Belief) : score belief = 1.0 / (countedWidth belief).toFloat := by
  unfold score countedWidth
  split
  case h_1 noLiteral =>
    rw [noLiteral]
    decide +kernel
  case h_2 width positive =>
    have counted : max 1 belief.clauses.width = belief.clauses.width :=
      Nat.max_eq_right (Nat.pos_of_ne_zero positive)
    rw [counted]

/-- What is assumed of division: of two widths of the base, one divided by the greater is less. -/
def Distinguishes (base : Base) : Prop :=
  ∀ first ∈ base.beliefs, ∀ second ∈ base.beliefs, countedWidth first < countedWidth second →
    precedes (score first) (score second) = false

/-- Removal order has the widest belief first, and equal widths in the order of the base. -/
theorem removalOrder_pairwise {base : Base} (distinguished : Distinguishes base) :
    (removalOrder base).Pairwise fun index other =>
      widthAt base other < widthAt base index ∨
        widthAt base index = widthAt base other ∧ index < other := by
  have byPlace : (List.range base.size).Pairwise fun index other => index < other :=
    List.pairwise_lt_range
  refine (sortByScore_pairwise (scoreAt base) byPlace).imp_of_mem ?_
  intro index other indexMember otherMember ⟨notAbove, tie⟩
  have inside : ∀ place ∈ removalOrder base, ∃ belief ∈ base.beliefs,
      scoreAt base place = score belief ∧ widthAt base place = countedWidth belief := by
    intro place member
    have bound : place < base.beliefs.length :=
      List.mem_range.mp ((removalOrder_perm base).mem_iff.mp member)
    refine ⟨base.beliefs[place], List.getElem_mem bound, ?_, ?_⟩
    · simp [scoreAt, Base.get?, bound]
    · simp [widthAt, Base.get?, bound]
  obtain ⟨first, firstMember, firstScore, firstWidth⟩ := inside index indexMember
  obtain ⟨second, secondMember, secondScore, secondWidth⟩ := inside other otherMember
  rw [firstScore, secondScore] at notAbove tie
  rw [firstWidth, secondWidth]
  rcases Nat.lt_trichotomy (countedWidth first) (countedWidth second) with less | same | greater
  · rw [distinguished first firstMember second secondMember less] at notAbove
    cases notAbove
  · have sameScore : score first = score second := by rw [score_eq, score_eq, same]
    rw [sameScore] at tie
    exact .inr ⟨same, tie (precedes_refl _)⟩
  · exact .inl greater

/-- No index stands in the removal order twice. -/
theorem nodup_removalOrder (base : Base) : (removalOrder base).Nodup :=
  (removalOrder_perm base).nodup_iff.mpr List.nodup_range

/-- An index which comes earlier in removal order has the lesser place. -/
theorem removalOrder_pairwise_place (base : Base) :
    (removalOrder base).Pairwise fun index other =>
      (removalOrder base).idxOf index < (removalOrder base).idxOf other := by
  rw [List.pairwise_iff_getElem]
  intro place other placeBound otherBound earlier
  rw [(nodup_removalOrder base).idxOf_getElem, (nodup_removalOrder base).idxOf_getElem]
  exact earlier

/-- Collections which are in lexicographic order by their places have their lists of places in that
order. -/
theorem places_lt_of_lex {base : Base} {first second : List Nat}
    (lexicographic : List.Lex (fun index other =>
      (removalOrder base).idxOf index < (removalOrder base).idxOf other) first second) :
    places base first < places base second := by
  induction lexicographic with
  | nil => exact .nil
  | cons _ inductionHypothesis => exact .cons inductionHypothesis
  | rel earlier => exact .rel earlier

/-- Collections come in ascending order of their combined scores, and equal scores in
lexicographic order of places. -/
theorem collections_pairwise (base : Base) (size : Nat) :
    (collections base size).Pairwise fun first second =>
      precedes (combinedScore base first) (combinedScore base second) = true ∧
        (precedes (combinedScore base second) (combinedScore base first) = true →
          places base first < places base second) := by
  rw [collections_eq]
  exact sortByScore_pairwise (combinedScore base)
    ((selections_pairwise (removalOrder_pairwise_place base) size).imp places_lt_of_lex)

/-- Two collections of the same indices, both in removal order, are the same. -/
theorem eq_of_toFinset_eq {base : Base} {first second : List Nat}
    (firstChosen : first.Sublist (removalOrder base))
    (secondChosen : second.Sublist (removalOrder base))
    (same : first.toFinset = second.toFinset) : first = second := by
  have permuted : first.Perm second :=
    List.perm_of_nodup_nodup_toFinset_eq (firstChosen.nodup (nodup_removalOrder base))
      (secondChosen.nodup (nodup_removalOrder base)) same
  exact permuted.eq_of_pairwise (fun _ _ _ _ less greater => absurd greater (Nat.lt_asymm less))
    ((removalOrder_pairwise_place base).sublist firstChosen)
    ((removalOrder_pairwise_place base).sublist secondChosen)

/-- No collection is tried twice. -/
theorem nodup_collections (base : Base) (size : Nat) : (collections base size).Nodup := by
  have selected : (selections size (removalOrder base)).Nodup := by
    refine (selections_pairwise (removalOrder_pairwise_place base) size).imp ?_
    rintro first second lexicographic rfl
    exact lt_irrefl _ (places_lt_of_lex lexicographic)
  rw [collections_eq]
  exact (sortByScore_perm _ _).nodup_iff.mpr selected

/-- Each set of so many indices is one of the collections, and that once. -/
theorem collections_sets (base : Base) (size : Nat) :
    ((collections base size).map List.toFinset : Multiset (Finset Nat)) =
      (Finset.powersetCard size (Finset.range base.size)).val := by
  have distinct : ((collections base size).map List.toFinset).Nodup := by
    refine (nodup_collections base size).map_on fun first firstTried second secondTried => ?_
    exact eq_of_toFinset_eq (mem_collections.mp firstTried).1 (mem_collections.mp secondTried).1
  rw [Multiset.Nodup.ext (Multiset.coe_nodup.mpr distinct) (Finset.nodup _)]
  intro set
  rw [Multiset.mem_coe, List.mem_map, Finset.mem_val, Finset.mem_powersetCard]
  constructor
  · rintro ⟨collection, tried, rfl⟩
    obtain ⟨distinct, inside, length⟩ := distinct_of_mem_collections tried
    refine ⟨fun index member => ?_, ?_⟩
    · exact Finset.mem_range.mpr (inside index (List.mem_toFinset.mp member))
    · rw [List.toFinset_card_of_nodup distinct, length]
  · rintro ⟨inside, card⟩
    have bound : ∀ index ∈ set.toList, index < base.size := by
      intro index member
      exact Finset.mem_range.mp (inside (Finset.mem_toList.mp member))
    obtain ⟨ordered, tried, permuted⟩ := exists_mem_collections set.nodup_toList bound
    rw [Finset.length_toList, card] at tried
    exact ⟨ordered, tried, (List.toFinset_eq_of_perm _ _ permuted).trans set.toList_toFinset⟩

/-- A base has no collection of more beliefs than there are. -/
theorem collections_eq_nil {base : Base} {size : Nat} (tooMany : base.size < size) :
    collections base size = [] := by
  rw [List.eq_nil_iff_forall_not_mem]
  intro collection tried
  obtain ⟨chosen, length⟩ := mem_collections.mp tried
  have bound := chosen.length_le
  rw [(removalOrder_perm base).length_eq, List.length_range] at bound
  omega

/-- The one collection without indices takes nothing out. -/
theorem collections_zero (base : Base) : collections base 0 = [[]] := by
  rw [collections_eq, sortByScore_eq, selections, List.mergeSort_singleton]

/-- An order in which the widest belief comes first, and equal widths as in the base. -/
structure IsRemovalOrder (base : Base) (order : List Nat) : Prop where
  perm : order.Perm (List.range base.size)
  widestFirst : order.Pairwise fun index other =>
    widthAt base other < widthAt base index ∨
      widthAt base index = widthAt base other ∧ index < other

/-- A list which has each set of so many indices once, written in removal order, by ascending
combined scores and for equal scores lexicographically. -/
structure IsListing (base : Base) (size : Nat) (listed : List (List Nat)) : Prop where
  sets : (listed.map List.toFinset : Multiset (Finset Nat)) =
    (Finset.powersetCard size (Finset.range base.size)).val
  written : ∀ collection ∈ listed, collection.Sublist (removalOrder base)
  tooMany : base.size < size → listed = []
  none : size = 0 → listed = [[]]
  ascending : listed.Pairwise fun first second =>
    precedes (combinedScore base first) (combinedScore base second) = true ∧
      (precedes (combinedScore base second) (combinedScore base first) = true →
        places base first < places base second)

/-- Beliefs are given up by width and place, and every collection of a size is tried once, in
the order of combined scores. -/
theorem collections_complete (base : Base) (size : Nat) (distinguished : Distinguishes base) :
    IsRemovalOrder base (removalOrder base) ∧ IsListing base size (collections base size) where
  left := ⟨removalOrder_perm base, removalOrder_pairwise distinguished⟩
  right := {
    sets := collections_sets base size
    written := fun _ tried => (mem_collections.mp tried).1
    tooMany := collections_eq_nil
    none := by
      rintro rfl
      exact collections_zero base
    ascending := collections_pairwise base size }

/-- A base with two wide beliefs, one which is a single literal and one without a literal. -/
def unevenBase : Base :=
  ⟨[.ofNormalForm "K" (.atom ⟨"K", by decide⟩),
    .ofNormalForm "L∨M" (.or (.atom ⟨"L", by decide⟩) (.atom ⟨"M", by decide⟩)),
    .ofNormalForm "⊤" .top,
    .ofNormalForm "N∨O" (.or (.atom ⟨"N", by decide⟩) (.atom ⟨"O", by decide⟩))]⟩

/-- Beliefs of one width stay in the order of the base, and one without a literal counts as having
one. The removal order has the two wide ones first, and each pair is listed once. -/
theorem collections_complete_uneven :
    Distinguishes unevenBase ∧ IsRemovalOrder unevenBase (removalOrder unevenBase) ∧
      IsListing unevenBase 2 (collections unevenBase 2) := by
  have distinguished : Distinguishes unevenBase := by
    unfold Distinguishes
    decide +kernel
  exact ⟨distinguished, collections_complete unevenBase 2 distinguished⟩

end Entrenchment
end BeliefRevision
