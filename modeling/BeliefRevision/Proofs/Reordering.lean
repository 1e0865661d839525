import BeliefRevision.Proofs.Postulates

/-!
# The order of a base

In another order the same beliefs have their clauses in another order, and their indices too.
Collections are then tried in another order, and another one of the smallest may be found. What
follows and what is admitted does not change, nor does the least number of beliefs which have to
go.

The beliefs which a collection leaves are a sublist of the base. As each sublist is what some
collection leaves, those of one order can be found again in the other.
-/

namespace BeliefRevision

namespace Base

/-- The indices of a base are the numbers below its size, in order. -/
theorem map_snd_zipIdx (base : Base) :
    base.beliefs.zipIdx.map Prod.snd = List.range base.size := by
  rw [List.zipIdx_map_snd, List.range_eq_range']
  rfl

/-- A collection leaves as many beliefs as it does not take. -/
theorem size_without {base : Base} {collection : List Nat} (distinct : collection.Nodup)
    (inside : ∀ index ∈ collection, index < base.size) :
    (base.without collection).size + collection.length = base.size := by
  have left : (base.without collection).size =
      ((List.range base.size).filter fun index => !collection.contains index).length := by
    rw [← base.map_snd_zipIdx, List.filter_map, List.length_map]
    simp [without, size, Function.comp_def]
  have taken : ((List.range base.size).filter fun index => collection.contains index).Perm
      collection := by
    rw [List.perm_ext_iff_of_nodup (List.nodup_range.filter _) distinct]
    intro index
    simpa using inside index
  have both := List.length_eq_length_filter_add
    (l := List.range base.size) fun index => collection.contains index
  rw [List.length_range, taken.length_eq] at both
  omega

/-- Entries with different indices are selected by these. -/
theorem filter_snd_mem {entries all : List (Belief × Nat)} (chosen : entries.Sublist all)
    (distinct : (all.map Prod.snd).Nodup) :
    all.filter (fun entry => entry.2 ∈ entries.map Prod.snd) = entries := by
  induction chosen with
  | slnil => rfl
  | @cons entries all entry chosen inductionHypothesis =>
    obtain ⟨absent, distinct⟩ := List.nodup_cons.mp distinct
    have skipped : entry.2 ∉ entries.map Prod.snd :=
      fun member => absent ((chosen.map Prod.snd).subset member)
    rw [List.filter_cons_of_neg (by simpa using skipped), inductionHypothesis distinct]
  | @cons_cons entries all entry chosen inductionHypothesis =>
    obtain ⟨absent, distinct⟩ := List.nodup_cons.mp distinct
    have others : ∀ other ∈ all, decide (other.2 ∈ (entry :: entries).map Prod.snd) =
        decide (other.2 ∈ entries.map Prod.snd) := by
      intro other member
      have different : other.2 ≠ entry.2 := fun same => absent (same ▸ List.mem_map_of_mem member)
      simp [different]
    rw [List.filter_cons_of_pos (by simp), List.filter_congr others, inductionHypothesis distinct]

/-- Any of the beliefs, in their order, are what is left without some collection: without the
indices which they do not stand at. -/
theorem exists_without_of_sublist {base : Base} {kept : List Belief}
    (sublist : kept.Sublist base.beliefs) :
    ∃ collection : List Nat, collection.Nodup ∧ (∀ index ∈ collection, index < base.size) ∧
      base.without collection = ⟨kept⟩ := by
  rw [← List.zipIdx_map_fst 0 base.beliefs] at sublist
  obtain ⟨entries, chosen, rfl⟩ := List.sublist_map_iff.mp sublist
  have distinct : (base.beliefs.zipIdx.map Prod.snd).Nodup := by
    rw [base.map_snd_zipIdx]
    exact List.nodup_range
  refine ⟨(List.range base.size).filter (· ∉ entries.map Prod.snd), List.nodup_range.filter _,
    ?_, ?_⟩
  · intro index member
    exact List.mem_range.mp (List.mem_filter.mp member).1
  · have same : ∀ entry ∈ base.beliefs.zipIdx,
        (!((List.range base.size).filter (· ∉ entries.map Prod.snd)).contains entry.2) =
          decide (entry.2 ∈ entries.map Prod.snd) := by
      intro entry member
      have inside : entry.2 ∈ List.range base.size :=
        List.mem_range.mpr (List.snd_lt_of_mem_zipIdx member)
      rw [List.contains_eq_mem, ← decide_not, decide_eq_decide, List.mem_filter]
      simp [inside, -List.mem_range]
    rw [without, List.filter_congr same, filter_snd_mem chosen distinct]

/-- The same beliefs are true under the same assignments in any order. -/
theorem eval_clauses_of_perm {base other : Base} (reordered : base.beliefs.Perm other.beliefs)
    (truth : Atom → Bool) : base.clauses.eval truth = other.clauses.eval truth := by
  rw [Bool.eq_iff_iff, eval_clauses_iff, eval_clauses_iff]
  simp only [reordered.mem_iff]

end Base

namespace Contraction

/-- A belief is admitted by the same beliefs in any order. -/
theorem admits_of_perm {base other : Base} (reordered : base.beliefs.Perm other.beliefs)
    (pruning : Bool) (belief : Belief) :
    admits pruning base belief = admits pruning other belief := by
  rw [Bool.eq_iff_iff, admits_iff, admits_iff]
  simp only [Base.eval_clauses_of_perm reordered]

/-- Where a collection makes room in one order of the base, one of the same size does in any
other: it takes the same beliefs. -/
theorem MakesRoom.reordered {settings : Settings} {base other : Base} {belief : Belief}
    {collection : List Nat} (makesRoom : MakesRoom settings base belief collection)
    (reordered : base.beliefs.Perm other.beliefs) :
    ∃ moved, MakesRoom settings other belief moved ∧ moved.length = collection.length := by
  obtain ⟨kept, permuted, sublist⟩ :=
    List.exists_perm_sublist (base.without_sublist collection) reordered
  obtain ⟨moved, distinct, inside, leaves⟩ := Base.exists_without_of_sublist sublist
  have sameSize : base.size = other.size := reordered.length_eq
  have sameLength : moved.length = collection.length := by
    have left := Base.size_without makesRoom.distinct makesRoom.inside
    have otherLeft := Base.size_without distinct inside
    have sameLeft : kept.length = (base.without collection).size := permuted.length_eq
    rw [leaves] at otherLeft
    simp only [Base.size] at *
    omega
  have sameLimit : limit settings base = limit settings other := by
    simp only [limit, sameSize]
  refine ⟨moved, ⟨distinct, inside, ?_, ?_, ?_⟩, sameLength⟩
  · exact sameLength ▸ makesRoom.nonempty
  · exact sameLength ▸ sameLimit ▸ makesRoom.limited
  · obtain ⟨truth, holds, beliefHolds⟩ := makesRoom.admits
    have sameMeaning :
        (Base.mk kept).clauses.eval truth = (base.without collection).clauses.eval truth :=
      Base.eval_clauses_of_perm permuted truth
    exact ⟨truth, by rw [leaves, sameMeaning]; exact holds, beliefHolds⟩

/-- What is found in one order is no larger than what is found in another. -/
theorem exists_find?_of_perm {settings : Settings} {base other : Base} {belief : Belief}
    {collection : List Nat} (reordered : base.beliefs.Perm other.beliefs)
    (found : find? settings base belief = some collection) :
    ∃ moved, find? settings other belief = some moved ∧ moved.length ≤ collection.length := by
  obtain ⟨room, makesRoom, sameLength⟩ := (makesRoom_of_find? found).reordered reordered
  obtain ⟨moved, foundOther⟩ := Option.isSome_iff_exists.mp (find?_isSome_of_makesRoom makesRoom)
  exact ⟨moved, foundOther, sameLength ▸ length_le_of_find? foundOther makesRoom⟩

/-- In any order of the base the search finds as many beliefs to give up, if it finds any. -/
theorem length_find?_of_perm {base other : Base} (reordered : base.beliefs.Perm other.beliefs)
    (settings : Settings) (belief : Belief) :
    (find? settings base belief).map List.length =
      (find? settings other belief).map List.length := by
  cases found : find? settings base belief with
  | some collection =>
    obtain ⟨moved, foundOther, shorter⟩ := exists_find?_of_perm reordered found
    obtain ⟨back, foundBack, longer⟩ := exists_find?_of_perm reordered.symm foundOther
    cases found.symm.trans foundBack
    rw [foundOther]
    exact congrArg some (Nat.le_antisymm longer shorter)
  | none =>
    cases foundOther : find? settings other belief with
    | none => rfl
    | some moved =>
      obtain ⟨back, foundBack, _⟩ := exists_find?_of_perm reordered.symm foundOther
      rw [found] at foundBack
      cases foundBack

end Contraction

/-- The outcomes are of the same kind, and as many beliefs were removed in the one as in the
other. -/
inductive Outcome.SameKind : Outcome → Outcome → Prop where
  | duplicate : SameKind .duplicate .duplicate
  | entailed : SameKind .entailed .entailed
  | expanded : SameKind .expanded .expanded
  | contracted {removed others : List String} (sameNumber : removed.length = others.length) :
      SameKind (.contracted removed) (.contracted others)
  | unresolved : SameKind .unresolved .unresolved

/-- An outcome of the kind of a contraction is a contraction which removes as many beliefs. -/
theorem Outcome.SameKind.exists_contracted {removed : List String} {outcome : Outcome}
    (sameKind : Outcome.SameKind (.contracted removed) outcome) :
    ∃ others, outcome = .contracted others ∧ removed.length = others.length := by
  cases sameKind with
  | contracted sameNumber => exact ⟨_, rfl, sameNumber⟩

namespace Revision

/-- In any order of the base a belief is added with the same kind of outcome. -/
theorem ofBelief_reordered {base other : Base} (reordered : base.beliefs.Perm other.beliefs)
    (settings : Settings) (belief : Belief) :
    (ofBelief settings base belief).outcome.SameKind (ofBelief settings other belief).outcome := by
  have sameLengths := Contraction.length_find?_of_perm reordered settings belief
  have sameAdmits := Contraction.admits_of_perm reordered settings.tautologyPruning belief
  cases admits : Contraction.admits settings.tautologyPruning base belief with
  | true =>
    rw [ofBelief_of_admits admits, ofBelief_of_admits (sameAdmits ▸ admits)]
    exact .expanded
  | false =>
    cases found : Contraction.find? settings base belief with
    | some collection =>
      rw [found] at sameLengths
      obtain ⟨moved, foundOther, sameLength⟩ := Option.map_eq_some_iff.mp sameLengths.symm
      rw [ofBelief_of_found admits found, ofBelief_of_found (sameAdmits ▸ admits) foundOther]
      refine .contracted ?_
      rw [length_texts_of_find? found, length_texts_of_find? foundOther, sameLength]
    | none =>
      rw [found] at sameLengths
      have notFound := Option.map_eq_none_iff.mp sameLengths.symm
      rw [ofBelief_of_notFound admits found, ofBelief_of_notFound (sameAdmits ▸ admits) notFound]
      exact .unresolved

/-- The order of a base has no meaning. In any order of the same beliefs a revision is refused for
the same cause or ends in the same way, and gives up as many beliefs. -/
theorem revise_reordered {base other : Base} (reordered : base.beliefs.Perm other.beliefs)
    (settings : Settings) (text : String) :
    Paired (fun revision moved => revision.outcome.SameKind moved.outcome)
      (revise settings base text) (revise settings other text) := by
  have sameTexts : base.texts.Perm other.texts := reordered.map Belief.text
  have sameMeaning := Base.eval_clauses_of_perm reordered
  refine paired_of_added sameTexts.mem_iff ?_ .duplicate .entailed ?_
  · intro formula
    simp only [ClauseSet.Satisfiable, Base.Entails, sameMeaning]
  · intro formula
    exact ofBelief_reordered reordered settings _

/-- Of three beliefs in contradiction as many are given up when they are held the other way
round. -/
theorem revise_reordered_contradiction :
    ∃ revision moved removed others, revise {} contradictoryBase " ¬(P∨Q) " = .ok revision ∧
      revise {} ⟨contradictoryBase.beliefs.reverse⟩ " ¬(P∨Q) " = .ok moved ∧
      revision.outcome = .contracted removed ∧ moved.outcome = .contracted others ∧
      removed.length = others.length := by
  obtain ⟨revision, removed, revised, contracted⟩ := contracted_contradictory
  have paired := @revise_reordered contradictoryBase ⟨contradictoryBase.beliefs.reverse⟩
    (List.reverse_perm _).symm {} " ¬(P∨Q) "
  rw [revised] at paired
  obtain ⟨moved, revisedOther, sameKind⟩ := paired.exists_right
  rw [contracted] at sameKind
  obtain ⟨others, contractedOther, sameNumber⟩ := sameKind.exists_contracted
  exact ⟨revision, moved, removed, others, revised, revisedOther, contracted, contractedOther,
    sameNumber⟩

end Revision
end BeliefRevision
