import BeliefRevision.Proofs.Postulates

/-!
# Revision by equivalent formulas

Formulas which are true under the same assignments may have normal forms of different size
and shape, and these are all that a revision looks at. It asks of them only whether they
follow, whether the base admits them, and whether what is left of the base does. None of the
answers tells the formulas apart. The same collection is therefore found for both, and
apart from the new belief itself the revisions come to the same.
-/

namespace BeliefRevision.Revision

/-- The two revisions of the base end in the same way, with the same texts removed. Where
they change the base, the two bases which result are the same but for the last belief, which
is the one belief or the other. -/
structure Alike (base : Base) (belief other : Belief) (first second : Revision) : Prop where
  outcome : first.outcome = second.outcome
  changed : first.changed = true → ∃ kept : List Belief,
    first.base = ⟨kept ++ [belief]⟩ ∧ second.base = ⟨kept ++ [other]⟩
  unchanged : first.changed = false → first.base = base ∧ second.base = base

section
variable {base : Base} {belief other : Belief} {first second : Revision}

/-- Two revisions which put each its own belief behind the same kept ones are alike. -/
theorem Alike.ofAdded (kept : List Belief) (outcome : first.outcome = second.outcome)
    (changed : first.changed = true) (firstBase : first.base = ⟨kept ++ [belief]⟩)
    (secondBase : second.base = ⟨kept ++ [other]⟩) : Alike base belief other first second where
  outcome := outcome
  changed := fun _ => ⟨kept, firstBase, secondBase⟩
  unchanged := by
    intro unchanged
    rw [changed] at unchanged
    cases unchanged

/-- Two revisions which both leave the base as it is are alike. -/
theorem Alike.ofKept (outcome : first.outcome = second.outcome) (unchanged : first.changed = false)
    (firstBase : first.base = base) (secondBase : second.base = base) :
    Alike base belief other first second where
  outcome := outcome
  changed := by
    intro changed
    rw [unchanged] at changed
    cases changed
  unchanged := fun _ => ⟨firstBase, secondBase⟩

end

/-- Beliefs which are true under the same assignments, and of which neither text is there, are
added alike. -/
theorem ofBelief_alike (settings : Settings) {base : Base} {belief other : Belief}
    (same : ∀ truth, belief.clauses.eval truth = other.clauses.eval truth)
    (fresh : Text.trim belief.text ∉ base.texts) (otherFresh : Text.trim other.text ∉ base.texts) :
    Alike base belief other (ofBelief settings base belief) (ofBelief settings base other) := by
  have sameAdmits : Contraction.admits settings.tautologyPruning base belief =
      Contraction.admits settings.tautologyPruning base other := Contraction.admits_congr same base
  have sameFound : Contraction.find? settings base belief =
      Contraction.find? settings base other := Contraction.find?_congr rfl same base
  cases admits : Contraction.admits settings.tautologyPruning base belief with
  | true =>
    rw [ofBelief_of_admits admits, ofBelief_of_admits (sameAdmits ▸ admits)]
    exact .ofAdded base.beliefs rfl rfl (Base.push_of_not_mem fresh)
      (Base.push_of_not_mem otherFresh)
  | false =>
    cases found : Contraction.find? settings base belief with
    | some collection =>
      rw [ofBelief_of_found admits found,
        ofBelief_of_found (sameAdmits ▸ admits) (sameFound ▸ found)]
      have subset := base.texts_without_subset collection
      exact .ofAdded (base.without collection).beliefs rfl rfl
        (Base.push_of_not_mem fun kept => fresh (subset kept))
        (Base.push_of_not_mem fun kept => otherFresh (subset kept))
    | none =>
      rw [ofBelief_of_notFound admits found,
        ofBelief_of_notFound (sameAdmits ▸ admits) (sameFound ▸ found)]
      exact .ofKept rfl rfl rfl rfl

/-- The syntax of a new belief does not matter: by two texts which are not there yet, and whose
formulas are true under the same assignments, a base is revised alike. -/
theorem revise_equivalent {settings : Settings} {base : Base} {text otherText : String}
    {formula otherFormula : Formula} (parsed : Formula.parse (Text.trim text) = .ok formula)
    (otherParsed : Formula.parse (Text.trim otherText) = .ok otherFormula)
    (equivalent : ∀ truth, formula.eval truth = otherFormula.eval truth)
    (fresh : Text.trim text ∉ base.texts) (otherFresh : Text.trim otherText ∉ base.texts) :
    ∃ belief other revision otherRevision,
      Belief.ofText text = .ok belief ∧ Belief.ofText otherText = .ok other ∧
      revise settings base text = .ok revision ∧
      revise settings base otherText = .ok otherRevision ∧
      Alike base belief other revision otherRevision := by
  have sameEntails : base.Entails formula ↔ base.Entails otherFormula := by
    simp only [Base.Entails, equivalent]
  have made := Belief.ofText_of_parse parsed
  have otherMade := Belief.ofText_of_parse otherParsed
  by_cases entailed : settings.entailmentCheck = true ∧ base.clauses.Satisfiable ∧
      base.Entails formula
  · have revised := revise_of_entailed parsed fresh entailed
    rw [sameEntails] at entailed
    have otherRevised := revise_of_entailed otherParsed otherFresh entailed
    exact ⟨_, _, _, _, made, otherMade, revised, otherRevised, .ofKept rfl rfl rfl rfl⟩
  · have revised := revise_of_undecided parsed fresh entailed
    rw [sameEntails] at entailed
    have otherRevised := revise_of_undecided otherParsed otherFresh entailed
    rw [Belief.ofNormalForm_trim] at revised otherRevised
    refine ⟨_, _, _, _, made, otherMade, revised, otherRevised, ofBelief_alike settings ?_ ?_ ?_⟩
    · intro truth
      rw [Belief.eval_ofNormalForm, Belief.eval_ofNormalForm, equivalent]
    · simpa [Belief.ofNormalForm] using fresh
    · simpa [Belief.ofNormalForm] using otherFresh

/-- Denying a disjunction and denying its disjuncts make the same beliefs go. -/
theorem revise_equivalent_negations :
    ∃ belief other revision otherRevision,
      Belief.ofText " ¬(P∨Q) " = .ok belief ∧ Belief.ofText "!Q & !P" = .ok other ∧
      revise {} contradictoryBase " ¬(P∨Q) " = .ok revision ∧
      revise {} contradictoryBase "!Q & !P" = .ok otherRevision ∧
      Alike contradictoryBase belief other revision otherRevision := by
  have parsed : Formula.parse (Text.trim "!Q & !P") =
      .ok (.and (.not (.atom ⟨"Q", by decide⟩)) (.not (.atom ⟨"P", by decide⟩))) := by cbv
  refine revise_equivalent parse_neither parsed (fun truth => ?_) (by decide) (by decide)
  simp [neitherFormula, Formula.eval, Connective.apply, Bool.and_comm]

end BeliefRevision.Revision
