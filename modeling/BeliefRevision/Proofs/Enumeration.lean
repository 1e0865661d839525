import BeliefRevision.Model
import BeliefRevision.Proofs.Consequence

/-!
# Satisfiability by enumeration and by resolution

The valuations which are tried give values to the atoms that occur in the formulas.
An assignment to all atoms agrees with one of them there, and so none is missed; a
valuation that is found is an assignment itself, with the other atoms false.

Resolution never sees the formulas. It works on the clauses of their normal forms, from
which atoms may have vanished with the constants beside them. As the clauses keep the
meaning of the formulas, both ways come to the same answer.
-/

namespace BeliefRevision

namespace Valuation

/-- The values which the assignment gives to the atoms. -/
def restrict (truth : Atom → Bool) (atoms : List Atom) : Valuation :=
  atoms.map fun atom => (atom, truth atom)

/-- On its atoms the restriction agrees with the assignment. -/
theorem truth_restrict {truth : Atom → Bool} {atoms : List Atom} {atom : Atom}
    (member : atom ∈ atoms) : (restrict truth atoms).truth atom = truth atom := by
  induction atoms with
  | nil => exact absurd member List.not_mem_nil
  | cons head tail inductionHypothesis =>
    rw [restrict, List.map_cons, Valuation.truth, List.lookup_cons]
    by_cases same : atom = head
    · simp [same]
    · have later := inductionHypothesis ((List.mem_cons.mp member).resolve_left same)
      rw [beq_eq_false_iff_ne.mpr same]
      exact later

/-- No assignment is missed: its values are among those which are listed. -/
theorem restrict_mem_all (truth : Atom → Bool) (atoms : List Atom) :
    restrict truth atoms ∈ all atoms := by
  induction atoms with
  | nil => exact List.mem_singleton.mpr rfl
  | cons head tail inductionHypothesis =>
    have extended := List.mem_map_of_mem (f := ((head, truth head) :: ·)) inductionHypothesis
    rw [all, List.mem_append]
    cases value : truth head with
    | false => exact .inl (value ▸ extended)
    | true => exact .inr (value ▸ extended)

end Valuation

namespace Formula

/-- The atoms of a list of formulas include those of each formula. -/
theorem mem_atomsOf {formulas : List Formula} {formula : Formula} {leaf : Atom}
    (member : formula ∈ formulas) (occurs : leaf ∈ formula.occurrences) :
    leaf ∈ (atomsOf formulas).elements :=
  SortedSet.mem_ofList.mpr (List.mem_flatMap.mpr ⟨formula, member, occurs⟩)

/-- Enumeration decides whether some assignment makes all of the formulas true. -/
theorem isSatisfiable_iff {formulas : List Formula} :
    isSatisfiable formulas = true ↔
      ∃ truth : Atom → Bool, ∀ formula ∈ formulas, formula.eval truth = true := by
  rw [isSatisfiable, model?, List.find?_isSome]
  constructor
  · rintro ⟨valuation, _, holds⟩
    exact ⟨valuation.truth, List.all_eq_true.mp holds⟩
  · rintro ⟨truth, holds⟩
    refine ⟨Valuation.restrict truth (atomsOf formulas).elements,
      Valuation.restrict_mem_all truth _, List.all_eq_true.mpr fun formula member => ?_⟩
    rw [← holds formula member]
    exact formula.eval_congr fun leaf occurs =>
      Valuation.truth_restrict (mem_atomsOf member occurs)

end Formula

namespace Belief

/-- Texts which make beliefs parse, and the clauses of the beliefs are true together
where the formulas are. -/
theorem mapM_ofText {texts : List String}
    (accepted : ∀ text ∈ texts, ∃ belief, ofText text = .ok belief) :
    ∃ beliefs formulas, texts.mapM ofText = .ok beliefs ∧
      texts.mapM (fun text => Formula.parse (Text.trim text)) = .ok formulas ∧
      ∀ truth, (ClauseSet.union (beliefs.map clauses)).eval truth = true ↔
        ∀ formula ∈ formulas, formula.eval truth = true := by
  induction texts with
  | nil => exact ⟨[], [], rfl, rfl, fun truth => by simp⟩
  | cons text texts inductionHypothesis =>
    obtain ⟨belief, made⟩ := accepted text List.mem_cons_self
    obtain ⟨formula, parsed, rfl⟩ := ofText_eq_ok_iff.mp made
    obtain ⟨beliefs, formulas, madeOthers, parsedOthers, meaning⟩ :=
      inductionHypothesis fun other member => accepted other (List.mem_cons_of_mem text member)
    refine ⟨.ofNormalForm text formula :: beliefs, formula :: formulas, ?_, ?_, ?_⟩
    · rw [List.mapM_cons, made, madeOthers]
      rfl
    · rw [List.mapM_cons, parsed, parsedOthers]
      rfl
    · intro truth
      rw [List.forall_mem_cons, ← meaning truth]
      simp

end Belief

namespace Resolution

/-- A saturation is saturated unless it has found a contradiction. -/
theorem Saturation.isSaturated_iff {saturation : Saturation} :
    saturation.isSaturated = true ↔ ∃ closed, saturation = .saturated closed := by
  cases saturation with
  | refuted => simp [isSaturated]
  | saturated closed => simp [isSaturated]

/-- The two ways to decide satisfiability agree: for texts which make beliefs, the clauses
of all of the beliefs saturate exactly when enumeration finds the formulas satisfiable. -/
theorem saturated_iff_isSatisfiable {texts : List String}
    (accepted : ∀ text ∈ texts, ∃ belief, Belief.ofText text = .ok belief) :
    ∃ beliefs formulas, texts.mapM Belief.ofText = .ok beliefs ∧
      texts.mapM (fun text => Formula.parse (Text.trim text)) = .ok formulas ∧
      ∀ pruning, (∃ closed, saturate pruning (ClauseSet.union (beliefs.map Belief.clauses)) =
        .saturated closed) ↔ Formula.isSatisfiable formulas = true := by
  obtain ⟨beliefs, formulas, made, parsed, meaning⟩ := Belief.mapM_ofText accepted
  refine ⟨beliefs, formulas, made, parsed, fun pruning => ?_⟩
  rw [← Saturation.isSaturated_iff, Formula.isSatisfiable_iff]
  exact isConsistent_iff.trans (exists_congr meaning)

/-- Three texts of which no two contradict each other, but all of them together do. -/
theorem saturated_iff_isSatisfiable_cycle :
    (∀ text ∈ ["A↔¬B", " B <-> !C ", "C∧⊤↔¬A"], ∃ belief, Belief.ofText text = .ok belief) ∧
      ∃ beliefs formulas, ["A↔¬B", " B <-> !C ", "C∧⊤↔¬A"].mapM Belief.ofText = .ok beliefs ∧
        ["A↔¬B", " B <-> !C ", "C∧⊤↔¬A"].mapM (fun text => Formula.parse (Text.trim text)) =
          .ok formulas ∧
        ∀ pruning, (∃ closed, saturate pruning (ClauseSet.union (beliefs.map Belief.clauses)) =
          .saturated closed) ↔ Formula.isSatisfiable formulas = true := by
  have first : Formula.parse (Text.trim "A↔¬B") =
      .ok (.iff (.atom ⟨"A", by decide⟩) (.not (.atom ⟨"B", by decide⟩))) := by cbv
  have second : Formula.parse (Text.trim " B <-> !C ") =
      .ok (.iff (.atom ⟨"B", by decide⟩) (.not (.atom ⟨"C", by decide⟩))) := by cbv
  have third : Formula.parse (Text.trim "C∧⊤↔¬A") =
      .ok (.iff (.and (.atom ⟨"C", by decide⟩) .top) (.not (.atom ⟨"A", by decide⟩))) := by cbv
  have accepted : ∀ text ∈ ["A↔¬B", " B <-> !C ", "C∧⊤↔¬A"],
      ∃ belief, Belief.ofText text = .ok belief := by
    intro text member
    simp only [List.mem_cons, List.not_mem_nil, or_false] at member
    rcases member with rfl | rfl | rfl
    · exact ⟨_, Belief.ofText_of_parse first⟩
    · exact ⟨_, Belief.ofText_of_parse second⟩
    · exact ⟨_, Belief.ofText_of_parse third⟩
  exact ⟨accepted, saturated_iff_isSatisfiable accepted⟩

end Resolution
end BeliefRevision
