import BeliefRevision.Proofs.Saturation
import Mathlib.Logic.Function.Basic

/-!
# Resolution decides satisfiability

Clauses closed under resolution, none of them empty, are true together under some
assignment. It is found atom by atom, in such a way that no clause has all of its
literals on the atoms done and false. Were neither value of the next atom possible,
a clause would exclude each of them, and the resolvent of the two clauses would have
been false before.

Left out tautologies are not missed, as a false resolvent is no tautology.
-/

namespace BeliefRevision.Resolution

/-- Whether all literals of the clause are on the atoms and false. -/
def FalsifiedOn (atoms : List Atom) (truth : Atom → Bool) (clause : Clause) : Prop :=
  ∀ literal ∈ clause, literal.atom ∈ atoms ∧ literal.eval truth = false

/-- A clause is false where all its literals are on the atoms and false. -/
theorem FalsifiedOn.eval {atoms : List Atom} {truth : Atom → Bool} {clause : Clause}
    (falsified : FalsifiedOn atoms truth clause) : clause.eval truth = false :=
  Clause.eval_eq_false_iff.mpr fun literal member => (falsified literal member).2

/-- No clause without the empty one is false before any atom is done. -/
theorem isEmpty_of_falsifiedOn_nil {truth : Atom → Bool} {clause : Clause}
    (falsified : FalsifiedOn [] truth clause) : clause.isEmpty = true :=
  Clause.isEmpty_iff.mpr fun literal member => List.not_mem_nil (falsified literal member).1

/-- Where a value for one more atom makes a clause false, each literal of the clause
was false before or is the one which the value excludes. -/
theorem excluded_or_false {atoms : List Atom} {truth : Atom → Bool} {atom : Atom} {value : Bool}
    {clause : Clause}
    (falsified : FalsifiedOn (atom :: atoms) (Function.update truth atom value) clause) :
    ∀ literal ∈ clause, literal ≠ ⟨atom, !value⟩ →
      literal.atom ∈ atoms ∧ literal.eval truth = false := by
  intro literal member other
  obtain ⟨onAtoms, isFalse⟩ := falsified literal member
  by_cases same : literal.atom = atom
  · refine absurd ?_ other
    obtain ⟨_, positive⟩ := literal
    subst same
    cases positive <;> cases value <;> simp_all [Literal.eval]
  · refine ⟨(List.mem_cons.mp onAtoms).resolve_left same, ?_⟩
    simpa [Literal.eval, Function.update_of_ne same] using isFalse

/-- A clause which was not false before holds the literal which the value excludes. -/
theorem excluded_mem {atoms : List Atom} {truth : Atom → Bool} {atom : Atom} {value : Bool}
    {clause : Clause} (possible : ¬ FalsifiedOn atoms truth clause)
    (falsified : FalsifiedOn (atom :: atoms) (Function.update truth atom value) clause) :
    (⟨atom, !value⟩ : Literal) ∈ clause := by
  by_contra absent
  exact possible fun literal member =>
    excluded_or_false falsified literal member fun same => absent (same ▸ member)

/-- For any atoms some assignment leaves no clause of a closure false on them. The
induction is on the atoms; closure under resolution carries the step. -/
theorem closure_assignment {pruning : Bool} {set : ClauseSet} {closed : List Clause}
    (closure : IsClosure pruning set closed) (atoms : List Atom) :
    ∃ truth, ∀ clause ∈ closed, ¬ FalsifiedOn atoms truth clause := by
  induction atoms with
  | nil =>
    refine ⟨fun _ => false, fun clause member falsified => ?_⟩
    have nonempty := closure.nonempty clause member
    rw [isEmpty_of_falsifiedOn_nil falsified] at nonempty
    cases nonempty
  | cons atom atoms inductionHypothesis =>
    obtain ⟨truth, possible⟩ := inductionHypothesis
    by_contra impossible
    have excluded (value : Bool) : ∃ clause ∈ closed,
        FalsifiedOn (atom :: atoms) (Function.update truth atom value) clause := by
      by_contra none
      exact impossible ⟨_, fun clause member falsified => none ⟨clause, member, falsified⟩⟩
    obtain ⟨first, inFirst, firstFalse⟩ := excluded false
    obtain ⟨second, inSecond, secondFalse⟩ := excluded true
    have positive : (⟨atom, true⟩ : Literal) ∈ first :=
      excluded_mem (possible first inFirst) firstFalse
    have negative : (⟨atom, false⟩ : Literal) ∈ second :=
      excluded_mem (possible second inSecond) secondFalse
    have derived : first.resolvent second ⟨atom, true⟩ ∈ first.resolvents second :=
      Clause.mem_resolvents.mpr ⟨⟨atom, true⟩, positive, negative, rfl⟩
    have falsified : FalsifiedOn atoms truth (first.resolvent second ⟨atom, true⟩) := by
      intro literal member
      rcases Clause.mem_resolvent.mp member with ⟨inside, other⟩ | ⟨inside, other⟩
      · exact excluded_or_false firstFalse literal inside other
      · exact excluded_or_false secondFalse literal inside other
    have kept : leftOut pruning (first.resolvent second ⟨atom, true⟩) = false := by
      by_contra out
      have tautology : (first.resolvent second ⟨atom, true⟩).isTautology = true := by
        simp only [leftOut, Bool.not_eq_false, Bool.and_eq_true] at out
        exact out.2
      have holds := Clause.eval_of_isTautology truth tautology
      rw [falsified.eval] at holds
      cases holds
    exact possible _ (closure.resolved first inFirst second inSecond _ derived kept) falsified

/-- A set with a closure is satisfiable. The clauses left out are true in any case. -/
theorem satisfiable_of_closure {pruning : Bool} {set : ClauseSet} {closed : List Clause}
    (closure : IsClosure pruning set closed) : set.Satisfiable := by
  obtain ⟨truth, possible⟩ :=
    closure_assignment closure (closed.flatMap fun clause => clause.toList.map Literal.atom)
  have holds : ∀ clause ∈ closed, clause.eval truth = true := by
    intro clause member
    by_contra notTrue
    have allFalse := Clause.eval_eq_false_iff.mp (Bool.eq_false_of_not_eq_true notTrue)
    refine possible clause member fun literal inside => ⟨?_, allFalse literal inside⟩
    exact List.mem_flatMap.mpr ⟨clause, member, List.mem_map.mpr ⟨literal, inside, rfl⟩⟩
  refine ⟨truth, ClauseSet.eval_eq_true_iff.mpr fun clause member => ?_⟩
  cases out : leftOut pruning clause with
  | false => exact holds clause (closure.given clause member out)
  | true =>
    simp only [leftOut, Bool.and_eq_true] at out
    exact Clause.eval_of_isTautology truth out.2

/-- Resolution finds clauses consistent exactly when they are true together under
some assignment. -/
theorem isConsistent_iff {pruning : Bool} {set : ClauseSet} :
    isConsistent pruning set = true ↔ set.Satisfiable := by
  unfold isConsistent
  rcases saturate_exact pruning set with ⟨closed, ended, closure⟩ | ⟨ended, unsatisfiable⟩
  · rw [ended]
    exact iff_of_true rfl (satisfiable_of_closure closure)
  · rw [ended]
    exact iff_of_false Bool.false_ne_true unsatisfiable

/-- Clauses are found inconsistent exactly when no assignment makes all of them true. -/
theorem isConsistent_eq_false_iff {pruning : Bool} {set : ClauseSet} :
    isConsistent pruning set = false ↔ ¬ set.Satisfiable := by
  rw [← @isConsistent_iff pruning, Bool.not_eq_true]

/-- Whether tautologies are left out makes no difference to what is found consistent. -/
theorem isConsistent_pruning (pruning other : Bool) (set : ClauseSet) :
    isConsistent pruning set = isConsistent other set := by
  rw [Bool.eq_iff_iff, isConsistent_iff, isConsistent_iff]

/-- Resolution is sound and complete, whether or not tautologies are left out. Any
sequence of clauses is refuted when no assignment makes a literal true in each of
them, and saturated when one does. -/
theorem saturate_decides (pruning : Bool) (clauses : List Clause) :
    (saturate pruning ⟨clauses⟩ = .refuted ↔ ¬ ∃ truth : Atom → Bool,
        ∀ clause ∈ clauses, ∃ literal ∈ clause, literal.eval truth = true) ∧
      ((∃ closed, saturate pruning ⟨clauses⟩ = .saturated closed) ↔ ∃ truth : Atom → Bool,
        ∀ clause ∈ clauses, ∃ literal ∈ clause, literal.eval truth = true) := by
  have satisfiable : ClauseSet.Satisfiable ⟨clauses⟩ ↔ ∃ truth : Atom → Bool,
      ∀ clause ∈ clauses, ∃ literal ∈ clause, literal.eval truth = true := by
    simp only [ClauseSet.Satisfiable, ClauseSet.eval_eq_true_iff, Clause.eval_eq_true_iff]
  rw [← satisfiable]
  rcases saturate_exact pruning ⟨clauses⟩ with ⟨closed, ended, closure⟩ | ⟨ended, unsatisfiable⟩
  · have holds := satisfiable_of_closure closure
    simp [ended, holds]
  · simp [ended, unsatisfiable]

end BeliefRevision.Resolution
