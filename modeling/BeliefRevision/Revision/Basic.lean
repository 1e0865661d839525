import BeliefRevision.Contraction
import BeliefRevision.Entailment
import BeliefRevision.Revision.Step

/-!
# Revision

To revise a base by a formula is to give up what contradicts the formula and then
to add it. The first of these which applies decides: a belief with the text is
there; the base is consistent and the formula follows from it, where that is asked
for; the formula contradicts nothing and is added; some beliefs are given up and
the formula is added; nothing within the limit helps, and the base stays as it is.
-/

namespace BeliefRevision

/-- How a revision ended. -/
inductive Outcome where
  /-- A belief with the text was there. -/
  | duplicate
  /-- The belief followed from the base. -/
  | entailed
  /-- The belief was added, and nothing removed. -/
  | expanded
  /-- The beliefs with these texts were removed, and the belief added. -/
  | contracted (removed : List String)
  /-- The belief could not be added. -/
  | unresolved
deriving DecidableEq

/-- Whether the outcome is a change of the base. -/
def Outcome.isChange : Outcome → Bool
  | .duplicate => false
  | .entailed => false
  | .expanded => true
  | .contracted _ => true
  | .unresolved => false

/-- The base after a revision, with the account of how it came about. -/
structure Revision where
  base : Base
  steps : List Step
  outcome : Outcome
deriving DecidableEq

namespace Revision

/-- The kinds of the steps, in order. -/
def kinds (revision : Revision) : List StepKind := revision.steps.map Step.kind

/-- Whether the revision changed the base. -/
def changed (revision : Revision) : Bool := revision.outcome.isChange

/-- Adds a belief which the base may contradict. -/
def ofBelief (settings : Settings) (base : Base) (belief : Belief) : Revision :=
  let text := belief.text
  if Contraction.admits settings.tautologyPruning base belief then
    ⟨base.push belief, [⟨.added, text⟩], .expanded⟩
  else
    match Contraction.find? settings base belief with
    | some collection =>
      let removed := (collection.filterMap base.get?).map Belief.text
      ⟨(base.without collection).push belief,
        ⟨.conflictDetected, text⟩ :: removed.map (⟨.removed, ·⟩) ++ [⟨.added, text⟩],
        .contracted removed⟩
    | none => ⟨base, [⟨.conflictDetected, text⟩, ⟨.unresolved, text⟩], .unresolved⟩

/-- Whether the base is consistent and the formula follows from it. An
inconsistent base is revised as usual, although everything follows from it. -/
def follows (settings : Settings) (base : Base) (formula : Formula) : Except FormulaError Bool :=
  if Resolution.isConsistent settings.tautologyPruning base.clauses then
    Entailment.entails settings.tautologyPruning [base.clauses] formula
  else .ok false

/-- Revises the base by the formula written in the text. -/
def revise (settings : Settings) (base : Base) (text : String) : Except FormulaError Revision :=
  let text := Text.trim text
  match Formula.parse text with
  | .error cause => .error (.parse cause)
  | .ok formula =>
    match Belief.ofFormula text formula with
    | .error cause => .error cause
    | .ok belief =>
      if base.contains text then .ok ⟨base, [⟨.alreadyExists, text⟩], .duplicate⟩
      else if settings.entailmentCheck then
        match follows settings base formula with
        | .error cause => .error cause
        | .ok true => .ok ⟨base, [⟨.alreadyEntailed, text⟩], .entailed⟩
        | .ok false => .ok (ofBelief settings base belief)
      else .ok (ofBelief settings base belief)

end Revision
end BeliefRevision
