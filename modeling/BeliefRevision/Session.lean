import BeliefRevision.Revision.Basic

/-!
# Sessions

A session holds a base and the settings with which it is revised. Revising through
the session keeps the revised base when the revision changed it; a malformed text
leaves the session as it is.
-/

namespace BeliefRevision

/-- A base together with the settings of its revision. -/
structure Session where
  settings : Settings
  base : Base
deriving DecidableEq

namespace Session

/-- Revises the base by the formula written in the text. -/
def revise (session : Session) (text : String) : Except FormulaError (Session × Revision) :=
  match Revision.revise session.settings session.base text with
  | .error cause => .error cause
  | .ok revision =>
    .ok (if revision.changed then { session with base := revision.base } else session, revision)

/-- Removes the belief with the text, without regard to what follows. The step is
missing where there is no such belief. -/
def contract (session : Session) (text : String) : Session × Option Step :=
  match session.base.find? text with
  | none => (session, none)
  | some belief =>
    ({ session with base := session.base.remove text }, some ⟨.removed, belief.text⟩)

/-- Whether the formula written in the text follows from the base. -/
def entails (session : Session) (text : String) : Except FormulaError Bool :=
  Entailment.entailsText session.settings.tautologyPruning session.base.clauseSets text

/-- Whether the base is free of contradiction. -/
def isConsistent (session : Session) : Bool :=
  Resolution.isConsistent session.settings.tautologyPruning session.base.clauses

end Session
end BeliefRevision
