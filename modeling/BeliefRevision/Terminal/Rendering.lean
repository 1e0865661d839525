import BeliefRevision.Belief.Base
import BeliefRevision.Revision.Step

/-!
# Output on a terminal

Each step is a line in a colour of the palette by its kind. A base is a line for
each belief, indented by two spaces.
-/

namespace BeliefRevision

/-- The number of the colour in the palette of 256. -/
def StepKind.colour : StepKind → Nat
  | .alreadyExists => 1
  | .alreadyEntailed => 2
  | .conflictDetected => 9
  | .removed => 14
  | .added => 10
  | .unresolved => 11

/-- The line of the step: the colour is set before its message and reset after. -/
def Step.render (step : Step) : String :=
  s!"\x1b[38;5;{step.kind.colour}m{step.message}\x1b[0m\n"

/-- The lines of the steps. -/
def Step.renderAll (steps : List Step) : String := String.join (steps.map Step.render)

/-- The line of the belief, with its normal form if asked for. -/
def Belief.render (withCnf : Bool) (belief : Belief) : String :=
  if withCnf then s!"  {belief.text}  ≡  {belief.cnf}\n" else s!"  {belief.text}\n"

/-- The lines of the beliefs. -/
def Base.render (withCnf : Bool) (base : Base) : String :=
  if base.isEmpty then "  (no beliefs)\n"
  else String.join (base.beliefs.map (Belief.render withCnf))

end BeliefRevision
