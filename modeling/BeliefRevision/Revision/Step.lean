/-!
# Steps of a revision

A revision reports what it did as a sequence of steps, each of some kind and about
the text of one belief.
-/

namespace BeliefRevision

/-- What a step of a revision found or did. -/
inductive StepKind where
  /-- A belief with the text is in the base. -/
  | alreadyExists
  /-- The belief follows from the base. -/
  | alreadyEntailed
  /-- The belief contradicts the base. -/
  | conflictDetected
  /-- The belief was removed from the base. -/
  | removed
  /-- The belief was added to the base. -/
  | added
  /-- No removal that was tried lets the belief be added. -/
  | unresolved
deriving DecidableEq

namespace StepKind

/-- The kinds in the order in which they are listed. -/
def all : List StepKind :=
  [.alreadyExists, .alreadyEntailed, .conflictDetected, .removed, .added, .unresolved]

/-- The name of the kind. -/
def name : StepKind → String
  | .alreadyExists => "already-exists"
  | .alreadyEntailed => "already-entailed"
  | .conflictDetected => "conflict-detected"
  | .removed => "removed"
  | .added => "added"
  | .unresolved => "unresolved"

/-- The kind of that name. -/
def ofName? (name : String) : Option StepKind := all.find? (·.name == name)

/-- The name of a kind is the name of no other kind. -/
theorem ofName?_name (kind : StepKind) : ofName? kind.name = some kind := by
  cases kind <;> decide

end StepKind

/-- A step of a revision, about the belief with the text. -/
structure Step where
  kind : StepKind
  belief : String
deriving DecidableEq

namespace Step

/-- The kind and the text. -/
def text (step : Step) : String := s!"{step.kind.name}: {step.belief}"

instance : ToString Step := ⟨text⟩

/-- What happened, in words. -/
def message (step : Step) : String :=
  match step.kind with
  | .alreadyExists => s!"{step.belief} is already in the base"
  | .alreadyEntailed => s!"{step.belief} already follows from the base"
  | .conflictDetected => s!"{step.belief} conflicts with the base"
  | .removed => s!"Removed {step.belief}"
  | .added => s!"Added {step.belief}"
  | .unresolved => s!"Unable to add {step.belief} consistently"

end Step
end BeliefRevision
