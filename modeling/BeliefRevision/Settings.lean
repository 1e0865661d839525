/-!
# Settings of revision

What a session may be asked to do differently: whether a belief which already
follows is left out, how many beliefs may be given up at once, and whether
resolution leaves out tautologies.
-/

namespace BeliefRevision

/-- Settings of revision. -/
structure Settings where
  /-- Leave the base as it is when the new belief follows from it. -/
  entailmentCheck : Bool := true
  /-- The greatest number of beliefs which may be given up, if there is one. -/
  contractionLimit : Option Nat := none
  /-- Leave tautologies out of resolution. -/
  tautologyPruning : Bool := true
deriving DecidableEq

namespace Settings

/-- The settings in words, one to a line. -/
def text (settings : Settings) : String :=
  let limit := match settings.contractionLimit with
    | some limit => toString limit
    | none => "none"
  s!"entailment check:  {settings.entailmentCheck}\n" ++
    s!"contraction limit: {limit}\n" ++
    s!"tautology pruning: {settings.tautologyPruning}"

instance : ToString Settings := ⟨text⟩

end Settings
end BeliefRevision
