import BeliefRevision.Entrenchment
import BeliefRevision.Resolution
import BeliefRevision.Settings

/-!
# Making room for a belief

A belief which contradicts a base can be added once some of the base is given up.
Collections of beliefs are tried by size, smallest first, and within a size in
order of entrenchment, up to the limit on their size. The first whose removal
leaves the base consistent with the belief is taken. A belief which is
inconsistent by itself is turned away without a search.
-/

namespace BeliefRevision.Contraction

/-- Whether the base and the belief contradict each other. -/
def admits (pruning : Bool) (base : Base) (belief : Belief) : Bool :=
  Resolution.isConsistent pruning (base.clauses ++ belief.clauses)

/-- The greatest size of a collection which is tried. -/
def limit (settings : Settings) (base : Base) : Nat :=
  min (settings.contractionLimit.getD base.size) base.size

/-- The indices, in ascending order, of the beliefs to give up so that the belief
can be added, if there is such a collection within the limit. -/
def find? (settings : Settings) (base : Base) (belief : Belief) : Option (List Nat) :=
  if admits settings.tautologyPruning .empty belief then
    let found := (List.range' 1 (limit settings base)).findSome? fun size =>
      (Entrenchment.collections base size).find? fun collection =>
        admits settings.tautologyPruning (base.without collection) belief
    found.map fun collection => collection.mergeSort
  else none

end BeliefRevision.Contraction
