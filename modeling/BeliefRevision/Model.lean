import BeliefRevision.Formula.Basic

/-!
# Models by enumeration

A valuation gives truth values to finitely many atoms and reads every other atom
as false. The valuations of some atoms are listed with the first atom varying
slowest and false before true, so a model found first is least in that order.
There are two to the number of atoms of them, which suits a few atoms only.
-/

namespace BeliefRevision

/-- Truth values of finitely many atoms. -/
abbrev Valuation := List (Atom × Bool)

namespace Valuation

/-- The value of an atom, which is false where the valuation gives none. -/
def truth (valuation : Valuation) (atom : Atom) : Bool := (valuation.lookup atom).getD false

/-- The valuations of the atoms, in order. -/
def all : List Atom → List Valuation
  | [] => [[]]
  | atom :: atoms =>
    (all atoms).map ((atom, false) :: ·) ++ (all atoms).map ((atom, true) :: ·)

end Valuation

namespace Formula

/-- The atoms which occur in some of the formulas. -/
def atomsOf (formulas : List Formula) : SortedSet Atom := .ofList (formulas.flatMap occurrences)

/-- The first valuation of the atoms of the formulas which makes all of them true. -/
def model? (formulas : List Formula) : Option Valuation :=
  (Valuation.all (atomsOf formulas).elements).find? fun valuation =>
    formulas.all (eval valuation.truth)

/-- Whether some valuation makes all of the formulas true. -/
def isSatisfiable (formulas : List Formula) : Bool := (model? formulas).isSome

end Formula
end BeliefRevision
