import BeliefRevision.Atom

/-!
# Literals

A literal is an atom with a polarity. Literals are ordered by atom and, for one
atom, the positive literal comes before the negative one.
-/

namespace BeliefRevision

/-- An atom or its negation. -/
structure Literal where
  atom : Atom
  positive : Bool
deriving DecidableEq, Hashable

namespace Literal

/-- The literal of the same atom with the other polarity. -/
def negate (literal : Literal) : Literal := { literal with positive := !literal.positive }

/-- Whether one of the two literals is the negation of the other. -/
def isComplementOf (literal other : Literal) : Bool :=
  literal.atom == other.atom && literal.positive != other.positive

/-- The truth value of the literal when each atom has the given one. -/
def eval (truth : Atom → Bool) (literal : Literal) : Bool :=
  truth literal.atom == literal.positive

/-- The negative literal of an atom is written with the sign of negation. -/
def text (literal : Literal) : String :=
  if literal.positive then literal.atom.name else "¬" ++ literal.atom.name

instance : ToString Literal := ⟨text⟩

/-- Reads a literal: a name, or the sign of negation before a name. The error is
the part which should have been a name. -/
def ofText (text : String) : Except String Literal :=
  let (name, positive) := match text.toList with
    | '¬' :: rest => (String.ofList rest, false)
    | _ => (text, true)
  match Atom.ofName? name with
  | some atom => .ok ⟨atom, positive⟩
  | none => .error name

instance : Ord Literal :=
  ⟨compareLex (compareOn Literal.atom) (compareOn fun literal => !literal.positive)⟩

instance : Std.TransOrd Literal :=
  inferInstanceAs (Std.TransCmp
    (compareLex (compareOn Literal.atom) (compareOn fun literal => !literal.positive)))

instance : Std.LawfulEqOrd Literal where
  eq_of_compare {first second} equal := by
    have parts := Ordering.then_eq_eq.1 equal
    have atomsEqual : compare first.atom second.atom = .eq := parts.1
    have signsEqual : compare (!first.positive) (!second.positive) = .eq := parts.2
    have atoms : first.atom = second.atom := Std.LawfulEqCmp.eq_of_compare atomsEqual
    have signs : (!first.positive) = (!second.positive) :=
      Std.LawfulEqCmp.eq_of_compare signsEqual
    cases first; cases second; simp_all

/-- The negation of a negated literal is the literal again. -/
@[simp] theorem negate_negate (literal : Literal) : literal.negate.negate = literal := by
  simp [negate]

/-- A literal and its negation differ in sign, and are never the same. -/
theorem negate_ne (literal : Literal) : literal.negate ≠ literal := by
  intro same
  have signs := congrArg Literal.positive same
  simp [negate] at signs

/-- A literal is true exactly when its negation is false. -/
@[simp] theorem eval_negate (truth : Atom → Bool) (literal : Literal) :
    literal.negate.eval truth = !literal.eval truth := by
  obtain ⟨atom, positive⟩ := literal
  cases value : truth atom <;> cases positive <;> simp [eval, negate, value]

/-- Complements are exactly the pairs of a literal and its negation. -/
theorem isComplementOf_iff {literal other : Literal} :
    literal.isComplementOf other = true ↔ literal.negate = other := by
  obtain ⟨atom, positive⟩ := literal
  obtain ⟨otherAtom, otherPositive⟩ := other
  cases positive <;> cases otherPositive <;> simp [isComplementOf, negate]

end Literal
end BeliefRevision
