/-!
# Atoms

An atom is named by a nonempty run of the letters A to Z. The type carries the
proof, so a name is checked once, where an atom is made. Atoms are ordered by
name, and this order fixes the order of literals within a clause.
-/

namespace BeliefRevision

/-- Whether the character may occur in the name of an atom. -/
def isAtomLetter (character : Char) : Bool := 'A' ≤ character && character ≤ 'Z'

/-- Whether the text is the name of an atom. -/
def isAtomName (name : String) : Bool := !name.toList.isEmpty && name.toList.all isAtomLetter

/-- A propositional variable. -/
structure Atom where
  name : String
  named : isAtomName name = true
deriving DecidableEq

namespace Atom

/-- The atom of that name, if the text is a name. -/
def ofName? (name : String) : Option Atom :=
  if named : isAtomName name = true then some ⟨name, named⟩ else none

instance : Hashable Atom where
  hash atom := hash atom.name

instance : Ord Atom := ⟨compareOn Atom.name⟩

instance : Std.TransOrd Atom := inferInstanceAs (Std.TransCmp (compareOn Atom.name))

instance : Std.LawfulEqOrd Atom where
  eq_of_compare {first second} equal := by
    have equal : compare first.name second.name = .eq := equal
    have names : first.name = second.name := Std.LawfulEqCmp.eq_of_compare equal
    cases first; cases second; cases names; rfl

instance : ToString Atom := ⟨Atom.name⟩

/-- Making an atom of a name keeps the name. -/
theorem ofName?_eq_some_iff {name : String} {atom : Atom} :
    ofName? name = some atom ↔ atom.name = name := by
  unfold ofName?
  split
  · constructor
    · intro made
      exact (Option.some.inj made) ▸ rfl
    · intro same
      cases same; rfl
  · rename_i unnamed
    constructor
    · intro made
      cases made
    · intro same
      exact absurd atom.named (same ▸ unnamed)

end Atom
end BeliefRevision
