import BeliefRevision.Belief.Basic

/-!
# Bases of beliefs

A base is a sequence of beliefs. Adding a belief whose text is there changes
nothing, so a base which grows by adding alone has each text once. The order has
no meaning for what follows from the base; it is the order of display, and it
breaks ties when beliefs are given up. A text is looked up without the blanks at
its ends.
-/

namespace BeliefRevision

/-- A sequence of beliefs. -/
structure Base where
  beliefs : List Belief
deriving DecidableEq

namespace Base

/-- The base without beliefs. -/
def empty : Base := ⟨[]⟩

/-- The texts of the beliefs, in order. -/
def texts (base : Base) : List String := base.beliefs.map Belief.text

/-- The number of beliefs. -/
def size (base : Base) : Nat := base.beliefs.length

/-- Whether there is no belief. -/
def isEmpty (base : Base) : Bool := base.beliefs.isEmpty

/-- The belief at the index. -/
def get? (base : Base) (index : Nat) : Option Belief := base.beliefs[index]?

/-- Whether some belief has the text. -/
def contains (base : Base) (text : String) : Bool :=
  base.beliefs.any fun belief => belief.text == Text.trim text

/-- The base with the belief at its end, unless one with the same text is there. -/
def push (base : Base) (belief : Belief) : Base :=
  if base.contains belief.text then base else ⟨base.beliefs ++ [belief]⟩

/-- The base of the beliefs in the list, without those which repeat a text. -/
def ofList (beliefs : List Belief) : Base := beliefs.foldl push empty

/-- The first belief with the text. -/
def find? (base : Base) (text : String) : Option Belief :=
  base.beliefs.find? fun belief => belief.text == Text.trim text

/-- The base without the first belief with the text. -/
def remove (base : Base) (text : String) : Base :=
  ⟨base.beliefs.eraseP fun belief => belief.text == Text.trim text⟩

/-- The beliefs whose indices are not in the collection, in order. -/
def without (base : Base) (collection : List Nat) : Base :=
  ⟨(base.beliefs.zipIdx.filter fun entry => !collection.contains entry.2).map Prod.fst⟩

/-- The clauses of each belief, in order. -/
def clauseSets (base : Base) : List ClauseSet := base.beliefs.map Belief.clauses

/-- The clauses of all beliefs, in order. -/
def clauses (base : Base) : ClauseSet := ClauseSet.union base.clauseSets

/-- The texts of the beliefs between braces. -/
def text (base : Base) : String := "\x7b" ++ String.intercalate ", " base.texts ++ "\x7d"

instance : ToString Base := ⟨text⟩

end Base
end BeliefRevision
