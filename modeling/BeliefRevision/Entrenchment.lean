import BeliefRevision.Belief.Base

/-!
# Entrenchment

How firmly a belief is held is one divided by the size of its largest clause, in
binary floating point, so that facts are held most firmly and wide disjunctions
least. When beliefs have to go, those held least firmly are tried first.

The beliefs of a base are put in removal order: by entrenchment, least first, and
then by their place in the base. The collections of a size are tried in order of
their combined entrenchment, added up from the left in removal order, and then
lexicographically in removal order. They are listed by their places in that order, one
after another, as an odometer goes on.
-/

namespace BeliefRevision

/-- The next selection of as many numbers below the count. The last number which has room
goes up by one, and those after it follow it without a gap. There is none after the
selection in which no number has room. -/
def nextSelection? (count : Nat) (selection : List Nat) : Option (List Nat) :=
  let pivot := selection.zipIdx.reverse.find? fun (number, place) =>
    number < count - selection.length + place
  pivot.map fun (number, place) =>
    selection.take place ++ List.range' (number + 1) (selection.length - place)

/-- Those listed before, in reverse, and then the selection and all which come after it.
There is no result if the limit on their number is reached before. -/
def listSelections (count : Nat) : Nat → List (List Nat) → List Nat → Option (List (List Nat))
  | 0, _, _ => none
  | limit + 1, listed, selection =>
    match nextSelection? count selection with
    | none => some (selection :: listed).reverse
    | some next => listSelections count limit (selection :: listed) next

/-- The selections of that many numbers below the count, in lexicographic order. The limit
is never reached, as there are no more selections than sets of such numbers. -/
def combinations (count size : Nat) : List (List Nat) :=
  if count < size then []
  else (listSelections count (Nat.pow 2 count) [] (List.range size)).getD []

namespace Entrenchment

/-- One divided by the size of the largest clause, and one where all clauses are
empty or there is none. -/
def score (belief : Belief) : Float :=
  match belief.clauses.width with
  | 0 => 1.0
  | width => 1.0 / width.toFloat

/-- Whether the first score comes no later than the second. No score is negative,
and so the bits of scores are in the order of their values. -/
def precedes (first second : Float) : Bool := first.toBits ≤ second.toBits

/-- The values in ascending order of their scores; equal scores keep their order. -/
def sortByScore {α : Type} (score : α → Float) (values : List α) : List α :=
  ((values.map fun value => (score value, value)).mergeSort
    fun first second => precedes first.1 second.1).map Prod.snd

/-- The score of the belief at the index. -/
def scoreAt (base : Base) (index : Nat) : Float := ((base.get? index).map score).getD 1.0

/-- The indices of the base in the order in which beliefs are given up. -/
def removalOrder (base : Base) : List Nat := sortByScore (scoreAt base) (List.range base.size)

/-- The combined score of the beliefs at the indices. -/
def combinedScore (base : Base) (collection : List Nat) : Float :=
  collection.foldl (fun total index => total + scoreAt base index) 0.0

/-- The collections of that many indices in the order in which they are tried. -/
def collections (base : Base) (size : Nat) : List (List Nat) :=
  let order := removalOrder base
  let chosen := combinations order.length size
  sortByScore (combinedScore base) (chosen.map fun places => places.map (order.getD · 0))

end Entrenchment
end BeliefRevision
