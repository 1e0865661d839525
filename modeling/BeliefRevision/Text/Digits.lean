/-!
# Decimal digits

Runs of the digits 0 to 9 and their values.
-/

namespace BeliefRevision.Text

/-- The value with a further digit at its end. -/
def appendDigit (value : Nat) (digit : Char) : Nat :=
  value * 10 + (digit.toNat - '0'.toNat)

/-- The value of a run of digits, where the first counts most. -/
def digitsValue (digits : List Char) : Nat := digits.foldl appendDigit 0

/-- The number of a nonempty run of digits. -/
def natural? (characters : List Char) : Option Nat :=
  if characters.isEmpty || !characters.all Char.isDigit then none
  else some (digitsValue characters)

end BeliefRevision.Text
