import BeliefRevision.Text.Digits

/-!
# Numbers of JSON

No record holds numbers, so of a number it only matters how long it is and whether
it is within the range of binary floating point of double precision.

A number is taken as a word of 64 bits times a power of ten. Its digits fill the
word from the front as far as they fit, and those left over count as places only.
The word and the power are each rounded to the nearest double, and so is their
product, which is out of range where it is infinite. Near the greatest double this
is not the same as to round the exact number once.
-/

namespace BeliefRevision.Json

/-- A number without its sign: a word, and the power of ten it is multiplied by. -/
structure Magnitude where
  word : Nat
  exponent : Int
deriving DecidableEq

namespace Magnitude

/-- The greatest word of 64 bits. -/
def wordLimit : Nat := 18446744073709551615

/-- The greatest power of ten which is a finite double. -/
def exponentLimit : Int := 308

/-- Fills the word with the digits before the point. From the first digit which does
not fit, each is a further power of ten. -/
def ofWhole (word : Nat) : List Char → Magnitude
  | [] => ⟨word, 0⟩
  | digit :: digits =>
    if Text.appendDigit word digit ≤ wordLimit then ofWhole (Text.appendDigit word digit) digits
    else ⟨word, digits.length + 1⟩

/-- Fills the word with the digits after the point, each of which takes a power of
ten away. From the first digit which does not fit, all are dropped. -/
def withFraction (magnitude : Magnitude) : List Char → Magnitude
  | [] => magnitude
  | digit :: digits =>
    if Text.appendDigit magnitude.word digit ≤ wordLimit then
      withFraction ⟨Text.appendDigit magnitude.word digit, magnitude.exponent - 1⟩ digits
    else magnitude

/-- The magnitude times a power of ten. -/
def scale (magnitude : Magnitude) (power : Int) : Magnitude :=
  { magnitude with exponent := magnitude.exponent + power }

/-- Whether the number is within the range of doubles. A word alone always is, and
so is a word divided by a power. -/
def isFinite (magnitude : Magnitude) : Bool :=
  if magnitude.word = 0 || magnitude.exponent < 0 then true
  else if magnitude.exponent > exponentLimit then false
  else
    let power := Float.ofScientific 1 false magnitude.exponent.toNat
    !(magnitude.word.toFloat * power).isInf

end Magnitude

/-- The digits at the front. -/
def leadingDigits (characters : List Char) : List Char := characters.takeWhile Char.isDigit

/-- Reads the point and the digits after it, and says how many characters they are.
At least one digit follows a point; there may also be no point. -/
def fraction? : List Char → Option (List Char × Nat)
  | '.' :: rest =>
    let digits := leadingDigits rest
    if digits.isEmpty then none else some (digits, digits.length + 1)
  | _ => some ([], 0)

/-- Reads the written power of ten, and says how many characters it is. At least one
digit follows its letter and sign; there may also be no power. -/
def power? : List Char → Option (Int × Nat)
  | [] => some (0, 0)
  | first :: rest =>
    if first == 'e' || first == 'E' then
      let (negative, signLength) := match rest with
        | '-' :: _ => (true, 1)
        | '+' :: _ => (false, 1)
        | _ => (false, 0)
      let digits := leadingDigits (rest.drop signLength)
      let power : Int := Text.digitsValue digits
      if digits.isEmpty then none
      else some (if negative then -power else power, digits.length + signLength + 1)
    else some (0, 0)

/-- Reads a number without its sign, and says how many characters it is. Zero is
followed by no further digit before the point. -/
def magnitude? (characters : List Char) : Option (Magnitude × Nat) :=
  let whole := leadingDigits characters
  if whole.isEmpty || (whole.head? == some '0' && whole.length > 1) then none
  else
    let afterWhole := characters.drop whole.length
    match fraction? afterWhole with
    | none => none
    | some (fraction, fractionLength) =>
      match power? (afterWhole.drop fractionLength) with
      | none => none
      | some (power, powerLength) =>
        some (((Magnitude.ofWhole 0 whole).withFraction fraction).scale power,
          whole.length + fractionLength + powerLength)

end BeliefRevision.Json
