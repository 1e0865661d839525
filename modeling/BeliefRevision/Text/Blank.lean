/-!
# Blank characters

The characters with the Unicode property White_Space: twenty-five code points,
of which six are ASCII. Core's `Char.isWhitespace` knows four of the ASCII ones,
so the property is written out here. Trimming removes blanks from both ends of a
text and touches nothing between them.
-/

namespace BeliefRevision.Text

/-- The code points of the property White_Space, in ascending order. -/
def blankCodes : List Nat :=
  [0x09, 0x0A, 0x0B, 0x0C, 0x0D, 0x20, 0x85, 0xA0, 0x1680,
    0x2000, 0x2001, 0x2002, 0x2003, 0x2004, 0x2005, 0x2006, 0x2007, 0x2008, 0x2009, 0x200A,
    0x2028, 0x2029, 0x202F, 0x205F, 0x3000]

/-- Whether the character separates tokens and is trimmed from the ends of a text. -/
def isBlank (character : Char) : Bool := blankCodes.contains character.toNat

/-- The characters between the first and the last which are not blank. -/
def trimmed (characters : List Char) : List Char :=
  ((characters.dropWhile isBlank).reverse.dropWhile isBlank).reverse

/-- The text without the blanks at its ends. -/
def trim (text : String) : String := String.ofList (trimmed text.toList)

end BeliefRevision.Text
