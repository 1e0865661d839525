/-!
# Lines of bytes

Input is split at line feeds before it is decoded, so that a line which is not
valid UTF-8 spoils none before it.
-/

namespace BeliefRevision.Input

/-- The text of the bytes of a line, given in reverse. -/
def decode (line : List UInt8) : Option String := String.fromUTF8? ⟨line.reverse.toArray⟩

/-- The lines of the bytes, where `line` holds those since the last line feed in
reverse and `found` the lines before, last one first. What follows the last line
feed is a line unless it is empty. -/
def split (found : List (Option String)) (line : List UInt8) : List UInt8 → List (Option String)
  | [] => (if line.isEmpty then found else decode line :: found).reverse
  | byte :: bytes =>
    if byte = 0x0A then split (decode line :: found) [] bytes
    else split found (byte :: line) bytes

/-- The lines of the bytes without their line feeds, and nothing for a line which is
not valid UTF-8. -/
def lines (bytes : ByteArray) : List (Option String) := split [] [] bytes.toList

end BeliefRevision.Input
