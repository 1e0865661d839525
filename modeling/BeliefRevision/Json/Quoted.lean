/-!
# Quoted text

Text between quotation marks. A quotation mark, a backslash and the characters
below U+0020 are written with a backslash, all others as they are.

A reader also meets escapes which are never written: any character may stand as
the hexadecimal number of a UTF-16 unit, and one beyond U+FFFF as a pair of them.
What stands between the marks is therefore first read as numbers, of which a raw
character gives its code point and an escape its unit. The numbers make up a text
unless half of a pair stands alone.
-/

namespace BeliefRevision.Json

/-- The digit of a number below sixteen, in lower case. -/
def hexDigit (value : Nat) : Char :=
  if value < 10 then Char.ofNat ('0'.toNat + value) else Char.ofNat ('a'.toNat + (value - 10))

/-- The value of a hexadecimal digit of either case. -/
def hexValue? (digit : Char) : Option Nat :=
  if '0' ≤ digit && digit ≤ '9' then some (digit.toNat - '0'.toNat)
  else if 'a' ≤ digit && digit ≤ 'f' then some (digit.toNat - 'a'.toNat + 10)
  else if 'A' ≤ digit && digit ≤ 'F' then some (digit.toNat - 'A'.toNat + 10)
  else none

/-- The character as it is written between quotation marks. -/
def escape (character : Char) : List Char :=
  match character with
  | '"' => ['\\', '"']
  | '\\' => ['\\', '\\']
  | '\n' => ['\\', 'n']
  | '\r' => ['\\', 'r']
  | '\t' => ['\\', 't']
  | '\x08' => ['\\', 'b']
  | '\x0c' => ['\\', 'f']
  | _ =>
    if character.toNat < 0x20 then
      ['\\', 'u', '0', '0', hexDigit (character.toNat / 16), hexDigit (character.toNat % 16)]
    else [character]

/-- The text between quotation marks. -/
def quote (text : String) : String :=
  "\"" ++ String.ofList (text.toList.flatMap escape) ++ "\""

/-- The number for the character after a backslash, where that is a whole escape. -/
def shortEscape? : Char → Option Nat
  | '"' => some 0x22
  | '\\' => some 0x5C
  | '/' => some 0x2F
  | 'b' => some 0x08
  | 'f' => some 0x0C
  | 'n' => some 0x0A
  | 'r' => some 0x0D
  | 't' => some 0x09
  | _ => none

/-- The number of four hexadecimal digits. -/
def fourDigits? (first second third fourth : Char) : Option Nat :=
  match hexValue? first, hexValue? second, hexValue? third, hexValue? fourth with
  | some first, some second, some third, some fourth =>
    some (((first * 16 + second) * 16 + third) * 16 + fourth)
  | _, _, _, _ => none

/-- Reads up to the closing quotation mark: the numbers of what stands before it
and how many characters were read. The numbers found before are in reverse. -/
def quoted? (found : List Nat) (taken : Nat) : List Char → Option (List Nat × Nat)
  | [] => none
  | '"' :: _ => some (found.reverse, taken + 1)
  | '\\' :: 'u' :: first :: second :: third :: fourth :: rest =>
    match fourDigits? first second third fourth with
    | some unit => quoted? (unit :: found) (taken + 6) rest
    | none => none
  | '\\' :: character :: rest =>
    match shortEscape? character with
    | some code => quoted? (code :: found) (taken + 2) rest
    | none => none
  | character :: rest =>
    if character.toNat < 0x20 then none
    else quoted? (character.toNat :: found) (taken + 1) rest

/-- Whether the number is the first half of a pair of units. -/
def isHighUnit (code : Nat) : Bool := 0xD800 ≤ code && code < 0xDC00

/-- Whether the number is the second half of a pair of units. -/
def isLowUnit (code : Nat) : Bool := 0xDC00 ≤ code && code < 0xE000

/-- The characters of the numbers, if no half of a pair stands alone. -/
def decodeUnits? : List Nat → Option (List Char)
  | [] => some []
  | [code] => if isHighUnit code || isLowUnit code then none else some [Char.ofNat code]
  | code :: next :: rest =>
    if isHighUnit code && isLowUnit next then
      (decodeUnits? rest).map
        (Char.ofNat (0x10000 + (code - 0xD800) * 0x400 + (next - 0xDC00)) :: ·)
    else if isHighUnit code || isLowUnit code then none
    else (decodeUnits? (next :: rest)).map (Char.ofNat code :: ·)

end BeliefRevision.Json
