import BeliefRevision.Json.Token

/-!
# Reading what was quoted

Every character is read back as its code point, whether it is written as it is or with
a backslash. No code point is half of a pair, so the numbers make up the text again.
-/

namespace BeliefRevision.Json

/-- The digits of a number below sixteen are read as the number. -/
theorem hexValue?_hexDigit : ∀ value < 16, hexValue? (hexDigit value) = some value := by decide

/-- A character below U+0020 is written with its number, which has two zeros first. -/
theorem fourDigits?_control {code : Nat} (control : code < 0x20) :
    fourDigits? '0' '0' (hexDigit (code / 16)) (hexDigit (code % 16)) = some code := by
  have high := hexValue?_hexDigit (code / 16) (by omega)
  have low := hexValue?_hexDigit (code % 16) (by omega)
  have zero : hexValue? '0' = some 0 := by decide
  simp only [fourDigits?, zero, high, low, Option.some.injEq]
  omega

/-- A character is read back as its code point. -/
theorem quoted?_escape (character : Char) (found : List Nat) (taken : Nat) (rest : List Char) :
    quoted? found taken (escape character ++ rest) =
      quoted? (character.toNat :: found) (taken + (escape character).length) rest := by
  unfold escape
  split
  case h_8 notQuote notBackslash _ _ _ _ _ =>
    split
    case isTrue control =>
      simp [quoted?, fourDigits?_control control]
    case isFalse notControl =>
      rw [List.singleton_append, quoted?]
      · rw [if_neg notControl]
        rfl
      · exact notQuote
      · intro _ _ _ _ _ isBackslash _
        exact notBackslash isBackslash
      · intro _ _ isBackslash _
        exact notBackslash isBackslash
  all_goals rfl

/-- Escaped characters are read back as their code points, up to the closing quote. -/
theorem quoted?_flatMap_escape (characters : List Char) (found : List Nat) (taken : Nat)
    (rest : List Char) :
    quoted? found taken (characters.flatMap escape ++ '"' :: rest) =
      some (found.reverse ++ characters.map Char.toNat,
        taken + (characters.flatMap escape).length + 1) := by
  induction characters generalizing found taken with
  | nil => simp [quoted?]
  | cons character characters inductionHypothesis =>
    rw [List.flatMap_cons, List.append_assoc, quoted?_escape, inductionHypothesis]
    simp [Nat.add_assoc]

/-- No character is half of a pair. -/
theorem isUnit_toNat (character : Char) :
    isHighUnit character.toNat = false ∧ isLowUnit character.toNat = false := by
  have valid : character.toNat < 0xD800 ∨ 0xDFFF < character.toNat ∧ character.toNat < 0x110000 :=
    character.valid
  simp only [isHighUnit, isLowUnit, Bool.and_eq_false_iff, decide_eq_false_iff_not]
  omega

/-- Code points are read as their characters. -/
theorem decodeUnits?_map_toNat (characters : List Char) :
    decodeUnits? (characters.map Char.toNat) = some characters := by
  induction characters with
  | nil => rfl
  | cons first others inductionHypothesis =>
    obtain ⟨notHigh, notLow⟩ := isUnit_toNat first
    cases others with
    | nil => simp [decodeUnits?, notHigh, notLow, Char.ofNat_toNat]
    | cons second others =>
      rw [List.map_cons] at inductionHypothesis
      rw [List.map_cons, List.map_cons]
      simp only [decodeUnits?, notHigh, notLow, Bool.or_self, Bool.false_and, Bool.false_eq_true,
        if_false, inductionHypothesis, Option.map_some, Char.ofNat_toNat]

/-- The characters are read as the tokens, whatever was read before and comes after. -/
def Scans (characters : List Char) (tokens : List Token) : Prop :=
  ∀ (found : List Token) (rest : List Char),
    Token.scan found (characters ++ rest) = Token.scan (tokens.reverse ++ found) rest

/-- What is read one part after another is read as a whole. -/
theorem Scans.append {first second : List Char} {firstTokens secondTokens : List Token}
    (firstScans : Scans first firstTokens) (secondScans : Scans second secondTokens) :
    Scans (first ++ second) (firstTokens ++ secondTokens) := by
  intro found rest
  rw [List.append_assoc, firstScans, secondScans, List.reverse_append, List.append_assoc]

/-- Gaps are read as no token. -/
theorem scans_gap {characters : List Char} (gap : characters.all isGap = true) :
    Scans characters [] := by
  induction characters with
  | nil =>
    intro found rest
    rfl
  | cons first others inductionHypothesis =>
    rw [List.all_cons, Bool.and_eq_true] at gap
    intro found rest
    rw [List.cons_append, Token.scan, if_pos gap.1]
    exact inductionHypothesis gap.2 found rest

/-- Brackets, commas and colons are single characters. -/
theorem scans_mark {character : Char} {token : Token} (notGap : isGap character = false)
    (leads : ∀ rest, Token.leading? character rest = some (token, 0)) :
    Scans [character] [token] := by
  intro found rest
  rw [List.singleton_append, Token.scan, notGap, leads]
  rfl

/-- A quoted text is read as one token, which holds the text. -/
theorem scans_quote (text : String) : Scans (quote text).toList [.string (some text)] := by
  intro found rest
  have written : (quote text).toList ++ rest =
      '"' :: (text.toList.flatMap escape ++ '"' :: rest) := by
    simp [quote]
  have leads : Token.leading? '"' (text.toList.flatMap escape ++ '"' :: rest) =
      some (.string (some text), (text.toList.flatMap escape).length + 1) := by
    simp [Token.leading?, quoted?_flatMap_escape, decodeUnits?_map_toNat]
  have notGap : isGap '"' = false := by decide
  have after : (text.toList.flatMap escape ++ '"' :: rest).drop
      ((text.toList.flatMap escape).length + 1) = rest := by
    rw [← List.drop_drop, List.drop_left]
    rfl
  rw [written, Token.scan, notGap, leads]
  simp only [Bool.false_eq_true, if_false, after]
  rfl

end BeliefRevision.Json
