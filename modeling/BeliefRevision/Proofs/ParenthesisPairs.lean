import BeliefRevision.Proofs.FailedReadings
import BeliefRevision.Proofs.Parentheses

/-!
# Pairs of parentheses

Parentheses are paired in the usual way: a closing one makes a pair with the last opening one
before it which is still open, whatever stands between the two.

Where tokens derive a formula, however they are written, their parentheses make pairs with each
other. What was open before them is open after them, and the same is true of every part of a
derivation. Whether a parenthesis is closed which stands right before a formula is therefore
decided by what follows the formula: it is closed where that closes more parentheses than it
opens.
-/

namespace BeliefRevision

namespace Text

/-- The pairs of parentheses among characters of which the first stands at the position, each by
the places of the two. The places of those which are open before are given, the last one first. -/
def pairsFrom (position : Nat) (isOpen : List Nat) : List Char → List (Nat × Nat)
  | [] => []
  | character :: rest =>
    if character = '(' then pairsFrom (position + 1) (position :: isOpen) rest
    else if character = ')' then
      match isOpen with
      | [] => pairsFrom (position + 1) [] rest
      | last :: others => (last, position) :: pairsFrom (position + 1) others rest
    else pairsFrom (position + 1) isOpen rest

/-- The pairs of parentheses in the text. -/
def parenthesisPairs (text : String) : List (Nat × Nat) := pairsFrom 0 [] text.toList

/-- The characters begin with some which close more parentheses than they open. -/
def ClosesMore (characters : List Char) : Prop :=
  ∃ start, start <+: characters ∧ start.count '(' < start.count ')'

/-- An opening parenthesis is the last one which is open. -/
theorem pairsFrom_opening (position : Nat) (isOpen : List Nat) (rest : List Char) :
    pairsFrom position isOpen ('(' :: rest) =
      pairsFrom (position + 1) (position :: isOpen) rest := rfl

/-- A closing parenthesis makes a pair with the last one which is open. -/
theorem pairsFrom_closing (position last : Nat) (others : List Nat) (rest : List Char) :
    pairsFrom position (last :: others) (')' :: rest) =
      (last, position) :: pairsFrom (position + 1) others rest := rfl

/-- Other characters open and close nothing. -/
theorem pairsFrom_other {character : Char} (other : character ≠ '(' ∧ character ≠ ')')
    (position : Nat) (isOpen : List Nat) (rest : List Char) :
    pairsFrom position isOpen (character :: rest) = pairsFrom (position + 1) isOpen rest := by
  simp only [pairsFrom, other.1, other.2, if_false]

/-- What opens in some characters, or before them, opens before their end. -/
theorem exists_pairsFrom_append {position : Nat} {isOpen : List Nat}
    (earlier : ∀ place ∈ isOpen, place < position) (first rest : List Char) :
    ∃ pairs still, pairsFrom position isOpen (first ++ rest) =
        pairs ++ pairsFrom (position + first.length) still rest ∧
      ∀ pair ∈ pairs, pair.1 < position + first.length := by
  induction first generalizing position isOpen with
  | nil => exact ⟨[], isOpen, rfl, List.forall_mem_nil _⟩
  | cons character first inductionHypothesis =>
    have later : ∀ place ∈ isOpen, place < position + 1 :=
      fun place member => Nat.lt_succ_of_lt (earlier place member)
    have width : position + (character :: first).length = position + 1 + first.length := by
      rw [List.length_cons, Nat.add_assoc, Nat.add_comm 1]
    rw [width, List.cons_append]
    by_cases opening : character = '('
    · subst opening
      exact inductionHypothesis (List.forall_mem_cons.mpr ⟨Nat.lt_succ_self position, later⟩)
    · by_cases closing : character = ')'
      · subst closing
        cases isOpen with
        | nil => exact inductionHypothesis later
        | cons last others =>
          obtain ⟨isLast, areOthers⟩ := List.forall_mem_cons.mp later
          obtain ⟨pairs, still, same, before⟩ := inductionHypothesis areOthers
          refine ⟨(last, position) :: pairs, still, ?_, List.forall_mem_cons.mpr ⟨?_, before⟩⟩
          · rw [pairsFrom_closing, same, List.cons_append]
          · exact Nat.lt_of_lt_of_le isLast (Nat.le_add_right _ _)
      · rw [pairsFrom_other ⟨opening, closing⟩]
        exact inductionHypothesis later

/-- The characters begin with some which close all that is open, all that they open, and more. -/
def ClosesBeyond (isOpen : Nat) (characters : List Char) : Prop :=
  ∃ start, start <+: characters ∧ isOpen + start.count '(' < start.count ')'

section Beyond

variable {isOpen : Nat} {characters : List Char}

/-- Where there are no characters, nothing is closed. -/
theorem not_closesBeyond_nil : ¬ ClosesBeyond isOpen [] := by
  rintro ⟨start, isStart, more⟩
  rw [List.prefix_nil.mp isStart] at more
  exact Nat.not_lt_zero _ more

/-- No beginning without the first character closes anything. -/
theorem closesBeyond_cons {character : Char} :
    ClosesBeyond isOpen (character :: characters) ↔
      ∃ start, start <+: characters ∧
        isOpen + (character :: start).count '(' < (character :: start).count ')' := by
  constructor
  · rintro ⟨start, isStart, more⟩
    rcases List.prefix_cons_iff.mp isStart with rfl | ⟨others, rfl, isOthers⟩
    · exact absurd more (Nat.not_lt_zero _)
    · exact ⟨others, isOthers, more⟩
  · rintro ⟨start, isStart, more⟩
    exact ⟨character :: start, List.cons_prefix_cons.mpr ⟨rfl, isStart⟩, more⟩

/-- An opening parenthesis is one more to be closed. -/
theorem closesBeyond_opening :
    ClosesBeyond isOpen ('(' :: characters) ↔ ClosesBeyond (isOpen + 1) characters := by
  rw [closesBeyond_cons]
  refine exists_congr fun start => and_congr_right fun _ => ?_
  have opened : ('(' :: start).count '(' = start.count '(' + 1 := List.count_cons_self
  have closed : ('(' :: start).count ')' = start.count ')' := List.count_cons_of_ne (by decide)
  rw [opened, closed]
  omega

/-- A closing parenthesis closes one of those which are open. -/
theorem closesBeyond_closing :
    ClosesBeyond (isOpen + 1) (')' :: characters) ↔ ClosesBeyond isOpen characters := by
  rw [closesBeyond_cons]
  refine exists_congr fun start => and_congr_right fun _ => ?_
  have opened : (')' :: start).count '(' = start.count '(' := List.count_cons_of_ne (by decide)
  have closed : (')' :: start).count ')' = start.count ')' + 1 := List.count_cons_self
  rw [opened, closed]
  omega

/-- Where none is open, a closing parenthesis goes beyond that at once. -/
theorem closesBeyond_closing_zero : ClosesBeyond 0 (')' :: characters) :=
  closesBeyond_cons.mpr ⟨[], List.nil_prefix, by decide⟩

/-- Other characters open and close nothing. -/
theorem closesBeyond_other {character : Char} (other : character ≠ '(' ∧ character ≠ ')') :
    ClosesBeyond isOpen (character :: characters) ↔ ClosesBeyond isOpen characters := by
  rw [closesBeyond_cons]
  simp only [List.count_cons_of_ne other.1, List.count_cons_of_ne other.2]
  rfl

end Beyond

/-- An open parenthesis with some others above it is closed where more is closed than they and what
is opened later. -/
theorem exists_mem_pairsFrom_iff {place position : Nat} {above below : List Nat}
    (apart : place ∉ above) (before : place < position) (characters : List Char) :
    (∃ closing, (place, closing) ∈ pairsFrom position (above ++ place :: below) characters) ↔
      ClosesBeyond above.length characters := by
  induction characters generalizing position above with
  | nil =>
    refine iff_of_false ?_ not_closesBeyond_nil
    rintro ⟨closing, member⟩
    exact List.not_mem_nil member
  | cons character characters inductionHypothesis =>
    have later : place < position + 1 := Nat.lt_succ_of_lt before
    by_cases opening : character = '('
    · subst opening
      have apartFromBoth : place ∉ position :: above := by
        rw [List.mem_cons, not_or]
        exact ⟨Nat.ne_of_lt before, apart⟩
      rw [closesBeyond_opening, pairsFrom_opening, ← List.cons_append]
      exact inductionHypothesis apartFromBoth later
    · by_cases closing : character = ')'
      · subst closing
        cases above with
        | nil => exact iff_of_true ⟨position, List.mem_cons_self⟩ closesBeyond_closing_zero
        | cons last others =>
          rw [List.mem_cons, not_or] at apart
          have elsewhere (closing : Nat) : (place, closing) ≠ (last, position) :=
            fun same => apart.1 (Prod.mk.inj same).1
          rw [List.length_cons, closesBeyond_closing, List.cons_append, pairsFrom_closing]
          simp only [List.mem_cons, elsewhere, false_or]
          exact inductionHypothesis apart.2 later
      · rw [pairsFrom_other ⟨opening, closing⟩, closesBeyond_other ⟨opening, closing⟩]
        exact inductionHypothesis apart later

/-- The parentheses among the characters make pairs with each other, and what is open before them
is open after them. -/
def IsNested (characters : List Char) : Prop :=
  ∀ (position : Nat) (isOpen : List Nat) (rest : List Char),
    ∃ pairs, pairsFrom position isOpen (characters ++ rest) =
        pairs ++ pairsFrom (position + characters.length) isOpen rest ∧
      ∀ pair ∈ pairs, position ≤ pair.1

namespace IsNested

/-- Two nested parts one after another are nested, as the second finds open what the first did. -/
theorem append {first second : List Char} (nested : IsNested first)
    (alsoNested : IsNested second) : IsNested (first ++ second) := by
  intro position isOpen rest
  obtain ⟨pairs, same, within⟩ := nested position isOpen (second ++ rest)
  obtain ⟨more, alsoSame, alsoWithin⟩ := alsoNested (position + first.length) isOpen rest
  refine ⟨pairs ++ more, ?_, List.forall_mem_append.mpr ⟨within, ?_⟩⟩
  · rw [List.append_assoc, same, alsoSame, List.length_append, Nat.add_assoc, List.append_assoc]
  · exact fun pair member => (Nat.le_add_right _ _).trans (alsoWithin pair member)

/-- Characters which are no parentheses make no pairs. -/
theorem ofOthers {characters : List Char}
    (others : ∀ character ∈ characters, character ≠ '(' ∧ character ≠ ')') :
    IsNested characters := by
  induction characters with
  | nil => exact fun position isOpen rest => ⟨[], rfl, List.forall_mem_nil _⟩
  | cons character characters inductionHypothesis =>
    obtain ⟨isOther, areOthers⟩ := List.forall_mem_cons.mp others
    have single : IsNested [character] := fun position isOpen rest =>
      ⟨[], pairsFrom_other isOther position isOpen rest, List.forall_mem_nil _⟩
    exact single.append (inductionHypothesis areOthers)

/-- What stands in parentheses makes one more pair with them. -/
theorem enclosed {inside : List Char} (nested : IsNested inside) :
    IsNested ('(' :: inside ++ [')']) := by
  intro position isOpen rest
  obtain ⟨pairs, same, within⟩ := nested (position + 1) (position :: isOpen) (')' :: rest)
  refine ⟨pairs ++ [(position, position + 1 + inside.length)], ?_, ?_⟩
  · have parts : '(' :: inside ++ [')'] ++ rest = '(' :: (inside ++ ')' :: rest) := by simp
    have width : position + ('(' :: inside ++ [')']).length =
        position + 1 + inside.length + 1 := by
      simp
      omega
    rw [parts, pairsFrom_opening, same, pairsFrom_closing, width, List.append_assoc]
    rfl
  · refine List.forall_mem_append.mpr ⟨?_, List.forall_mem_singleton.mpr (Nat.le_refl position)⟩
    exact fun pair member => Nat.le_of_succ_le (within pair member)

/-- A parenthesis right before such characters is closed where what follows them closes more than
it opens. -/
theorem closed_iff {inside : List Char} (nested : IsNested inside) (before rest : List Char) :
    (∃ closing, (before.length, closing) ∈ pairsFrom 0 [] (before ++ '(' :: (inside ++ rest))) ↔
      ClosesMore rest := by
  obtain ⟨pairs, still, same, earlier⟩ :=
    exists_pairsFrom_append (List.forall_mem_nil (· < 0)) before ('(' :: (inside ++ rest))
  rw [Nat.zero_add] at same earlier
  obtain ⟨more, alsoSame, later⟩ := nested (before.length + 1) (before.length :: still) rest
  have notBefore (closing : Nat) : (before.length, closing) ∉ pairs :=
    fun member => Nat.lt_irrefl _ (earlier _ member)
  have notInside (closing : Nat) : (before.length, closing) ∉ more :=
    fun member => Nat.not_succ_le_self _ (later _ member)
  rw [same, pairsFrom_opening, alsoSame]
  simp only [List.mem_append, notBefore, notInside, false_or]
  have within : before.length < before.length + 1 + inside.length := by omega
  have closed := @exists_mem_pairsFrom_iff before.length _ [] still List.not_mem_nil within rest
  simpa only [ClosesMore, ClosesBeyond, List.nil_append, List.length_nil, Nat.zero_add] using closed

end IsNested

end Text

namespace Token.Written

/-- No blank is a parenthesis. -/
theorem isNested_blanks {blanks : List Char}
    (blank : ∀ character ∈ blanks, Text.isBlank character = true) : Text.IsNested blanks := by
  refine .ofOthers fun character member => ⟨?_, ?_⟩
  · rintro rfl
    exact List.count_eq_zero.mp (isMark_opening.count_blanks blank) member
  · rintro rfl
    exact List.count_eq_zero.mp (isMark_closing.count_blanks blank) member

/-- A token which is no parenthesis is written without them. -/
theorem isNested {written : Written}
    (neither : written.token ≠ .opening ∧ written.token ≠ .closing) :
    Text.IsNested written.characters := by
  have opened := isMark_opening.count_written written
  have closed := isMark_closing.count_written written
  rw [if_neg neither.1] at opened
  rw [if_neg neither.2] at closed
  refine .ofOthers fun character member => ⟨?_, ?_⟩
  · rintro rfl
    exact List.count_eq_zero.mp opened member
  · rintro rfl
    exact List.count_eq_zero.mp closed member

/-- An opening parenthesis is written as its one character, behind its blanks. -/
theorem characters_opening {written : Written} (opening : written.token = .opening) :
    written.characters = written.blanks ++ ['('] := by
  have spelled := written.spelled
  rw [opening] at spelled
  rw [characters, List.mem_singleton.mp spelled]
  rfl

/-- So is a closing one. -/
theorem characters_closing {written : Written} (closing : written.token = .closing) :
    written.characters = written.blanks ++ [')'] := by
  have spelled := written.spelled
  rw [closing] at spelled
  rw [characters, List.mem_singleton.mp spelled]
  rfl

end Token.Written

open Token (Written)

/-- Tokens with a derivation have their parentheses in pairs, in whatever way they are written. The
rule for parentheses adds a pair, and no other rule a parenthesis. -/
theorem Derivation.isNested {part : Part} (derivation : Derivation part) {items : List Written}
    (same : items.map Written.token = derivation.tokens) :
    Text.IsNested (items.flatMap Written.characters) := by
  have nothing : Text.IsNested [] := .ofOthers (List.forall_mem_nil _)
  -- A token which is no parenthesis, and what is written after it.
  have behind {first : Written} {others : List Written}
      (neither : first.token ≠ .opening ∧ first.token ≠ .closing)
      (nested : Text.IsNested (others.flatMap Written.characters)) :
      Text.IsNested ((first :: others).flatMap Written.characters) := by
    rw [List.flatMap_cons]
    exact (Written.isNested neither).append nested
  induction derivation generalizing items with
  | top | bottom | atom _ =>
    obtain ⟨first, others, rfl, isFirst, none⟩ := List.map_eq_cons_iff.mp same
    rw [List.map_eq_nil_iff.mp none]
    exact behind (by simp [isFirst]) nothing
  | not operand inductionHypothesis =>
    obtain ⟨first, others, rfl, isFirst, areOthers⟩ := List.map_eq_cons_iff.mp same
    exact behind (by simp [isFirst]) (inductionHypothesis areOthers)
  | enclosed inner inductionHypothesis =>
    obtain ⟨front, last, rfl, isFront, isLast⟩ := List.map_eq_append_iff.mp same
    obtain ⟨first, inside, rfl, isFirst, areInside⟩ := List.map_eq_cons_iff.mp isFront
    obtain ⟨closing, rfl, isClosing⟩ := List.map_eq_singleton_iff.mp isLast
    have parts : (first :: inside ++ [closing]).flatMap Written.characters =
        first.blanks ++
          ('(' :: (inside.flatMap Written.characters ++ closing.blanks) ++ [')']) := by
      simp [Written.characters_opening isFirst, Written.characters_closing isClosing]
    rw [parts]
    have nested := (inductionHypothesis areInside).append (Written.isNested_blanks closing.blank)
    exact (Written.isNested_blanks first.blank).append nested.enclosed
  | operands connective _ first more firstHypothesis moreHypothesis =>
    obtain ⟨front, last, rfl, isFront, isLast⟩ := List.map_eq_append_iff.mp same
    rw [List.flatMap_append]
    exact (firstHypothesis isFront).append (moreHypothesis isLast)
  | finished connective =>
    rw [List.map_eq_nil_iff.mp same]
    exact nothing
  | chained connective _ next more nextHypothesis moreHypothesis =>
    obtain ⟨first, others, rfl, isFirst, areOthers⟩ := List.map_eq_cons_iff.mp same
    obtain ⟨front, last, rfl, isFront, isLast⟩ := List.map_eq_append_iff.mp areOthers
    have nested := (nextHypothesis isFront).append (moreHypothesis isLast)
    rw [← List.flatMap_append] at nested
    exact behind (isFirst ▸ connective.token_ne_parenthesis) nested
  | arrow connective _ right inductionHypothesis =>
    obtain ⟨first, others, rfl, isFirst, areOthers⟩ := List.map_eq_cons_iff.mp same
    exact behind (isFirst ▸ connective.token_ne_parenthesis) (inductionHypothesis areOthers)

end BeliefRevision
