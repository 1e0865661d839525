import BeliefRevision.Token.Lexer
import Mathlib.Data.List.Chain

/-!
# Splitting what was written

A written token is read back as itself, whichever of its forms it has, where no letter
follows the name of an atom. Tokens written one after another are therefore read back
where no two atoms are next to each other, each at the place where it was written.
-/

namespace BeliefRevision

/-- A letter of a name is no blank. -/
theorem isBlank_of_isAtomLetter {character : Char} (letter : isAtomLetter character = true) :
    Text.isBlank character = false := by
  simp only [isAtomLetter, Bool.and_eq_true, decide_eq_true_eq] at letter
  have least : 'A'.toNat ≤ character.toNat := letter.1
  have greatest : character.toNat ≤ 'Z'.toNat := letter.2
  have between : 65 ≤ character.toNat ∧ character.toNat ≤ 90 := ⟨least, greatest⟩
  simp only [Text.isBlank, Text.blankCodes, List.contains_eq_mem, decide_eq_false_iff_not,
    List.mem_cons, List.not_mem_nil, or_false]
  omega

namespace Token

/-- The forms in which the token may be written. -/
def spellings : Token → List String
  | .atom name => [name]
  | .top => ["⊤"]
  | .bottom => ["⊥"]
  | .not => ["¬", "!", "~"]
  | .and => ["∧", "&"]
  | .or => ["∨", "|"]
  | .implies => ["→", "->"]
  | .iff => ["↔", "<->"]
  | .opening => ["("]
  | .closing => [")"]

/-- Whether the token is an atom. -/
def isAtom : Token → Bool
  | .atom _ => true
  | _ => false

/-- Whether the text of an atom is a name. -/
def isNamed : Token → Bool
  | .atom name => isAtomName name
  | _ => true

/-- Each token is written as one of its forms. -/
theorem text_mem_spellings (token : Token) : token.text ∈ token.spellings := by
  cases token <;> simp [text, spellings]

/-- Whether the characters begin with a letter of a name. -/
def beginsWithLetter (characters : List Char) : Bool := characters.head?.any isAtomLetter

/-- The letters of a name are taken together, as many as there are. -/
theorem takeWhile_letters {letters rest : List Char} (all : letters.all isAtomLetter = true)
    (ends : beginsWithLetter rest = false) :
    (letters ++ rest).takeWhile isAtomLetter = letters := by
  rw [List.takeWhile_append_of_pos (List.all_eq_true.mp all)]
  cases rest with
  | nil => simp
  | cons first more =>
    have noLetter : isAtomLetter first = false := ends
    simp [noLetter]

/-- A token which is written is the first to be read, and is read to its end. -/
theorem leading?_spelling {token : Token} {spelling : String} {rest : List Char}
    (spelled : spelling ∈ token.spellings) (named : token.isNamed = true)
    (ends : token.isAtom = true → beginsWithLetter rest = false) :
    ∃ first more, spelling.toList = first :: more ∧ Text.isBlank first = false ∧
      leading? first (more ++ rest) = some (token, more.length) := by
  cases token with
  | atom name =>
    have same : spelling = name := List.mem_singleton.mp spelled
    subst same
    simp only [isNamed, isAtomName, Bool.and_eq_true] at named
    cases letters : spelling.toList with
    | nil => simp [letters] at named
    | cons first more =>
      rw [letters, List.all_cons, Bool.and_eq_true] at named
      refine ⟨first, more, rfl, isBlank_of_isAtomLetter named.2.1, ?_⟩
      unfold leading?
      rw [if_pos named.2.1, takeWhile_letters named.2.2 (ends rfl)]
      simp only [← letters, String.ofList_toList]
  | top | bottom | opening | closing =>
    cases List.mem_singleton.mp spelled
    exact ⟨_, _, rfl, by decide, rfl⟩
  | not =>
    simp only [spellings, List.mem_cons, List.not_mem_nil, or_false] at spelled
    rcases spelled with rfl | rfl | rfl <;> exact ⟨_, _, rfl, by decide, rfl⟩
  | and | or | implies | iff =>
    simp only [spellings, List.mem_cons, List.not_mem_nil, or_false] at spelled
    rcases spelled with rfl | rfl <;> exact ⟨_, _, rfl, by decide, rfl⟩

/-- Blanks are passed over. -/
theorem scan_blanks {blanks : List Char}
    (blank : ∀ character ∈ blanks, Text.isBlank character = true) (position : Nat)
    (found : List Lexeme) (rest : List Char) :
    scan position found (blanks ++ rest) = scan (position + blanks.length) found rest := by
  induction blanks generalizing position with
  | nil => rfl
  | cons first blanks inductionHypothesis =>
    have others := inductionHypothesis
      (fun character member => blank character (List.mem_cons_of_mem first member)) (position + 1)
    rw [List.cons_append, scan, if_pos (blank first List.mem_cons_self), others, List.length_cons]
    congr 1
    omega

/-- Scanning goes on after a written token with the token found. -/
theorem scan_spelling {token : Token} {spelling : String} {rest : List Char} (position : Nat)
    (found : List Lexeme) (spelled : spelling ∈ token.spellings) (named : token.isNamed = true)
    (ends : token.isAtom = true → beginsWithLetter rest = false) :
    scan position found (spelling.toList ++ rest) =
      scan (position + spelling.length) (⟨token, position⟩ :: found) rest := by
  obtain ⟨first, more, written, notBlank, leads⟩ := leading?_spelling spelled named ends
  have length : spelling.length = more.length + 1 := by
    rw [← String.length_toList, written, List.length_cons]
  rw [written, List.cons_append, scan, notBlank, leads, length]
  simp only [Bool.false_eq_true, if_false, List.drop_left]
  congr 1
  omega

/-- No two atoms are next to each other. -/
def Separated (tokens : List Token) : Prop :=
  tokens.IsChain fun first second => first.isAtom = true → second.isAtom = false

/-- The lexemes of the tokens where the first of them is written at the position. -/
def placed (position : Nat) : List Token → List Lexeme
  | [] => []
  | token :: tokens => ⟨token, position⟩ :: placed (position + token.text.length) tokens

/-- Placing tokens adds positions and nothing else. -/
@[simp] theorem map_token_placed (position : Nat) (tokens : List Token) :
    (placed position tokens).map Lexeme.token = tokens := by
  induction tokens generalizing position with
  | nil => rfl
  | cons token tokens inductionHypothesis => simp [placed, inductionHypothesis]

/-- What follows an atom does not begin with a letter. -/
theorem beginsWithLetter_of_not_isAtom {token : Token} {spelling : String}
    (spelled : spelling ∈ token.spellings) (notAtom : token.isAtom = false) (rest : List Char) :
    beginsWithLetter (spelling.toList ++ rest) = false := by
  cases token with
  | atom name => cases notAtom
  | top | bottom | opening | closing =>
    cases List.mem_singleton.mp spelled
    rfl
  | not =>
    simp only [spellings, List.mem_cons, List.not_mem_nil, or_false] at spelled
    rcases spelled with rfl | rfl | rfl <;> rfl
  | and | or | implies | iff =>
    simp only [spellings, List.mem_cons, List.not_mem_nil, or_false] at spelled
    rcases spelled with rfl | rfl <;> rfl

/-- Separate tokens which are written without blanks are found one after another, each where it was
written. -/
theorem scan_join {tokens : List Token} (separated : Separated tokens)
    (named : ∀ token ∈ tokens, token.isNamed = true) (position : Nat) (found : List Lexeme) :
    scan position found (join tokens).toList = .ok (found.reverse ++ placed position tokens) := by
  induction tokens generalizing position found with
  | nil => simp [join, scan, placed]
  | cons token tokens inductionHypothesis =>
    have tokenNamed : token.isNamed = true := named token List.mem_cons_self
    have othersNamed : ∀ other ∈ tokens, other.isNamed = true := by
      intro other member
      exact named other (List.mem_cons_of_mem token member)
    have ends : token.isAtom = true → beginsWithLetter (join tokens).toList = false := by
      intro isAtom
      cases tokens with
      | nil => rfl
      | cons next more =>
        have notAtom := (List.isChain_cons_cons.mp separated).1 isAtom
        simpa [join] using
          beginsWithLetter_of_not_isAtom next.text_mem_spellings notAtom (join more).toList
    have written : (join (token :: tokens)).toList = token.text.toList ++ (join tokens).toList := by
      simp [join]
    rw [written, scan_spelling position found token.text_mem_spellings tokenNamed ends,
      inductionHypothesis (List.IsChain.of_cons separated) othersNamed]
    simp [placed]

/-- Separate tokens which are written without blanks are read back. -/
theorem lexemes_join {tokens : List Token} (separated : Separated tokens)
    (named : ∀ token ∈ tokens, token.isNamed = true) :
    lexemes (join tokens) = .ok (placed 0 tokens) :=
  scan_join separated named 0 []

end Token
end BeliefRevision
