import BeliefRevision.Proofs.Lexing
import Mathlib.Data.List.TakeWhile

/-!
# Ways of writing tokens

Tokens can be written in many ways: each in any of its forms, with any blanks before, between
and after them. Only two atoms which follow each other need a blank between them, as their
letters would run together. Every such writing is split into the tokens again, each at the place
where it was written, and nothing else is split without an error.

The error is at the first character which is not blank and with which no token begins. What
stands before it is a writing of tokens.
-/

namespace BeliefRevision.Token

/-- A token in one of its forms, and the blanks before it. -/
structure Written where
  blanks : List Char
  token : Token
  spelling : String
  blank : ∀ character ∈ blanks, Text.isBlank character = true
  named : token.isNamed = true
  spelled : spelling ∈ token.spellings

namespace Written

/-- What is written for the token. -/
def characters (written : Written) : List Char := written.blanks ++ written.spelling.toList

/-- Between two atoms stands a blank. -/
def Apart (first second : Written) : Prop :=
  first.token.isAtom = true → second.token.isAtom = true → second.blanks ≠ []

/-- The lexemes of tokens which are written one after another from the position on. -/
def lexemesFrom (position : Nat) : List Written → List Lexeme
  | [] => []
  | written :: more =>
    ⟨written.token, position + written.blanks.length⟩ ::
      lexemesFrom (position + written.characters.length) more

end Written

/-- Tokens which are written one after another, and the blanks after the last of them. -/
structure Writing where
  items : List Written
  ending : List Char
  apart : items.IsChain Written.Apart
  blank : ∀ character ∈ ending, Text.isBlank character = true

namespace Writing

/-- Nothing is written. -/
def empty : Writing := ⟨[], [], List.isChain_nil, List.forall_mem_nil _⟩

/-- All that is written. -/
def characters (writing : Writing) : List Char :=
  writing.items.flatMap Written.characters ++ writing.ending

/-- The text which is written. -/
def text (writing : Writing) : String := String.ofList writing.characters

/-- The tokens, each with the number of characters before it. -/
def lexemes (writing : Writing) : List Lexeme := Written.lexemesFrom 0 writing.items

end Writing

/-- The characters begin neither with a blank nor with a token. -/
def IsStuck (characters : List Char) : Prop :=
  ∃ symbol after, characters = symbol :: after ∧ Text.isBlank symbol = false ∧
    leading? symbol after = none

/-- A blank is no letter of a name. -/
theorem isAtomLetter_of_isBlank {character : Char} (blank : Text.isBlank character = true) :
    isAtomLetter character = false := by
  by_contra letter
  rw [isBlank_of_isAtomLetter (Bool.not_eq_false _ ▸ letter)] at blank
  cases blank

/-- What begins with no letter begins with none behind blanks either, as these are no letters. -/
theorem beginsWithLetter_blanks {blanks rest : List Char}
    (blank : ∀ character ∈ blanks, Text.isBlank character = true)
    (ends : beginsWithLetter rest = false) : beginsWithLetter (blanks ++ rest) = false := by
  cases blanks with
  | nil => exact ends
  | cons first more => exact isAtomLetter_of_isBlank (blank first List.mem_cons_self)

/-- The name of an atom begins with a letter. -/
theorem beginsWithLetter_of_isAtom {token : Token} {spelling : String}
    (spelled : spelling ∈ token.spellings) (named : token.isNamed = true)
    (isAtom : token.isAtom = true) (rest : List Char) :
    beginsWithLetter (spelling.toList ++ rest) = true := by
  cases token with
  | atom name =>
    have same : spelling = name := List.mem_singleton.mp spelled
    subst same
    simp only [isNamed, isAtomName, Bool.and_eq_true] at named
    cases letters : spelling.toList with
    | nil => simp [letters] at named
    | cons first more =>
      rw [letters, List.all_cons, Bool.and_eq_true] at named
      exact named.2.1
  | top | bottom | not | and | or | implies | iff | opening | closing => cases isAtom

/-- A token is written with some character. -/
theorem toList_spelling_ne_nil {token : Token} {spelling : String}
    (spelled : spelling ∈ token.spellings) (named : token.isNamed = true) :
    spelling.toList ≠ [] := by
  obtain ⟨first, more, written, _⟩ := @leading?_spelling _ _ [] spelled named fun _ => rfl
  rw [written]
  exact List.cons_ne_nil first more

/-- Where a token begins, one of its forms stands, and the letters of an atom are all taken. -/
theorem spelling_of_leading? {first : Char} {rest : List Char} {token : Token} {more : Nat}
    (leads : leading? first rest = some (token, more)) :
    ∃ spelling ∈ token.spellings, ∃ after, first :: rest = spelling.toList ++ after ∧
      token.isNamed = true ∧ (token.isAtom = true → beginsWithLetter after = false) := by
  unfold leading? at leads
  by_cases letter : isAtomLetter first = true
  · rw [if_pos letter] at leads
    cases leads
    refine ⟨_, List.mem_singleton.mpr rfl, rest.dropWhile isAtomLetter, ?_, ?_, ?_⟩
    · rw [String.toList_ofList, List.cons_append, List.takeWhile_append_dropWhile]
    · have letters : (rest.takeWhile isAtomLetter).all isAtomLetter = true :=
        List.all_eq_true.mpr fun character member => List.mem_takeWhile_imp member
      simp [isNamed, isAtomName, letter, letters]
    · intro _
      have ends := List.head?_dropWhile_not isAtomLetter rest
      unfold beginsWithLetter
      cases next : (rest.dropWhile isAtomLetter).head? with
      | none => rfl
      | some character =>
        rw [next] at ends
        exact ends
  · rw [if_neg letter] at leads
    -- No letter begins the token, and so one of its few forms stands there.
    split at leads <;> cases leads <;>
      first
        | exact ⟨_, .head _, _, rfl, rfl, fun isAtom => by cases isAtom⟩
        | exact ⟨_, .tail _ (.head _), _, rfl, rfl, fun isAtom => by cases isAtom⟩
        | exact ⟨_, .tail _ (.tail _ (.head _)), _, rfl, rfl, fun isAtom => by cases isAtom⟩

/-- Scanning stops where it is stuck. -/
theorem scan_of_leading?_none {symbol : Char} {after : List Char}
    (notBlank : Text.isBlank symbol = false) (none : leading? symbol after = none)
    (position : Nat) (found : List Lexeme) :
    scan position found (symbol :: after) = .error (.unknownSymbol symbol position) := by
  rw [scan, notBlank, none]
  rfl

/-- A token begins where one of its forms stands. An atom may go on there. -/
theorem leading?_ne_none {token : Token} {spelling : String} {symbol : Char} {after : List Char}
    (spelled : spelling ∈ token.spellings) (named : token.isNamed = true)
    (stands : spelling.toList <+: symbol :: after) : leading? symbol after ≠ none := by
  obtain ⟨rest, same⟩ := stands
  by_cases isAtom : token.isAtom = true
  · have letter := beginsWithLetter_of_isAtom spelled named isAtom rest
    rw [same] at letter
    have letter : isAtomLetter symbol = true := letter
    unfold leading?
    rw [if_pos letter]
    nofun
  · obtain ⟨first, more, written, _, leads⟩ :=
      @leading?_spelling _ _ rest spelled named fun yes => absurd yes isAtom
    rw [written, List.cons_append] at same
    obtain ⟨rfl, rfl⟩ := List.cons.inj same
    rw [leads]
    nofun

namespace Written

/-- What is apart from an atom does not continue its name. -/
theorem beginsWithLetter_characters {written : Written}
    (free : written.token.isAtom = true → written.blanks ≠ []) (rest : List Char) :
    beginsWithLetter (written.characters ++ rest) = false := by
  unfold characters
  cases blanks : written.blanks with
  | nil =>
    have notAtom : written.token.isAtom = false := by
      by_contra isAtom
      exact free (Bool.not_eq_false _ ▸ isAtom) blanks
    exact beginsWithLetter_of_not_isAtom written.spelled notAtom rest
  | cons first more =>
    exact isAtomLetter_of_isBlank (written.blank first (blanks ▸ List.mem_cons_self))

/-- Scanning finds the tokens one after another and goes on behind the last of them. -/
theorem scan_items {items : List Written} (apart : items.IsChain Apart) {rest : List Char}
    (ends : beginsWithLetter rest = false) (position : Nat) (found : List Lexeme) :
    scan position found (items.flatMap characters ++ rest) =
      scan (position + (items.flatMap characters).length)
        ((lexemesFrom position items).reverse ++ found) rest := by
  induction items generalizing position found with
  | nil => rfl
  | cons written items inductionHypothesis =>
    have following : written.token.isAtom = true →
        beginsWithLetter (items.flatMap characters ++ rest) = false := by
      intro isAtom
      cases items with
      | nil => exact ends
      | cons next more =>
        have free := (List.isChain_cons_cons.mp apart).1 isAtom
        rw [List.flatMap_cons, List.append_assoc]
        exact beginsWithLetter_characters free _
    have first : (written :: items).flatMap characters ++ rest =
        written.blanks ++ (written.spelling.toList ++ (items.flatMap characters ++ rest)) := by
      simp [characters]
    rw [first, scan_blanks written.blank, scan_spelling _ _ written.spelled written.named following,
      inductionHypothesis (List.IsChain.of_cons apart)]
    simp [lexemesFrom, characters, String.length_toList, Nat.add_assoc]

end Written

namespace Writing

variable {writing : Writing} {rest : List Char}

/-- A writing is scanned to its end, where no letter follows it. -/
theorem scan_characters (ends : beginsWithLetter rest = false) :
    scan 0 [] (writing.characters ++ rest) =
      scan writing.characters.length writing.lexemes.reverse rest := by
  rw [characters, List.append_assoc,
    Written.scan_items writing.apart (beginsWithLetter_blanks writing.blank ends),
    scan_blanks writing.blank]
  simp [lexemes]

/-- Every writing is split into the tokens which were written. -/
theorem lexemes_text (writing : Writing) : Token.lexemes writing.text = .ok writing.lexemes := by
  have scanned := @scan_characters writing [] rfl
  rw [List.append_nil] at scanned
  rw [Token.lexemes, text, String.toList_ofList, scanned, scan, List.reverse_reverse]

/-- The text of a writing and of what follows it is not split where that is stuck. -/
theorem lexemes_stuck {symbol : Char} {after : List Char} (notBlank : Text.isBlank symbol = false)
    (none : leading? symbol after = none) {text : String}
    (same : text.toList = writing.characters ++ symbol :: after) :
    Token.lexemes text = .error (.unknownSymbol symbol writing.characters.length) := by
  have ends : beginsWithLetter (symbol :: after) = false := by
    by_contra letter
    have letter : isAtomLetter symbol = true := Bool.not_eq_false _ ▸ letter
    simp [leading?, letter] at none
  rw [Token.lexemes, same, scan_characters ends, scan_of_leading?_none notBlank none]

/-- A blank in front belongs to the first token, or to the ending where there is none. -/
theorem exists_blank_cons {first : Char} (blank : Text.isBlank first = true) (writing : Writing) :
    ∃ longer : Writing, longer.characters = first :: writing.characters := by
  obtain ⟨items, ending, apart, endingBlank⟩ := writing
  cases items with
  | nil => exact ⟨⟨[], first :: ending, apart, List.forall_mem_cons.mpr ⟨blank, endingBlank⟩⟩, rfl⟩
  | cons written items =>
    let indented : Written := { written with
      blanks := first :: written.blanks
      blank := List.forall_mem_cons.mpr ⟨blank, written.blank⟩ }
    have indentedApart : (indented :: items).IsChain Written.Apart := by
      cases items with
      | nil => exact List.isChain_singleton _
      | cons next more =>
        obtain ⟨nextApart, moreApart⟩ := List.isChain_cons_cons.mp apart
        exact List.isChain_cons_cons.mpr ⟨nextApart, moreApart⟩
    exact ⟨⟨indented :: items, ending, indentedApart, endingBlank⟩, rfl⟩

/-- So does a token, if it is an atom only where no letter follows. -/
theorem exists_token_cons {token : Token} {spelling : String} (spelled : spelling ∈ token.spellings)
    (named : token.isNamed = true) (writing : Writing)
    (ends : token.isAtom = true → beginsWithLetter (writing.characters ++ rest) = false) :
    ∃ longer : Writing, longer.characters = spelling.toList ++ writing.characters := by
  obtain ⟨items, ending, apart, endingBlank⟩ := writing
  let first : Written := ⟨[], token, spelling, nofun, named, spelled⟩
  have firstApart : (first :: items).IsChain Written.Apart := by
    cases items with
    | nil => exact List.isChain_singleton _
    | cons next more =>
      refine List.isChain_cons_cons.mpr ⟨?_, apart⟩
      intro isAtom alsoAtom noBlank
      have begins : characters ⟨next :: more, ending, apart, endingBlank⟩ ++ rest =
          next.spelling.toList ++ (more.flatMap Written.characters ++ ending ++ rest) := by
        simp [characters, Written.characters, noBlank]
      have noLetter := ends isAtom
      rw [begins, beginsWithLetter_of_isAtom next.spelled next.named alsoAtom] at noLetter
      cases noLetter
  refine ⟨⟨first :: items, ending, firstApart, endingBlank⟩, ?_⟩
  simp [characters, first, Written.characters]

/-- Every text is a writing up to its end or up to where it is stuck. The induction is on the
number of characters, of which each token takes some. -/
theorem exists_characters (characters : List Char) :
    ∃ (writing : Writing) (rest : List Char), characters = writing.characters ++ rest ∧
      (rest = [] ∨ IsStuck rest) := by
  induction length : characters.length using Nat.strongRecOn generalizing characters with
  | ind count inductionHypothesis =>
    cases characters with
    | nil => exact ⟨.empty, [], rfl, .inl rfl⟩
    | cons first others =>
      cases blank : Text.isBlank first with
      | true =>
        obtain ⟨writing, rest, rfl, ends⟩ :=
          inductionHypothesis others.length (by simp [← length]) others rfl
        obtain ⟨longer, same⟩ := writing.exists_blank_cons blank
        exact ⟨longer, rest, by rw [same, List.cons_append], ends⟩
      | false =>
        cases leads : leading? first others with
        | none =>
          exact ⟨.empty, first :: others, rfl, .inr ⟨first, others, rfl, blank, leads⟩⟩
        | some result =>
          obtain ⟨spelling, spelled, after, same, named, noLetter⟩ := spelling_of_leading? leads
          have shorter : after.length < count := by
            have nonempty := List.length_pos_iff.mpr (toList_spelling_ne_nil spelled named)
            have total := congrArg List.length same
            rw [length, List.length_append] at total
            omega
          obtain ⟨writing, rest, rfl, ends⟩ := inductionHypothesis after.length shorter after rfl
          obtain ⟨longer, sameLonger⟩ := writing.exists_token_cons spelled named noLetter
          exact ⟨longer, rest, by rw [same, sameLonger, List.append_assoc], ends⟩

/-- Every text is a writing, or goes on where a writing has ended and it is stuck. -/
theorem exists_text (text : String) :
    (∃ writing : Writing, writing.text = text) ∨
      ∃ (writing : Writing) (symbol : Char) (after : List Char),
        text.toList = writing.characters ++ symbol :: after ∧ Text.isBlank symbol = false ∧
          leading? symbol after = none := by
  obtain ⟨writing, rest, same, ends⟩ := exists_characters text.toList
  rcases ends with rfl | ⟨symbol, after, rfl, notBlank, none⟩
  · refine .inl ⟨writing, ?_⟩
    rw [Writing.text, ← List.append_nil writing.characters, ← same, String.ofList_toList]
  · exact .inr ⟨writing, symbol, after, same, notBlank, none⟩

end Writing

/-- Lexemes are found in a text exactly where it is written as them, in some forms and with some
blanks. -/
theorem lexemes_eq_ok_iff {text : String} {lexemes : List Lexeme} :
    Token.lexemes text = .ok lexemes ↔
      ∃ writing : Writing, writing.text = text ∧ writing.lexemes = lexemes := by
  constructor
  · intro split
    rcases Writing.exists_text text with
      ⟨writing, rfl⟩ | ⟨writing, symbol, after, same, notBlank, none⟩
    · rw [writing.lexemes_text] at split
      exact ⟨writing, rfl, Except.ok.inj split⟩
    · rw [Writing.lexemes_stuck notBlank none same] at split
      cases split
  · rintro ⟨writing, rfl, rfl⟩
    exact writing.lexemes_text

/-- What stands at the position where splitting fails. -/
structure IsUnknownAt (text : String) (symbol : Char) (position : Nat) : Prop where
  here : text.toList[position]? = some symbol
  before : ∃ lexemes, Token.lexemes (String.ofList (text.toList.take position)) = .ok lexemes
  notBlank : Text.isBlank symbol = false
  noToken : ∀ token : Token, token.isNamed = true → ∀ spelling ∈ token.spellings,
    ¬ spelling.toList <+: text.toList.drop position

/-- A text is refused exactly for a character which is unknown at its position, with all before it
written as tokens. -/
theorem lexemes_eq_error_iff {text : String} {error : ParseError} :
    Token.lexemes text = .error error ↔
      ∃ symbol position, error = .unknownSymbol symbol position ∧
        IsUnknownAt text symbol position := by
  constructor
  · intro failed
    rcases Writing.exists_text text with
      ⟨writing, rfl⟩ | ⟨writing, symbol, after, same, notBlank, none⟩
    · rw [writing.lexemes_text] at failed
      cases failed
    · rw [Writing.lexemes_stuck notBlank none same] at failed
      refine ⟨symbol, writing.characters.length, (Except.error.inj failed).symm, ?_⟩
      refine ⟨?_, ?_, notBlank, ?_⟩
      · simp [same]
      · refine ⟨writing.lexemes, ?_⟩
        rw [same, List.take_left]
        exact writing.lexemes_text
      · intro token named spelling spelled stands
        rw [same, List.drop_left] at stands
        exact leading?_ne_none spelled named stands none
  · rintro ⟨symbol, position, rfl, here, ⟨lexemes, before⟩, notBlank, noToken⟩
    obtain ⟨writing, written, _⟩ := lexemes_eq_ok_iff.mp before
    obtain ⟨inside, isSymbol⟩ := List.getElem?_eq_some_iff.mp here
    have taken : writing.characters = text.toList.take position := String.ofList_injective written
    have following : text.toList.drop position = symbol :: text.toList.drop (position + 1) := by
      rw [List.drop_eq_getElem_cons inside, isSymbol]
    have same : text.toList = writing.characters ++ symbol :: text.toList.drop (position + 1) := by
      rw [taken, ← following, List.take_append_drop]
    have none : leading? symbol (text.toList.drop (position + 1)) = none := by
      rw [Option.eq_none_iff_forall_ne_some]
      rintro ⟨token, more⟩ leads
      obtain ⟨spelling, spelled, after, stands, named, _⟩ := spelling_of_leading? leads
      rw [← following] at stands
      exact noToken token named spelling spelled ⟨after, stands.symm⟩
    have failed := Writing.lexemes_stuck notBlank none same
    rwa [taken, List.length_take_of_le (Nat.le_of_lt inside)] at failed

/-- A text is split into lexemes exactly where it is a writing of them: of their tokens, each in
one of its forms and with any blanks around it, at the places where they were written. Otherwise
the splitting fails at a character which is not blank and with which no form of a token begins,
and the text before that character is split without an error. -/
theorem lexemes_exact (text : String) :
    (∀ lexemes, Token.lexemes text = .ok lexemes ↔
      ∃ writing : Writing, writing.text = text ∧ writing.lexemes = lexemes) ∧
    ∀ error, Token.lexemes text = .error error ↔
      ∃ symbol position, error = .unknownSymbol symbol position ∧
        IsUnknownAt text symbol position :=
  ⟨fun _ => lexemes_eq_ok_iff, fun _ => lexemes_eq_error_iff⟩

end BeliefRevision.Token
