import BeliefRevision.Proofs.QuotedText
import BeliefRevision.Proofs.Trimming
import BeliefRevision.Store.Basic

/-!
# Reading records back

Records which are written with a line for each member are read as the objects they
stand for, whatever texts they hold. Nothing in them needs the leniency of a reader, so
that an error of a record always has words of its own. A belief is read from its record in two
steps: its text and its normal form are taken out, and then the clauses are read off the latter.
-/

namespace BeliefRevision.Json

/-- The tokens of a member of a record. -/
def memberTokens (entry : String × String) : List Token :=
  [.string (some entry.1), .colon, .string (some entry.2)]

/-- The tokens of a record. -/
def recordTokens (record : Record) : List Token :=
  .openObject :: [Token.comma].intercalate (record.map memberTokens) ++ [.closeObject]

/-- The tokens of a list of records. -/
def listTokens (records : List Record) : List Token :=
  .openArray :: [Token.comma].intercalate (records.map recordTokens) ++ [.closeArray]

/-- The member an entry stands for. -/
def memberOf (entry : String × String) : Option String × Json :=
  (some entry.1, .string (some entry.2))

/-- The object a record stands for. -/
def ofRecord (record : Record) : Json := .object (record.map memberOf)

/-- Parts which are written with commas between them are read one after another. -/
theorem scans_intercalate {α : Type} {write : α → String} {tokens : α → List Token}
    {separator : String} (comma : Scans separator.toList [.comma])
    (scans : ∀ part, Scans (write part).toList (tokens part)) (parts : List α) :
    Scans (separator.intercalate (parts.map write)).toList
      ([Token.comma].intercalate (parts.map tokens)) := by
  induction parts with
  | nil => exact scans_gap rfl
  | cons part parts inductionHypothesis =>
    cases parts with
    | nil => simpa using scans part
    | cons next parts =>
      have written := ((scans part).append comma).append inductionHypothesis
      simpa using written

/-- A member of a record is written as its name, a colon and its text, and read as these three
tokens. -/
theorem scans_member (entry : String × String) :
    Scans ("    " ++ quote entry.1 ++ ": " ++ quote entry.2).toList (memberTokens entry) := by
  have indent : Scans "    ".toList [] := scans_gap (by decide)
  have colon : Scans ": ".toList [.colon] :=
    (scans_mark (by decide) fun _ => rfl : Scans [':'] [.colon]).append
      (scans_gap (by decide) : Scans [' '] [])
  have written := ((indent.append (scans_quote entry.1)).append colon).append (scans_quote entry.2)
  simpa [memberTokens] using written

/-- What separates two members is read as a comma. -/
theorem scans_comma : Scans ",\n".toList [.comma] :=
  (scans_mark (by decide) fun _ => rfl : Scans [','] [.comma]).append
    (scans_gap (by decide) : Scans ['\n'] [])

/-- A record is written with a member a line, and read as an object with these members. -/
theorem scans_record (record : Record) :
    Scans ("  \x7b\n" ++ String.intercalate ",\n"
      (record.map fun entry => "    " ++ quote entry.1 ++ ": " ++ quote entry.2) ++
        "\n  \x7d").toList (recordTokens record) := by
  have opening : Scans "  \x7b\n".toList [.openObject] :=
    ((scans_gap (by decide) : Scans [' ', ' '] []).append
      (scans_mark (by decide) fun _ => rfl : Scans ['\x7b'] [.openObject])).append
        (scans_gap (by decide) : Scans ['\n'] [])
  have closing : Scans "\n  \x7d".toList [.closeObject] :=
    (scans_gap (by decide) : Scans ['\n', ' ', ' '] []).append
      (scans_mark (by decide) fun _ => rfl : Scans ['\x7d'] [.closeObject])
  have members := scans_intercalate scans_comma scans_member record
  have written := (opening.append members).append closing
  rw [String.toList_append, String.toList_append]
  exact written

/-- What is written is read as the tokens of the records. -/
theorem ofText?_spread (records : List Record) :
    Token.ofText? (spread records) = some (listTokens records) := by
  have scans : Scans (spread records).toList (listTokens records) := by
    have opening : Scans ['['] [.openArray] := scans_mark (by decide) fun _ => rfl
    have closing : Scans [']'] [.closeArray] := scans_mark (by decide) fun _ => rfl
    have line : Scans ['\n'] [] := scans_gap (by decide)
    cases records with
    | nil => exact opening.append closing
    | cons record records =>
      have written := ((opening.append line).append (scans_intercalate scans_comma scans_record
        (record :: records))).append (line.append closing)
      rw [spread]
      simp only [List.isEmpty_cons, Bool.false_eq_true, if_false, String.toList_append]
      exact written
  have given := scans [] []
  rw [List.append_nil] at given
  rw [Token.ofText?, given, Token.scan]
  simp

/-- A member is taken in where the name of one may stand. -/
theorem foldlM_member (entry : String × String) (tokens : List Token)
    (members : List (Option String × Json)) (frames : List Frame) {expectation : Expectation}
    (ready : expectation = .firstName ∨ expectation = .name) :
    (memberTokens entry ++ tokens).foldlM Frame.step (expectation, .object members none :: frames) =
      tokens.foldlM Frame.step
        (.after (.string (some entry.2)), .object members (some entry.1) :: frames) := by
  rcases ready with rfl | rfl <;> rfl

/-- The members of an object are taken in one after another, up to its end. -/
theorem foldlM_members (entry : String × String) (entries : List (String × String))
    (tokens : List Token) (members : List (Option String × Json)) (frames : List Frame)
    {expectation : Expectation} (ready : expectation = .firstName ∨ expectation = .name) :
    ([Token.comma].intercalate ((entry :: entries).map memberTokens) ++
        Token.closeObject :: tokens).foldlM Frame.step
          (expectation, .object members none :: frames) =
      tokens.foldlM Frame.step
        (.after (.object (members.reverse ++ (entry :: entries).map memberOf)), frames) := by
  induction entries generalizing entry members expectation with
  | nil =>
    rw [List.map_singleton, List.intercalate_singleton, foldlM_member entry _ members frames ready]
    simp only [List.foldlM_cons, Frame.step]
    simp [memberOf]
  | cons next entries inductionHypothesis =>
    have rest := inductionHypothesis next (memberOf entry :: members) (.inr rfl)
    rw [List.map_cons, List.map_cons, List.intercalate_cons_cons, List.append_assoc,
      List.append_assoc, foldlM_member entry _ members frames ready, List.singleton_append,
      List.foldlM_cons]
    rw [List.map_cons] at rest
    simpa [Frame.step, memberOf] using rest

/-- A record is taken in as its object where an element may stand. -/
theorem foldlM_record (record : Record) (tokens : List Token) (elements : List Json)
    {expectation : Expectation} (ready : expectation = .firstElement ∨ expectation = .value) :
    (recordTokens record ++ tokens).foldlM Frame.step (expectation, [.array elements]) =
      tokens.foldlM Frame.step (.after (ofRecord record), [.array elements]) := by
  have begun (more : List Token) :
      (Token.openObject :: more).foldlM Frame.step (expectation, [.array elements]) =
        more.foldlM Frame.step (.firstName, [.object [] none, .array elements]) := by
    rcases ready with rfl | rfl <;> rfl
  rw [recordTokens, List.cons_append, List.cons_append, begun, List.append_assoc]
  cases record with
  | nil => rfl
  | cons entry entries => exact foldlM_members entry entries tokens [] _ (.inl rfl)

/-- The records are taken in one after another, up to the end of the list. -/
theorem foldlM_records (record : Record) (records : List Record) (elements : List Json)
    {expectation : Expectation} (ready : expectation = .firstElement ∨ expectation = .value) :
    ([Token.comma].intercalate ((record :: records).map recordTokens) ++
        [Token.closeArray]).foldlM Frame.step (expectation, [.array elements]) =
      some (.after (.array (elements.reverse ++ (record :: records).map ofRecord)), []) := by
  induction records generalizing record elements expectation with
  | nil =>
    rw [List.map_singleton, List.intercalate_singleton, foldlM_record record _ elements ready]
    simp [Frame.step]
  | cons next records inductionHypothesis =>
    have rest := inductionHypothesis next (ofRecord record :: elements) (.inr rfl)
    rw [List.map_cons, List.map_cons, List.intercalate_cons_cons, List.append_assoc,
      List.append_assoc, foldlM_record record _ elements ready, List.singleton_append,
      List.foldlM_cons]
    rw [List.map_cons] at rest
    simpa [Frame.step] using rest

/-- The tokens of the records make up the array of their objects. -/
theorem ofTokens?_listTokens (records : List Record) :
    ofTokens? (listTokens records) = some (.array (records.map ofRecord)) := by
  cases records with
  | nil => rfl
  | cons record records =>
    have taken := foldlM_records record records [] (.inl rfl)
    have begun : (listTokens (record :: records)).foldlM Frame.step (.value, []) =
        some (.after (.array ((record :: records).map ofRecord)), []) := taken
    rw [ofTokens?, begun]

/-- Whether the token holds no half of a pair and no number out of range. -/
def Token.isWhole (token : Token) : Bool := token != .string none && token != .number false

/-- How a token changes the number of open brackets, and the greatest number so far. -/
def nestingStep : Nat × Nat → Token → Nat × Nat
  | (depth, deepest), .openArray => (depth + 1, max deepest (depth + 1))
  | (depth, deepest), .openObject => (depth + 1, max deepest (depth + 1))
  | (depth, deepest), .closeArray => (depth - 1, deepest)
  | (depth, deepest), .closeObject => (depth - 1, deepest)
  | state, _ => state

/-- The tokens are whole and open no more brackets at once than the height, all of which
they close. -/
structure Bounded (height : Nat) (tokens : List Token) : Prop where
  whole : tokens.all Token.isWhole = true
  nests : ∀ {depth deepest bound : Nat}, depth + height ≤ bound → deepest ≤ bound →
    ∃ reached ≤ bound, tokens.foldl nestingStep (depth, deepest) = (depth, reached)

/-- Bounded parts one after another are bounded, as the first closes what it opens. -/
theorem Bounded.append {height : Nat} {first second : List Token}
    (firstBounded : Bounded height first) (secondBounded : Bounded height second) :
    Bounded height (first ++ second) where
  whole := by rw [List.all_append, firstBounded.whole, secondBounded.whole, Bool.and_self]
  nests := by
    intro depth deepest bound room within
    obtain ⟨between, betweenWithin, firstFold⟩ := firstBounded.nests room within
    obtain ⟨reached, reachedWithin, secondFold⟩ := secondBounded.nests room betweenWithin
    exact ⟨reached, reachedWithin, by rw [List.foldl_append, firstFold, secondFold]⟩

/-- Tokens which are no brackets leave the nesting as it is. -/
theorem Bounded.ofFlat {tokens : List Token} (height : Nat)
    (whole : tokens.all Token.isWhole = true)
    (flat : ∀ state, tokens.foldl nestingStep state = state) : Bounded height tokens where
  whole := whole
  nests := by
    intro depth deepest bound _ within
    exact ⟨deepest, within, flat _⟩

/-- Commas between bounded parts open nothing. -/
theorem bounded_intercalate {α : Type} {height : Nat} {tokens : α → List Token}
    (bounded : ∀ part, Bounded height (tokens part)) (parts : List α) :
    Bounded height ([Token.comma].intercalate (parts.map tokens)) := by
  have comma : Bounded height [.comma] := .ofFlat height rfl fun _ => rfl
  induction parts with
  | nil => exact .ofFlat height rfl fun _ => rfl
  | cons part parts inductionHypothesis =>
    cases parts with
    | nil => simpa using bounded part
    | cons next parts =>
      have joined := ((bounded part).append comma).append inductionHypothesis
      simpa using joined

/-- A member has no brackets. -/
theorem bounded_member (entry : String × String) : Bounded 0 (memberTokens entry) :=
  .ofFlat 0 rfl fun _ => rfl

/-- A record opens one bracket around its members. -/
theorem bounded_record (record : Record) : Bounded 1 (recordTokens record) := by
  obtain ⟨whole, nests⟩ := bounded_intercalate bounded_member record
  constructor
  · simp only [recordTokens, List.cons_append, List.all_cons, List.all_append, whole]
    rfl
  · intro depth deepest bound room within
    obtain ⟨reached, reachedWithin, folded⟩ :=
      nests (show depth + 1 + 0 ≤ bound by omega) (show max deepest (depth + 1) ≤ bound by omega)
    refine ⟨reached, reachedWithin, ?_⟩
    rw [recordTokens, List.cons_append, List.foldl_cons, List.foldl_append]
    simp only [nestingStep, folded, List.foldl_cons, List.foldl_nil, Nat.add_sub_cancel]

/-- Records are strict JSON: they are written whole, and two brackets deep. -/
theorem isStrict_listTokens (records : List Record) : isStrict (listTokens records) = true := by
  obtain ⟨whole, nests⟩ := bounded_intercalate bounded_record records
  obtain ⟨reached, within, folded⟩ := nests (show 1 + 1 ≤ 2 by omega) (show 1 ≤ 2 by omega)
  have nested : nesting (listTokens records) = reached := by
    show ((listTokens records).foldl nestingStep (0, 0)).2 = reached
    rw [listTokens, List.cons_append, List.foldl_cons, List.foldl_append]
    simp only [nestingStep, Nat.zero_add, Nat.zero_max, folded, List.foldl_cons, List.foldl_nil]
  have allWhole : (listTokens records).all Token.isWhole = true := by
    simp only [listTokens, List.cons_append, List.all_cons, List.all_append, whole]
    rfl
  have shallow : nesting (listTokens records) ≤ nestingLimit := by
    rw [nested]
    exact Nat.le_trans within (by decide)
  simp only [isStrict, shallow, decide_true, Bool.and_true]
  exact allWhole

end BeliefRevision.Json

namespace BeliefRevision

namespace Belief

/-- The text and the normal form which are written in a stored belief. -/
def fieldsOf : Json → Except RecordError (String × String)
  | .object members => do ofMembers none none (← Json.named ["text", "belief", "cnf"] members)
  | .array [text, cnf] => do pure (← text.text, ← cnf.text)
  | _ => .error .mismatch

/-- A stored belief is read by its text and its normal form. -/
theorem ofJson_eq (json : Json) :
    ofJson json =
      fieldsOf json >>= fun record => (ofRecord record.1 record.2).mapError .unreadable := by
  fun_cases fieldsOf json with
  | case1 members =>
    simp only [ofJson, bind_assoc]
    refine bind_congr fun found => bind_congr fun record => ?_
    cases ofRecord record.1 record.2 with
    | error cause => rfl
    | ok belief => rfl
  | case2 text cnf =>
    simp only [ofJson, bind_assoc, pure_bind]
    refine bind_congr fun text => bind_congr fun cnf => ?_
    cases ofRecord text cnf with
    | error cause => rfl
    | ok belief => rfl
  | case3 json notObject notPair =>
    unfold ofJson
    split
    · exact absurd rfl (notObject _)
    · exact absurd rfl (notPair _ _)
    · rfl

/-- A belief which is read from an object has been made of two texts which stand in it. -/
theorem fieldsOf_of_ofJson {json : Json} {belief : Belief} (read : ofJson json = .ok belief) :
    ∃ record, fieldsOf json = .ok record ∧ ofRecord record.1 record.2 = .ok belief := by
  rw [ofJson_eq] at read
  cases given : fieldsOf json with
  | error cause =>
    rw [given] at read
    cases read
  | ok record =>
    refine ⟨record, rfl, ?_⟩
    rw [given] at read
    cases made : ofRecord record.1 record.2 with
    | error cause => simp [bind, Except.bind, made, Except.mapError] at read
    | ok other => simpa [bind, Except.bind, made, Except.mapError] using read

end Belief

/-- A list of records is read where it is the array of elements each of which is read. -/
theorem readRecords_eq_ok_iff {Value : Type} {read : Json → Except RecordError Value}
    {text : String} {values : List Value} :
    readRecords read text = .ok values ↔
      ∃ tokens elements, Json.Token.ofText? text = some tokens ∧
        Json.ofTokens? tokens = some (.array elements) ∧ elements.mapM read = .ok values := by
  constructor
  · intro given
    unfold readRecords at given
    split at given
    next => cases given
    next tokens tokenized =>
      split at given
      next elements parsed =>
        split at given
        next records readAll =>
          cases given
          exact ⟨tokens, elements, tokenized, parsed, readAll⟩
        next => cases given
      next => cases given
  · rintro ⟨tokens, elements, tokenized, parsed, readAll⟩
    simp only [readRecords, tokenized, parsed, readAll]

/-- Records which were written are read one by one, and the first which cannot be read
is the error. -/
theorem readRecords_spread {α : Type} (read : Json → Except RecordError α)
    (records : List Json.Record) :
    readRecords read (Json.spread records) =
      match (records.map Json.ofRecord).mapM read with
      | .ok values => .ok values
      | .error cause => .error cause.message? := by
  cases given : (records.map Json.ofRecord).mapM read with
  | ok values =>
    simp only [readRecords, Json.ofText?_spread, Json.ofTokens?_listTokens, given]
  | error cause =>
    simp only [readRecords, Json.ofText?_spread, Json.ofTokens?_listTokens,
      Json.isStrict_listTokens, given, if_true]

/-- A list of records is not blank, as it has its brackets. -/
theorem Json.trim_spread_ne_empty (records : List Json.Record) :
    Text.trim (Json.spread records) ≠ "" := by
  have bracket : '[' ∈ (Json.spread records).toList := by
    unfold Json.spread
    dsimp only
    split <;> simp
  exact Text.trim_ne_empty bracket (by decide)

/-- Records which were written are loaded as the base of their beliefs. -/
theorem Base.ofStore_spread (records : List Json.Record) :
    ofStore (Json.spread records) =
      match (records.map Json.ofRecord).mapM Belief.ofJson with
      | .ok beliefs => .ok (ofList beliefs)
      | .error cause => .error (.malformed cause.message?) := by
  have notBlank : (Text.trim (Json.spread records)).isEmpty = false := by
    rw [← Bool.not_eq_true, String.isEmpty_iff]
    exact Json.trim_spread_ne_empty records
  rw [ofStore, notBlank, readRecords_spread]
  cases (records.map Json.ofRecord).mapM Belief.ofJson with
  | ok beliefs => rfl
  | error cause => rfl

end BeliefRevision
