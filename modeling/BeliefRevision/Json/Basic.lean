import BeliefRevision.Json.Token

/-!
# JSON values

A value is built from tokens in one pass, with the arrays and objects which are
still open on a stack, so that nesting of any depth is read without nested calls.
The members of an object are kept in their order and with their repeats, as it is
for the reader of a record to say what a repeat means.

A record may have members which are skipped, and those are read more leniently
than others. Tokens are strict where nothing in them needs that leniency.
-/

namespace BeliefRevision

/-- A JSON value. A text with half a pair of units has no content. -/
inductive Json where
  | null
  | boolean (value : Bool)
  | number (finite : Bool)
  | string (text : Option String)
  | array (elements : List Json)
  | object (members : List (Option String × Json))

namespace Json

/-- An open array or object with the values read so far, last one first. An object
also has the name of the member which is being read. -/
inductive Frame where
  | array (elements : List Json)
  | object (members : List (Option String × Json)) (name : Option String)

/-- What may come next. -/
inductive Expectation where
  /-- A value. -/
  | value
  /-- The first value of an array, or its end. -/
  | firstElement
  /-- The name of a member. -/
  | name
  /-- The name of the first member of an object, or its end. -/
  | firstName
  /-- The colon after the name of a member. -/
  | colon (name : Option String)
  /-- What follows a complete value. -/
  | after (value : Json)

/-- Begins a value with its first token. -/
def Frame.begin (frames : List Frame) : Token → Option (Expectation × List Frame)
  | .null => some (.after .null, frames)
  | .boolean value => some (.after (.boolean value), frames)
  | .number finite => some (.after (.number finite), frames)
  | .string text => some (.after (.string text), frames)
  | .openArray => some (.firstElement, .array [] :: frames)
  | .openObject => some (.firstName, .object [] none :: frames)
  | _ => none

/-- Takes a token in, where what is open is given innermost first. -/
def Frame.step : Expectation × List Frame → Token → Option (Expectation × List Frame)
  | (.firstElement, .array _ :: frames), .closeArray => some (.after (.array []), frames)
  | (.firstElement, frames), token => begin frames token
  | (.value, frames), token => begin frames token
  | (.firstName, .object _ _ :: frames), .closeObject => some (.after (.object []), frames)
  | (.firstName, frames), .string name => some (.colon name, frames)
  | (.name, frames), .string name => some (.colon name, frames)
  | (.colon name, .object members _ :: frames), .colon =>
    some (.value, .object members name :: frames)
  | (.after value, .array elements :: frames), .comma =>
    some (.value, .array (value :: elements) :: frames)
  | (.after value, .object members name :: frames), .comma =>
    some (.name, .object ((name, value) :: members) none :: frames)
  | (.after value, .array elements :: frames), .closeArray =>
    some (.after (.array (value :: elements).reverse), frames)
  | (.after value, .object members name :: frames), .closeObject =>
    some (.after (.object ((name, value) :: members).reverse), frames)
  | _, _ => none

/-- The value the tokens make up. -/
def ofTokens? (tokens : List Token) : Option Json :=
  match tokens.foldlM Frame.step (.value, []) with
  | some (.after value, []) => some value
  | _ => none

/-- How deep the arrays and objects of a value are nested at most. -/
def nesting (tokens : List Token) : Nat :=
  let enter : Nat × Nat → Token → Nat × Nat
    | (depth, deepest), .openArray => (depth + 1, max deepest (depth + 1))
    | (depth, deepest), .openObject => (depth + 1, max deepest (depth + 1))
    | (depth, deepest), .closeArray => (depth - 1, deepest)
    | (depth, deepest), .closeObject => (depth - 1, deepest)
    | state, _ => state
  (tokens.foldl enter (0, 0)).2

/-- The greatest nesting of strict JSON. -/
def nestingLimit : Nat := 127

/-- Whether every text is whole, every number finite and nothing nested too deep. -/
def isStrict (tokens : List Token) : Bool :=
  tokens.all (fun token => token != .string none && token != .number false) &&
    nesting tokens ≤ nestingLimit

end Json
end BeliefRevision
