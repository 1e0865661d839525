import BeliefRevision.Belief.Base
import BeliefRevision.Json.Basic
import BeliefRevision.Json.Layout
import BeliefRevision.Revision.Step

/-!
# Records of beliefs and steps

A belief is stored as an object with its text and its normal form, or as an array
of the two; the text may also go by the name of belief. A step is stored as an
object with its kind and the text of its belief, or as an array of the two. Other
members are skipped. An object is read member by member, and the first thing wrong
with it is its error; a member is missed when the object ends.

A kind is written as its name. As a member it may also be an object whose only
member has that name and holds nothing.
-/

namespace BeliefRevision

/-- What is wrong with a record. -/
inductive RecordError where
  /-- A value of another kind than the record has at that place. -/
  | mismatch
  /-- The object ends without the member. -/
  | missing (name : String)
  /-- The object has the member before. -/
  | duplicate (name : String)
  /-- There is no such kind of step. -/
  | unknownKind (name : String)
  /-- The normal form of a belief cannot be read. -/
  | unreadable (cause : FormulaError)
deriving DecidableEq

/-- The error in words, where it has words of its own. -/
def RecordError.message? : RecordError → Option String
  | .mismatch => none
  | .missing name => some s!"missing field `{name}`"
  | .duplicate name => some s!"duplicate field `{name}`"
  | .unknownKind name =>
    let kinds := String.intercalate ", " (StepKind.all.map fun kind => "`" ++ kind.name ++ "`")
    some s!"unknown variant `{name}`, expected one of {kinds}"
  | .unreadable cause => some cause.message

namespace Json

/-- The text of a string. -/
def text : Json → Except RecordError String
  | .string (some text) => .ok text
  | _ => .error .mismatch

/-- The members of an object which have a name in the list, in order. No member may
have a broken name. -/
def named (names : List String) (members : List (Option String × Json)) :
    Except RecordError (List (String × Json)) :=
  if members.all (·.1.isSome) then
    .ok (members.filterMap fun (name, value) =>
      match name with
      | some name => if names.contains name then some (name, value) else none
      | none => none)
  else .error .mismatch

end Json

namespace Belief

/-- The stored form of the belief. -/
def toRecord (belief : Belief) : Json.Record := [("text", belief.text), ("cnf", belief.cnf)]

/-- Reads the members of a belief, given its text and normal form where one of the
members before was that. -/
def ofMembers (text cnf : Option String) :
    List (String × Json) → Except RecordError (String × String)
  | [] =>
    match text, cnf with
    | none, _ => .error (.missing "text")
    | some _, none => .error (.missing "cnf")
    | some text, some cnf => .ok (text, cnf)
  | (name, value) :: members =>
    if name = "cnf" then
      match cnf with
      | some _ => .error (.duplicate "cnf")
      | none => do ofMembers text (some (← value.text)) members
    else
      match text with
      | some _ => .error (.duplicate "text")
      | none => do ofMembers (some (← value.text)) cnf members

/-- Reads a stored belief. -/
def ofJson (json : Json) : Except RecordError Belief := do
  let (text, cnf) ← match json with
    | .object members => do ofMembers none none (← Json.named ["text", "belief", "cnf"] members)
    | .array [text, cnf] => do pure (← text.text, ← cnf.text)
    | _ => .error .mismatch
  match ofRecord text cnf with
  | .error cause => .error (.unreadable cause)
  | .ok belief => .ok belief

end Belief

namespace Step

/-- The stored form of the step. -/
def toRecord (step : Step) : Json.Record := [("kind", step.kind.name), ("belief", step.belief)]

/-- The kind of that name. -/
def kindOfName (name : String) : Except RecordError StepKind :=
  match StepKind.ofName? name with
  | some kind => .ok kind
  | none => .error (.unknownKind name)

/-- Reads the kind of a step where it is a member. The name is looked up before what
the object holds besides. -/
def readKind : Json → Except RecordError StepKind
  | .object ((some name, content) :: more) => do
    let kind ← kindOfName name
    match content, more with
    | .null, [] => .ok kind
    | _, _ => .error .mismatch
  | json => do kindOfName (← json.text)

/-- Reads the two members of a step, and then finds fault with a third one. -/
def ofPair (kind belief : Json) (more : List (String × Json)) : Except RecordError Step := do
  let kind ← readKind kind
  let belief ← belief.text
  match more with
  | [] => .ok ⟨kind, belief⟩
  | (name, _) :: _ => .error (.duplicate name)

/-- Reads the members of a step. Where the kind comes first it is read at once;
where it comes second, a repeat of the belief is noticed before it. -/
def ofMembers : List (String × Json) → Except RecordError Step
  | [] => .error (.missing "kind")
  | [(name, value)] =>
    if name = "kind" then do
      let _ ← readKind value
      .error (.missing "belief")
    else .error (.missing "kind")
  | (first, firstValue) :: (second, secondValue) :: more =>
    if first = "kind" then
      if second = "kind" then do
        let _ ← readKind firstValue
        .error (.duplicate "kind")
      else ofPair firstValue secondValue more
    else if second = "kind" then ofPair secondValue firstValue more
    else .error (.duplicate "belief")

/-- Reads a stored step. -/
def ofJson : Json → Except RecordError Step
  | .object members => do ofMembers (← Json.named ["kind", "belief"] members)
  | .array (kind :: more) => do
    let kind ← kindOfName (← kind.text)
    match more with
    | [belief] => do pure ⟨kind, ← belief.text⟩
    | _ => .error .mismatch
  | _ => .error .mismatch

end Step
end BeliefRevision
