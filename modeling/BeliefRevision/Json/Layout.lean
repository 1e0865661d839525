import BeliefRevision.Json.Quoted

/-!
# Writing records as JSON

What is written is a list of records, each a list of named texts. In the compact
layout there are no blanks. In the open layout each record and each member stands
on a line of its own, indented by two spaces for each enclosing bracket, and an
empty list is a pair of brackets.
-/

namespace BeliefRevision.Json

/-- Names with the texts they stand for. -/
abbrev Record := List (String × String)

/-- A list of records without blanks. -/
def compact (records : List Record) : String :=
  let member (entry : String × String) : String := quote entry.1 ++ ":" ++ quote entry.2
  let object (record : Record) : String :=
    "\x7b" ++ String.intercalate "," (record.map member) ++ "\x7d"
  "[" ++ String.intercalate "," (records.map object) ++ "]"

/-- A list of records with a line for each record and each member. -/
def spread (records : List Record) : String :=
  let member (entry : String × String) : String := "    " ++ quote entry.1 ++ ": " ++ quote entry.2
  let object (record : Record) : String :=
    "  \x7b\n" ++ String.intercalate ",\n" (record.map member) ++ "\n  \x7d"
  if records.isEmpty then "[]"
  else "[\n" ++ String.intercalate ",\n" (records.map object) ++ "\n]"

end BeliefRevision.Json
