import BeliefRevision.Text.Blank

/-!
# Commands

A line of input is a command by its first character, and a formula to revise by where that
is no sign of another command. A dash before the sign of greater is the beginning
of an arrow and not a deletion.
-/

namespace BeliefRevision

/-- What a line of input asks for. -/
inductive Command where
  | revise (text : String)
  | query (text : String)
  | delete (text : String)
  | normalize (text : String)
  | list
  | quit
  | blank
deriving DecidableEq

/-- The command of a line. -/
def Command.ofLine (line : String) : Command :=
  let line := Text.trim line
  if line = ":list" then .list
  else if line = ":quit" then .quit
  else
    match line.toList with
    | [] => .blank
    | '?' :: rest => .query (Text.trim (String.ofList rest))
    | '=' :: rest => .normalize (Text.trim (String.ofList rest))
    | '-' :: '>' :: _ => .revise line
    | '-' :: rest => .delete (Text.trim (String.ofList rest))
    | _ => .revise line

end BeliefRevision
