import BeliefRevision.Session
import BeliefRevision.Store.Basic
import BeliefRevision.Terminal.Arguments
import BeliefRevision.Terminal.Command
import BeliefRevision.Terminal.Rendering

/-!
# Running the program

A command changes the session and asks for actions: to print, to complain, or to
save the base. The actions are values, so that a run is a function, and are carried
out here on a value with the disk and with what was printed so far.

A base is saved after each command which changed it, where there is a path of a
store. A store which cannot be loaded ends the run before any command, and a base
which cannot be saved is complained about while the run goes on.
-/

namespace BeliefRevision

/-- What a command asks for apart from the change of the session. -/
inductive Action where
  /-- Write the text to the output. -/
  | print (text : String)
  /-- Write the text to the output for errors. -/
  | complain (text : String)
  /-- Store the base at the path. -/
  | save (base : Base) (path : String)
deriving DecidableEq

namespace Action

/-- The text, a line with a mark below the position of the error where it has one,
and the error in words. -/
def complaint (text : String) (error : FormulaError) : Action :=
  let mark := match error.position? with
    | some position =>
      Text.trim text ++ "\n" ++ String.ofList (List.replicate position ' ') ++ "^\n"
    | none => ""
  .complain (mark ++ error.message ++ "\n")

/-- Stores the base if the options name a store. -/
def saves (options : Options) (base : Base) : List Action :=
  match options.store with
  | some path => [.save base path]
  | none => []

end Action

namespace Session

/-- Revises by the text, and shows the steps and, as the level of detail asks, the
base. -/
def answerRevise (options : Options) (session : Session) (text : String) :
    Session × List Action :=
  match session.revise text with
  | .error error => (session, [.complaint text error])
  | .ok (session, revision) =>
    (session,
      .print (Step.renderAll revision.steps) ::
        (if revision.changed then Action.saves options session.base else []) ++
        (if options.detail > 0 then [.print (session.base.render (options.detail > 1))] else []))

/-- Says whether the formula in the text follows from the base. -/
def answerQuery (session : Session) (text : String) : List Action :=
  match session.entails text with
  | .error error => [.complaint text error]
  | .ok true => [.print s!"{Text.trim text} follows from the base\n"]
  | .ok false => [.print s!"{Text.trim text} does not follow from the base\n"]

/-- Removes the belief with the text. -/
def answerDelete (options : Options) (session : Session) (text : String) :
    Session × List Action :=
  match session.contract text with
  | (session, none) => (session, [.print s!"{Text.trim text} is not in the base\n"])
  | (session, some step) => (session, .print step.render :: Action.saves options session.base)

/-- Shows the normal form of the formula in the text. -/
def answerNormalize (text : String) : List Action :=
  match Formula.normalizeText text with
  | .error cause => [.complaint text (.parse cause)]
  | .ok cnf => [.print (cnf ++ "\n")]

/-- Answers a command. -/
def answer (options : Options) (session : Session) : Command → Session × List Action
  | .revise text => session.answerRevise options text
  | .query text => (session, session.answerQuery text)
  | .delete text => session.answerDelete options text
  | .normalize text => (session, answerNormalize text)
  | .list => (session, [.print (session.base.render (options.detail > 1))])
  | .quit => (session, [])
  | .blank => (session, [])

end Session

/-- The disk, and what was printed and complained so far. -/
structure Surface where
  disk : Disk
  output : String := ""
  complaints : String := ""
deriving DecidableEq

/-- Carries out an action. A base which cannot be saved leaves the disk as it is. -/
def Surface.perform (surface : Surface) : Action → Surface
  | .print text => { surface with output := surface.output ++ text }
  | .complain text => { surface with complaints := surface.complaints ++ text }
  | .save base path =>
    match base.save surface.disk path with
    | .ok disk => { surface with disk := disk }
    | .error error => { surface with complaints := surface.complaints ++ error.message ++ "\n" }

/-- A session with the surface it writes to. -/
structure Run where
  session : Session
  surface : Surface
deriving DecidableEq

namespace Run

/-- The complaint about a line which is no text. -/
def undecodable : String := "stream did not contain valid UTF-8"

/-- The line printed for the version. -/
def versionLine : String := "agm_reviser 0.1.0\n"

/-- Answers a command and carries out what it asks for. -/
def perform (options : Options) (run : Run) (command : Command) : Run :=
  let (session, actions) := run.session.answer options command
  ⟨session, actions.foldl Surface.perform run.surface⟩

/-- Revises by each formula in turn. -/
def formulas (options : Options) (run : Run) (texts : List String) : Run :=
  texts.foldl (fun run text => run.perform options (.revise text)) run

/-- Answers the lines up to the command to quit, and says whether all of them were
text. A line which is none ends the run. -/
def lines (options : Options) (run : Run) : List (Option String) → Run × Bool
  | [] => (run, true)
  | none :: _ => (run, false)
  | some line :: rest =>
    match Command.ofLine line with
    | .quit => (run, true)
    | command => (run.perform options command).lines options rest

/-- The base with which a run starts. -/
def loadBase (options : Options) (disk : Disk) : Except StoreError Base :=
  match options.store with
  | some path => Base.load disk path
  | none => .ok .empty

/-- What is printed before the first command. -/
def greeting (options : Options) : String :=
  if options.detail > 0 then options.settings.text ++ "\n" else ""

/-- Runs with the options on the lines of input. The result is the code with which
the program exits and what it leaves behind. -/
def withOptions (options : Options) (input : List (Option String)) (disk : Disk) :
    Nat × Surface :=
  match loadBase options disk with
  | .error error => (1, ⟨disk, "", error.message ++ "\n"⟩)
  | .ok base =>
    let start : Run := ⟨⟨options.settings, base⟩, ⟨disk, greeting options, ""⟩⟩
    if options.formulas.isEmpty then
      match start.lines options input with
      | (run, true) => (0, run.surface)
      | (run, false) => (1, run.surface.perform (.complain (undecodable ++ "\n")))
    else (0, (start.formulas options options.formulas).surface)

/-- Runs as the arguments call for. What is said of a refusal and for help is left to
the outer layer. -/
def ofArguments (arguments : List String) (input : List (Option String)) (disk : Disk) :
    Nat × Surface :=
  match Arguments.invocation arguments with
  | .run options => withOptions options input disk
  | .version => (0, ⟨disk, versionLine, ""⟩)
  | .help => (0, ⟨disk, "", ""⟩)
  | .refused _ => (2, ⟨disk, "", ""⟩)

end Run

end BeliefRevision
