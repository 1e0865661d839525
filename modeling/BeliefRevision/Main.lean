import BeliefRevision.Terminal.Run

/-!
# The program

The outer layer: files, standard input and output. What is printed, stored and
answered is decided by the definitions of `BeliefRevision.Run` and
`BeliefRevision.Session`.
-/

namespace BeliefRevision.Program

/-- The reason of a failure at a file. -/
def fileError : IO.Error → FileError
  | .noFileOrDirectory .. => .notFound
  | .inappropriateType _ _ details => .other details.toLower
  | .invalidArgument _ _ "name too long" => .nameTooLong
  | error => .other error.toString

/-- Reads the base with which a run starts. -/
def load (options : Options) : IO (Except StoreError Base) := do
  match options.store with
  | none => return .ok .empty
  | some path =>
    try
      match String.fromUTF8? (← IO.FS.readBinFile path) with
      | some text => return Base.ofStore text
      | none => return .error (.file .notText)
    catch error =>
      match fileError error with
      | .notFound => return .ok .empty
      | cause => return .error (.file cause)

/-- Carries out an action on the terminal and the files. -/
def perform (action : Action) : IO Unit := do
  match action with
  | .print text =>
    IO.print text
    (← IO.getStdout).flush
  | .complain text => IO.eprint text
  | .save base path =>
    try
      IO.FS.writeFile path base.toStore
    catch error =>
      IO.eprintln (StoreError.file (fileError error)).message

/-- Answers a command. -/
def answer (options : Options) (session : Session) (command : Command) : IO Session := do
  let (session, actions) := session.answer options command
  actions.forM perform
  return session

/-- The bytes of the next line, up to its end or to the end of the input. -/
partial def nextLine (input : IO.FS.Stream) (line : ByteArray) : IO ByteArray := do
  let byte ← input.read 1
  if byte.isEmpty || byte == ⟨#[0x0A]⟩ then return line ++ byte
  else nextLine input (line ++ byte)

/-- Answers the lines of the input. The result is the code with which to exit. -/
partial def converse (options : Options) (session : Session) (input : IO.FS.Stream) :
    IO UInt32 := do
  let bytes ← nextLine input .empty
  if bytes.isEmpty then return 0
  match String.fromUTF8? bytes with
  | none =>
    IO.eprintln Run.undecodable
    return 1
  | some line =>
    match Command.ofLine line with
    | .quit => return 0
    | command => converse options (← answer options session command) input

/-- Runs with the options. The result is the code with which to exit. -/
def run (options : Options) : IO UInt32 := do
  match ← load options with
  | .error error =>
    IO.eprintln error.message
    return 1
  | .ok base =>
    IO.print (Run.greeting options)
    let session : Session := ⟨options.settings, base⟩
    if options.formulas.isEmpty then converse options session (← IO.getStdin)
    else
      let _ ← options.formulas.foldlM
        (fun session text => answer options session (.revise text)) session
      return 0

/-- How the program is called, in a line. -/
def usage : String :=
  "Usage: agm_reviser [--no-entailment-check] [--keep-tautologies] [--contraction-limit N] " ++
    "[--store PATH] [--detail LEVEL] [FORMULA]..."

end BeliefRevision.Program

open BeliefRevision in
/-- Runs the program with its arguments. -/
def main (arguments : List String) : IO UInt32 := do
  match Arguments.invocation arguments with
  | .run options => Program.run options
  | .version =>
    IO.print Run.versionLine
    return 0
  | .help =>
    IO.println Program.usage
    return 0
  | .refused _ =>
    IO.eprintln Program.usage
    return 2
