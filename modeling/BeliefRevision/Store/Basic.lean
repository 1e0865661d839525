import BeliefRevision.Store.Disk.Basic
import BeliefRevision.Store.Record

/-!
# Stores

A store is a text which holds the beliefs of a base as a list of records. Beliefs
are read in order, and a record which repeats the text of an earlier one is
dropped. A blank text is the empty base, and so is a file which does not exist.

An error of a record has words of its own only where the whole text is strict
JSON; otherwise it is the text as a whole that is malformed.
-/

namespace BeliefRevision

/-- Why a base could not be loaded or saved. -/
inductive StoreError where
  /-- The file could not be read or written. -/
  | file (cause : FileError)
  /-- The text holds no base, for the reason where that has words of its own. -/
  | malformed (reason : Option String)
deriving DecidableEq

/-- The error in words. -/
def StoreError.message : StoreError → String
  | .file cause => "unable to access store: " ++ cause.message
  | .malformed (some reason) => "malformed store: " ++ reason
  | .malformed none => "malformed store"

/-- Reads a list of records, each by the given function. The error is the reason,
where that has words of its own. -/
def readRecords {α : Type} (read : Json → Except RecordError α) (text : String) :
    Except (Option String) (List α) :=
  match Json.Token.ofText? text with
  | none => .error none
  | some tokens =>
    match Json.ofTokens? tokens with
    | some (.array elements) =>
      match elements.mapM read with
      | .ok records => .ok records
      | .error cause => .error (if Json.isStrict tokens then cause.message? else none)
    | _ => .error none

namespace Base

/-- The base stored in the text. -/
def ofStore (text : String) : Except StoreError Base :=
  if (Text.trim text).isEmpty then .ok .empty
  else
    match readRecords Belief.ofJson text with
    | .error reason => .error (.malformed reason)
    | .ok beliefs => .ok (.ofList beliefs)

/-- The records of the beliefs, in order. -/
def toRecords (base : Base) : List Json.Record := base.beliefs.map Belief.toRecord

/-- The text which stores the base. -/
def toStore (base : Base) : String := Json.spread base.toRecords

/-- The base stored at the path, where a file that does not exist stores the empty
base. -/
def load (disk : Disk) (path : String) : Except StoreError Base :=
  match disk.read path with
  | .ok text => ofStore text
  | .error .notFound => .ok .empty
  | .error cause => .error (.file cause)

/-- The disk with the base stored at the path. -/
def save (base : Base) (disk : Disk) (path : String) : Except StoreError Disk :=
  match disk.write path base.toStore with
  | .ok disk => .ok disk
  | .error cause => .error (.file cause)

end Base

/-- The steps in the text. -/
def Step.listOfJson (text : String) : Except (Option String) (List Step) :=
  readRecords Step.ofJson text

end BeliefRevision
