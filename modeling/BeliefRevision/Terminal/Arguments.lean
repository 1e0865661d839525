import BeliefRevision.Settings
import BeliefRevision.Text.Digits

/-!
# Command line arguments

Arguments are options and then formulas. An option is a flag or takes a value,
which is attached to it or is the next argument. The first argument which is no
option, or the argument of two dashes, ends the options.

An option whose value is to be the next argument stays open until something else
settles it: the next option, the first formula or the end of the arguments. Only
then is its value read. An unknown option, or a value attached to a flag, is
refused on the spot, before an open option is settled.
-/

namespace BeliefRevision

/-- Why the arguments were refused. -/
inductive UsageError where
  /-- There is no such option. -/
  | unknownArgument
  /-- An option lacks its value, or the path of the store is empty. -/
  | invalidValue
  /-- The value of an option is not a number in range. -/
  | valueValidation
  /-- An option or a flag is given twice. -/
  | argumentConflict
  /-- A flag is given a value. -/
  | tooManyValues
deriving DecidableEq

/-- What the arguments ask for. -/
structure Options where
  settings : Settings := {}
  /-- The path of the store. -/
  store : Option String := none
  /-- The level of detail: one prints the base after each revision, and two adds
  the normal forms. -/
  detail : Nat := 0
  formulas : List String := []
deriving DecidableEq

/-- What the program is called for. -/
inductive Invocation where
  | run (options : Options)
  | help
  | version
  | refused (cause : UsageError)
deriving DecidableEq

namespace Arguments

/-- An option with a value. -/
inductive Valued where
  | contractionLimit
  | store
  | detail
deriving DecidableEq

/-- An option without a value. -/
inductive Flag where
  | noEntailmentCheck
  | keepTautologies
  | help
  | version
deriving DecidableEq

/-- An option of either sort. -/
inductive Keyword where
  | valued (option : Valued)
  | flag (flag : Flag)
deriving DecidableEq

/-- The option of a long name, which is never abbreviated. -/
def Keyword.ofName? (name : String) : Option Keyword :=
  match name with
  | "no-entailment-check" => some (.flag .noEntailmentCheck)
  | "keep-tautologies" => some (.flag .keepTautologies)
  | "contraction-limit" => some (.valued .contractionLimit)
  | "store" => some (.valued .store)
  | "detail" => some (.valued .detail)
  | "help" => some (.flag .help)
  | "version" => some (.flag .version)
  | _ => none

/-- The option of a letter. -/
def Keyword.ofLetter? (letter : Char) : Option Keyword :=
  match letter with
  | 'k' => some (.valued .contractionLimit)
  | 's' => some (.valued .store)
  | 'd' => some (.valued .detail)
  | 'h' => some (.flag .help)
  | 'V' => some (.flag .version)
  | _ => none

/-- The least number which does not fit in a word of 64 bits. -/
def wordLimit : Nat := Nat.pow 2 64

/-- A number which fits in a word of 64 bits. A plus sign may stand before it. -/
def word? (text : String) : Option Nat :=
  let number? := match text.toList with
    | '+' :: digits => Text.natural? digits
    | digits => Text.natural? digits
  number?.filter (· < wordLimit)

/-- A level of detail, which is below 256. A sign may stand before it, and zero is
zero with any sign. -/
def level? (text : String) : Option Nat :=
  match text.toList with
  | '+' :: digits => (Text.natural? digits).filter (· < 256)
  | '-' :: digits => (Text.natural? digits).filter (· = 0)
  | digits => (Text.natural? digits).filter (· < 256)

/-- The options given so far, with the one which is open and its value, if that
has been met. -/
structure Given where
  noEntailmentCheck : Bool := false
  keepTautologies : Bool := false
  contractionLimit : Option Nat := none
  store : Option String := none
  detail : Option Nat := none
  awaiting : Option (Valued × Option String) := none

namespace Given

/-- Reads the value of an option. A missing value is noticed first, then a repeat
of the option, and then what is wrong with the value. -/
def take (given : Given) (option : Valued) (value : Option String) : Except UsageError Given :=
  match value with
  | none => .error .invalidValue
  | some value =>
    match option with
    | .contractionLimit =>
      if given.contractionLimit.isSome then .error .argumentConflict
      else
        match word? value with
        | none => .error .valueValidation
        | some limit => .ok { given with contractionLimit := some limit }
    | .store =>
      if given.store.isSome then .error .argumentConflict
      else if value.isEmpty then .error .invalidValue
      else .ok { given with store := some value }
    | .detail =>
      if given.detail.isSome then .error .argumentConflict
      else
        match level? value with
        | none => .error .valueValidation
        | some level => .ok { given with detail := some level }

/-- Settles the open option. -/
def settle (given : Given) : Except UsageError Given :=
  match given.awaiting with
  | none => .ok given
  | some (option, value) => { given with awaiting := none }.take option value

/-- The open option settled, or the refusal. -/
def settled (given : Given) : Except Invocation Given := given.settle.mapError .refused

/-- Takes in a flag. -/
def flag (given : Given) (flag : Flag) : Except Invocation Given := do
  let given ← given.settled
  match flag with
  | .help => .error .help
  | .version => .error .version
  | .noEntailmentCheck =>
    if given.noEntailmentCheck then .error (.refused .argumentConflict)
    else .ok { given with noEntailmentCheck := true }
  | .keepTautologies =>
    if given.keepTautologies then .error (.refused .argumentConflict)
    else .ok { given with keepTautologies := true }

/-- Takes in an option whose value is the next argument. -/
def awaitValue (given : Given) (option : Valued) : Except Invocation Given := do
  let given ← given.settled
  .ok { given with awaiting := some (option, none) }

/-- Takes in an option with the value attached to it. -/
def attach (given : Given) (option : Valued) (value : String) : Except Invocation Given := do
  let given ← given.settled
  (given.take option (some value)).mapError .refused

/-- Takes in an option with a long name, given without the dashes. -/
def long (given : Given) (characters : List Char) : Except Invocation Given :=
  let name := String.ofList (characters.takeWhile (· != '='))
  let value := match characters.dropWhile (· != '=') with
    | [] => none
    | _ :: value => some (String.ofList value)
  match Keyword.ofName? name, value with
  | none, _ => .error (.refused .unknownArgument)
  | some (.flag flag), none => given.flag flag
  | some (.flag _), some _ => .error (.refused .tooManyValues)
  | some (.valued option), none => given.awaitValue option
  | some (.valued option), some value => given.attach option value

/-- Takes in a run of letters after one dash. What follows the letter of an option
with a value is the value, without an equals sign before it. -/
def short (given : Given) : List Char → Except Invocation Given
  | [] => .ok given
  | letter :: rest =>
    match Keyword.ofLetter? letter with
    | none => .error (.refused .unknownArgument)
    | some (.flag flag) => do (← given.flag flag).short rest
    | some (.valued option) =>
      match rest with
      | [] => given.awaitValue option
      | '=' :: value => given.attach option (String.ofList value)
      | value => given.attach option (String.ofList value)

/-- Ends the options, where the formulas are what is left of the arguments. -/
def finish (given : Given) (formulas : List String) : Except Invocation Options := do
  let given ← given.settled
  .ok {
    settings := {
      entailmentCheck := !given.noEntailmentCheck
      contractionLimit := given.contractionLimit
      tautologyPruning := !given.keepTautologies }
    store := given.store
    detail := given.detail.getD 0
    formulas := formulas }

/-- Reads arguments up to the end of the options. -/
def read (given : Given) : List String → Except Invocation Options
  | [] => given.finish []
  | argument :: rest =>
    match argument.toList with
    | ['-', '-'] => given.finish rest
    | '-' :: '-' :: name => do (← given.long name).read rest
    | '-' :: letter :: more => do (← given.short (letter :: more)).read rest
    | _ =>
      match given.awaiting with
      | some (option, none) => { given with awaiting := some (option, some argument) }.read rest
      | _ => given.finish (argument :: rest)

end Given

/-- What the arguments call for. -/
def invocation (arguments : List String) : Invocation :=
  match Given.read {} arguments with
  | .ok options => .run options
  | .error other => other

end Arguments
end BeliefRevision
