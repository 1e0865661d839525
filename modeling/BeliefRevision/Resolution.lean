import BeliefRevision.Clause.ClauseSet
import Std.Data.TreeSet.Basic

/-!
# Saturation under resolution

A set of clauses is inconsistent exactly when the empty clause can be derived from
it by resolution. All resolvents are derived in passes. A pass resolves each
clause which is new since the last pass with every clause before it, and the
clauses it derives for the first time are the new ones of the next pass. Each pair
is thus resolved once, the earlier clause first.

Saturation ends when the empty clause is met or when a pass derives nothing new.
Tautologies may be left out, given or derived, as they are true in any case.

Resolvents hold no literal which was not given, so there are no more clauses to
derive than sets of the given literals. This bounds the number of passes.
-/

namespace BeliefRevision.Resolution

/-- How saturation ends. -/
inductive Saturation where
  /-- The empty clause was given or derived. -/
  | refuted
  /-- The clauses, none of them empty, to which resolution adds nothing. -/
  | saturated (closed : List Clause)
deriving DecidableEq

/-- Whether the empty clause was not derived. -/
def Saturation.isSaturated : Saturation → Bool
  | .refuted => false
  | .saturated _ => true

/-- The clauses met so far, with those met since the last pass in reverse order. -/
structure Gathering where
  known : Std.TreeSet Clause
  fresh : List Clause

/-- Takes in a clause, unless it is known or a tautology to be left out. There is
no gathering once the empty clause is met. -/
def Gathering.add (pruning : Bool) (gathering : Gathering) (clause : Clause) :
    Option Gathering :=
  if clause.isEmpty then none
  else if pruning && clause.isTautology then some gathering
  else if gathering.known.contains clause then some gathering
  else some ⟨gathering.known.insert clause, clause :: gathering.fresh⟩

/-- Takes in all resolvents of the clause with each of the earlier clauses. -/
def Gathering.resolveWith (pruning : Bool) (gathering : Gathering) (earlier : List Clause)
    (clause : Clause) : Option Gathering :=
  earlier.foldlM (fun gathering other =>
    (other.resolvents clause).foldlM (Gathering.add pruning) gathering) gathering

/-- Takes in all resolvents of each pending clause with the clauses before it. -/
def Gathering.sweep (pruning : Bool) (gathering : Gathering) (earlier : List Clause) :
    List Clause → Option Gathering
  | [] => some gathering
  | clause :: pending =>
    match gathering.resolveWith pruning earlier clause with
    | none => none
    | some gathering => gathering.sweep pruning (earlier ++ [clause]) pending

/-- Where saturation stands between two passes: the settled clauses are resolved
with each other, the pending ones are new, and the known ones are all of these. -/
structure Round where
  settled : List Clause
  pending : List Clause
  known : Std.TreeSet Clause

/-- All clauses of the round, in the order in which they were met. -/
def Round.clauses (round : Round) : List Clause := round.settled ++ round.pending

/-- Makes a pass, after which all clauses are settled and those derived for the
first time are pending. There is no round after the empty clause. -/
def Round.next (pruning : Bool) (round : Round) : Option Round :=
  match Gathering.sweep pruning ⟨round.known, []⟩ round.settled round.pending with
  | none => none
  | some ⟨known, fresh⟩ => some ⟨round.clauses, fresh.reverse, known⟩

/-- Makes passes, at most as many as the limit, until one derives the empty clause
or nothing new. There is no result if the limit is reached before. -/
def Round.run (pruning : Bool) : Nat → Round → Option Saturation
  | 0, _ => none
  | limit + 1, round =>
    match round.next pruning with
    | none => some .refuted
    | some next =>
      if next.pending.isEmpty then some (.saturated next.settled) else next.run pruning limit

/-- The round before the first pass, where all clauses given are pending. There is
none if the empty clause is given. -/
def Round.start (pruning : Bool) (set : ClauseSet) : Option Round :=
  match set.clauses.foldlM (Gathering.add pruning) ⟨∅, []⟩ with
  | none => none
  | some ⟨known, fresh⟩ => some ⟨[], fresh.reverse, known⟩

/-- The distinct literals of the clauses. -/
def literals (set : ClauseSet) : SortedSet Literal := .ofList (set.clauses.flatMap Clause.toList)

/-- Saturates the clauses under resolution. The limit on passes is never reached,
as each pass but the last derives one of the clauses there can be. -/
def saturate (pruning : Bool) (set : ClauseSet) : Saturation :=
  match Round.start pruning set with
  | none => .refuted
  | some round => (round.run pruning (Nat.pow 2 (literals set).size)).getD .refuted

/-- Whether no contradiction follows from the clauses. -/
def isConsistent (pruning : Bool) (set : ClauseSet) : Bool := (saturate pruning set).isSaturated

end BeliefRevision.Resolution
