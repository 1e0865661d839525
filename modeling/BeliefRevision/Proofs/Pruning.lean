import BeliefRevision.Proofs.RevisionOutcome
import BeliefRevision.Session

/-!
# Leaving out tautologies

With and without tautologies saturation gathers different clauses, but ends in the same way.
A session learns nothing else of it. What a session answers therefore does not depend on
whether tautologies are left out, and neither does the base which it answers from next.

This is shown for one call, and then for all calls of a run. In a run the setting may be
switched between any two calls, and in two runs of the same calls it may be switched at
different points.
-/

namespace BeliefRevision

/-- The settings, with tautologies left out of resolution or not. -/
def Settings.withPruning (settings : Settings) (pruning : Bool) : Settings :=
  { settings with tautologyPruning := pruning }

/-- What is entailed does not depend on whether tautologies are left out, as consistency does not.
-/
theorem Entailment.entails_pruning (pruning other : Bool) (sets : List ClauseSet)
    (formula : Formula) : entails pruning sets formula = entails other sets formula := by
  rw [entails_eq, entails_eq, Resolution.isConsistent_pruning pruning other]

section
variable (settings : Settings) (pruning : Bool) (base : Base)

/-- The same collection is found, as what is tried and in which order depends on scores alone. -/
theorem Contraction.find?_withPruning (belief : Belief) :
    find? (settings.withPruning pruning) base belief = find? settings base belief := by
  have sameLimit : (settings.withPruning pruning).contractionLimit = settings.contractionLimit :=
    rfl
  exact find?_congr sameLimit (fun _ => rfl) base

namespace Revision

/-- Whether a formula follows from a base is decided in the same way under both settings. -/
theorem follows_withPruning (formula : Formula) :
    follows (settings.withPruning pruning) base formula = follows settings base formula := by
  simp only [follows, Settings.withPruning,
    Resolution.isConsistent_pruning pruning settings.tautologyPruning,
    Entailment.entails_pruning pruning settings.tautologyPruning]

/-- A belief is added in the same way, as the same beliefs are given up for it. -/
theorem ofBelief_withPruning (belief : Belief) :
    ofBelief (settings.withPruning pruning) base belief = ofBelief settings base belief :=
  ofBelief_congr (Contraction.find?_withPruning settings pruning base belief)

/-- A revision is the same in all of its parts, and fails in the same way. -/
theorem revise_withPruning (text : String) :
    revise (settings.withPruning pruning) base text = revise settings base text := by
  have sameCheck : (settings.withPruning pruning).entailmentCheck = settings.entailmentCheck := rfl
  simp only [revise, follows_withPruning, ofBelief_withPruning, sameCheck]

end Revision
end

namespace Session

/-- What a session may be called on to do. -/
inductive Call where
  /-- To revise by the formula written in the text. -/
  | revise (text : String)
  /-- To remove the belief with the text. -/
  | contract (text : String)
  /-- To tell whether the formula written in the text follows. -/
  | entails (text : String)
  /-- To tell whether the base is free of contradiction. -/
  | isConsistent
  /-- To tell which beliefs would be given up for the belief. -/
  | findContraction (belief : Belief)
deriving DecidableEq

/-- What a session answers, with the error where there is one. -/
inductive Reply where
  | revised (result : Except FormulaError Revision)
  | contracted (step : Option Step)
  | entailed (verdict : Except FormulaError Bool)
  | consistent (verdict : Bool)
  | contraction (found : Option (List Nat))

/-- The session after the call, and its answer. -/
def respond (session : Session) : Call → Session × Reply
  | .revise text =>
    match session.revise text with
    | .error cause => (session, .revised (.error cause))
    | .ok (next, revision) => (next, .revised (.ok revision))
  | .contract text => ((session.contract text).1, .contracted (session.contract text).2)
  | .entails text => (session, .entailed (session.entails text))
  | .isConsistent => (session, .consistent session.isConsistent)
  | .findContraction belief =>
    (session, .contraction (Contraction.find? session.settings session.base belief))

/-- What happens in a run: the session is called on, or it is switched to leave tautologies
out or to keep them. -/
inductive Event where
  | call (call : Call)
  | switch (pruning : Bool)

/-- The session, with tautologies left out of resolution or not. -/
def withPruning (session : Session) (pruning : Bool) : Session :=
  { session with settings := session.settings.withPruning pruning }

/-- The answers to the calls of a run, each with the base after the call. -/
def transcript (session : Session) : List Event → List (Reply × Base)
  | [] => []
  | .call call :: events =>
    ((session.respond call).2, (session.respond call).1.base) ::
      (session.respond call).1.transcript events
  | .switch pruning :: events => (session.withPruning pruning).transcript events

/-- The calls of a run, without the switches between them. -/
def calls : List Event → List Call
  | [] => []
  | .call call :: events => call :: calls events
  | .switch _ :: events => calls events

/-- One call is answered in the same way, and the setting stays as it is. -/
theorem respond_withPruning (session : Session) (pruning : Bool) (call : Call) :
    (session.withPruning pruning).respond call =
      ((session.respond call).1.withPruning pruning, (session.respond call).2) := by
  cases call with
  | revise text =>
    have same := Revision.revise_withPruning session.settings pruning session.base text
    simp only [respond, revise, withPruning, same]
    cases Revision.revise session.settings session.base text with
    | error cause => rfl
    | ok revision => cases changed : revision.changed <;> simp [changed]
  | contract text =>
    simp only [respond, contract, withPruning]
    cases session.base.find? text with
    | none => rfl
    | some belief => rfl
  | entails text =>
    have same (formula : Formula) := Entailment.entails_pruning pruning
      session.settings.tautologyPruning session.base.clauseSets formula
    simp only [respond, entails, Entailment.entailsText, withPruning, Settings.withPruning, same]
  | isConsistent =>
    have same := Resolution.isConsistent_pruning pruning session.settings.tautologyPruning
      session.base.clauses
    simp only [respond, isConsistent, withPruning, Settings.withPruning, same]
  | findContraction belief =>
    have same := Contraction.find?_withPruning session.settings pruning session.base belief
    simp only [respond, withPruning, same]

/-- All calls of a run are answered in the same way, whatever the setting was before. -/
theorem transcript_withPruning (session : Session) (pruning : Bool) (events : List Event) :
    (session.withPruning pruning).transcript events = session.transcript events := by
  induction events generalizing session pruning with
  | nil => rfl
  | cons event events inductionHypothesis =>
    cases event with
    | call call =>
      simp only [transcript, respond_withPruning, inductionHypothesis]
      rfl
    | switch other => rfl

/-- The switches of a run make no difference to the answers. -/
theorem transcript_calls (session : Session) (events : List Event) :
    session.transcript events = session.transcript ((calls events).map .call) := by
  induction events generalizing session with
  | nil => rfl
  | cons event events inductionHypothesis =>
    cases event with
    | call call =>
      simp only [transcript, calls, List.map_cons, inductionHypothesis (session.respond call).1]
    | switch pruning =>
      simp only [transcript, calls, transcript_withPruning, inductionHypothesis session]

/-- Leaving tautologies out cannot be told from what a session answers. Two sessions with the
same base, and with settings which differ in this at most, answer the same calls in the same way
and go through the same bases, wherever either of them is switched. -/
theorem transcript_pruning {first second : Session} {events otherEvents : List Event}
    (sameBase : first.base = second.base)
    (sameCheck : first.settings.entailmentCheck = second.settings.entailmentCheck)
    (sameLimit : first.settings.contractionLimit = second.settings.contractionLimit)
    (sameCalls : calls events = calls otherEvents) :
    first.transcript events = second.transcript otherEvents := by
  have same : second.withPruning first.settings.tautologyPruning = first := by
    obtain ⟨⟨check, limit, pruning⟩, base⟩ := first
    obtain ⟨⟨otherCheck, otherLimit, otherPruning⟩, otherBase⟩ := second
    cases sameBase
    cases sameCheck
    cases sameLimit
    rfl
  calc
    first.transcript events = first.transcript ((calls events).map .call) :=
      transcript_calls first events
    _ = second.transcript ((calls otherEvents).map .call) := by
      rw [← same, transcript_withPruning, sameCalls]
    _ = second.transcript otherEvents := (transcript_calls second otherEvents).symm

/-- A belief beside one which is true in any case. -/
def tautologousBase : Base :=
  ⟨[.ofNormalForm "R" (.atom ⟨"R", by decide⟩),
    .ofNormalForm "R→R" (.implies (.atom ⟨"R", by decide⟩) (.atom ⟨"R", by decide⟩))]⟩

/-- One session keeps tautologies after its first call, and the other before its last one. -/
theorem transcript_pruning_switched :
    transcript ⟨{}, tautologousBase⟩
        [.call (.revise "S∨¬S"), .switch false, .call (.revise "¬R∧(S↔S)"), .call .isConsistent,
          .call (.findContraction (.ofNormalForm "⊥" .bottom)), .call (.entails "⊥"),
          .call (.contract "R→R")] =
      transcript ⟨⟨true, none, false⟩, tautologousBase⟩
        [.switch true, .call (.revise "S∨¬S"), .call (.revise "¬R∧(S↔S)"), .call .isConsistent,
          .call (.findContraction (.ofNormalForm "⊥" .bottom)), .call (.entails "⊥"),
          .switch false, .call (.contract "R→R")] :=
  transcript_pruning rfl rfl rfl rfl

end Session
end BeliefRevision
