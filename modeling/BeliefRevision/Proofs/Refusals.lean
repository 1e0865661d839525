import BeliefRevision.Proofs.Sessions
import BeliefRevision.Terminal.Run

/-!
# What is refused

A text is parsed, clauses are read off the normal form of its formula, and clauses are read off
the normal form of the negation. Each of the three can fail, but a normal form always has clauses,
so that in the end parsing alone decides: a text is refused where it does not parse, and for that
reason. Neither the base nor the settings have a say in it.

A refused text leaves a session as it was.
-/

namespace BeliefRevision

/-- The attempt fails exactly where the text does not parse, and for the same cause. -/
def FailsAs {Value : Type} (parsed : Except ParseError Formula)
    (attempt : Except FormulaError Value) : Prop :=
  ∀ error, attempt = .error error ↔ ∃ cause, parsed = .error cause ∧ error = .parse cause

section
variable {Value : Type} {parsed : Except ParseError Formula} {attempt : Except FormulaError Value}

/-- It is enough that a cause is passed on and that each formula comes to some value. -/
theorem FailsAs.ofCases
    (refused : ∀ cause, parsed = .error cause → attempt = .error (.parse cause))
    (accepted : ∀ formula, parsed = .ok formula → ∃ value, attempt = .ok value) :
    FailsAs parsed attempt := by
  intro error
  cases given : parsed with
  | error cause =>
    rw [refused cause given]
    constructor
    · intro failed
      exact ⟨cause, rfl, (Except.error.inj failed).symm⟩
    · rintro ⟨other, same, rfl⟩
      rw [Except.error.inj same]
  | ok formula =>
    obtain ⟨value, ended⟩ := accepted formula given
    rw [ended]
    constructor
    · intro failed
      cases failed
    · rintro ⟨cause, same, _⟩
      cases same

/-- What fails as parsing does never fails for the want of clauses. -/
theorem FailsAs.ne_notClausal (failsAs : FailsAs parsed attempt) :
    attempt ≠ .error .notClausal := by
  intro failed
  obtain ⟨cause, _, other⟩ := (failsAs .notClausal).mp failed
  cases other

end

/-- A belief is refused exactly for what the trimmed text is refused by the parser. -/
theorem Belief.ofText_failsAs (text : String) :
    FailsAs (Formula.parse (Text.trim text)) (Belief.ofText text) := by
  refine .ofCases ?_ ?_
  · intro cause refused
    simp only [ofText, refused]
  · intro formula parsed
    exact ⟨_, ofText_of_parse parsed⟩

/-- A text is normalized unless the parser refuses it as it stands. -/
theorem Formula.normalizeText_failsAs (text : String) :
    FailsAs (parse text) ((normalizeText text).mapError .parse) := by
  refine .ofCases ?_ ?_
  · intro cause refused
    simp only [normalizeText, refused, Except.mapError]
  · intro formula parsed
    exact ⟨formula.cnf.text, by simp only [normalizeText, parsed, Except.mapError]⟩

namespace Session

/-- A session revises by the trimmed text, and nothing but the parser can refuse it. -/
theorem revise_failsAs (session : Session) (text : String) :
    FailsAs (Formula.parse (Text.trim text)) (session.revise text) := by
  refine .ofCases ?_ ?_
  · intro cause refused
    simp only [revise, Revision.revise_of_refused session.settings session.base refused]
  · intro formula parsed
    obtain ⟨revision, revised, _⟩ := Revision.revise_ends session.settings session.base parsed
    exact ⟨_, by simp only [revise, revised]; rfl⟩

/-- A query fails exactly as its text does in the parser, which gets it untrimmed. -/
theorem entails_failsAs (session : Session) (text : String) :
    FailsAs (Formula.parse text) (session.entails text) := by
  refine .ofCases ?_ ?_
  · intro cause refused
    simp only [entails, Entailment.entailsText, refused]
  · intro formula parsed
    obtain ⟨verdict, given, _⟩ := Entailment.entails_verdict session.settings.tautologyPruning
      session.base.clauseSets formula
    exact ⟨verdict, by simp only [entails, Entailment.entailsText, parsed, given]⟩

/-- A refused text leaves the session as it was, and is only complained about. -/
theorem revise_refused_keeps {session : Session} {text : String} {error : FormulaError}
    (failed : session.revise text = .error error) :
    session.apply (.revise text) = session ∧ ∀ options,
      session.answerRevise options text = (session, [.complaint text error]) := by
  simp only [apply, answerRevise, failed, implies_true, and_self]

/-- A revision fails exactly where the trimmed text does not parse, and a question or a
normalization exactly where the text does not, each for the cause for which parsing fails. It is
never for the want of clauses, also where a belief is made. A revision which fails changes neither
the base nor the settings. -/
theorem refused_iff_unparsed (session : Session) (text : String) :
    FailsAs (Formula.parse (Text.trim text)) (session.revise text) ∧
    (∀ error, session.revise text = .error error →
      session.apply (.revise text) = session ∧ ∀ options,
        session.answerRevise options text = (session, [.complaint text error])) ∧
    FailsAs (Formula.parse text) (session.entails text) ∧
    FailsAs (Formula.parse text) ((Formula.normalizeText text).mapError .parse) ∧
    session.revise text ≠ .error .notClausal ∧ session.entails text ≠ .error .notClausal ∧
    (Formula.normalizeText text).mapError .parse ≠ .error FormulaError.notClausal ∧
    Belief.ofText text ≠ .error .notClausal := by
  have revising := session.revise_failsAs text
  have asking := session.entails_failsAs text
  have normalizing := Formula.normalizeText_failsAs text
  have believing := Belief.ofText_failsAs text
  exact ⟨revising, fun error failed => revise_refused_keeps failed, asking, normalizing,
    revising.ne_notClausal, asking.ne_notClausal, normalizing.ne_notClausal,
    believing.ne_notClausal⟩

end Session
end BeliefRevision
