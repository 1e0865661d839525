import BeliefRevision.Proofs.BaseChange

/-!
# Runs of a session

A session is asked to revise, to remove a belief or to go on with other settings, any
number of times and in any order. Requests may fail, and leave the session as it is.

A session which is consistent remains so. One which is not becomes consistent with the
first revision that changes its base.
-/

namespace BeliefRevision.Session

/-- What a session may be asked for which may change it. -/
inductive Request where
  /-- To revise by the formula written in the text. -/
  | revise (text : String)
  /-- To remove the belief with the text. -/
  | contract (text : String)
  /-- To go on with these settings. -/
  | configure (settings : Settings)
deriving DecidableEq

/-- The session after the request. -/
def apply (session : Session) : Request → Session
  | .revise text =>
    match session.revise text with
    | .error _ => session
    | .ok (next, _) => next
  | .contract text => (session.contract text).1
  | .configure settings => { session with settings }

/-- The session after all of the requests, one after another. -/
def run (session : Session) (requests : List Request) : Session := requests.foldl apply session

/-- Requests in two parts lead to the session which the second part makes of that after the first.
-/
theorem run_append (session : Session) (before after : List Request) :
    session.run (before ++ after) = (session.run before).run after := List.foldl_append

/-- The base after revising through the session is that of the revision, which is the
former base if the revision did not change it. -/
theorem revise_eq_ok {session next : Session} {text : String} {revision : Revision}
    (revised : session.revise text = .ok (next, revision)) :
    Revision.revise session.settings session.base text = .ok revision ∧
      next.base = revision.base := by
  unfold revise at revised
  cases ended : Revision.revise session.settings session.base text with
  | error cause =>
    rw [ended] at revised
    cases revised
  | ok result =>
    rw [ended] at revised
    obtain ⟨isNext, rfl⟩ := Prod.mk.inj (Except.ok.inj revised)
    refine ⟨rfl, ?_⟩
    rcases Revision.revise_base ended with ⟨unchanged, same⟩ | ⟨changed, _⟩
    · rw [← isNext, unchanged, same]
      rfl
    · rw [← isNext, changed]
      rfl

/-- Every request is a change of the base. -/
theorem apply_change (session : Session) (request : Request) :
    session.base.Change (session.apply request).base := by
  cases request with
  | revise text =>
    cases ended : session.revise text with
    | error cause =>
      simp only [apply, ended]
      exact .keep
    | ok result =>
      obtain ⟨next, revision⟩ := result
      obtain ⟨revised, same⟩ := revise_eq_ok ended
      simp only [apply, ended, same]
      exact Revision.revise_change revised
  | contract text =>
    cases found : session.base.find? text with
    | none =>
      simp only [apply, contract, found]
      exact .keep
    | some belief =>
      simp only [apply, contract, found]
      exact .remove text
  | configure settings => exact .keep

/-- What each change of a base keeps, a run of the session keeps. -/
theorem run_keeps {property : Base → Prop}
    (kept : ∀ {base next : Base}, base.Change next → property base → property next)
    {session : Session} (requests : List Request) (holds : property session.base) :
    property (session.run requests).base := by
  induction requests generalizing session with
  | nil => exact holds
  | cons request requests inductionHypothesis =>
    exact inductionHypothesis (kept (session.apply_change request) holds)

/-- A consistent session stays consistent. A session which is not, for instance as it
was stored, is consistent from the first revision which changes its base. -/
theorem run_consistent (session : Session) :
    (session.base.clauses.Satisfiable →
      ∀ requests, (session.run requests).base.clauses.Satisfiable) ∧
    ∀ before text next revision after,
      (session.run before).revise text = .ok (next, revision) → revision.changed = true →
        (session.run (before ++ .revise text :: after)).base.clauses.Satisfiable := by
  constructor
  · intro satisfiable requests
    exact run_keeps Base.Change.satisfiable requests satisfiable
  · intro before text next revision after revised changed
    have applied : (session.run before).apply (.revise text) = next := by
      rw [apply, revised]
    obtain ⟨ended, same⟩ := revise_eq_ok revised
    have consistent : next.base.clauses.Satisfiable := by
      rw [same]
      exact Revision.satisfiable_of_changed ended changed
    have continued : session.run (before ++ .revise text :: after) = next.run after := by
      rw [run_append, ← applied]
      rfl
    rw [continued]
    exact run_keeps Base.Change.satisfiable after consistent

/-- A base which holds a contradiction becomes consistent with the first revision that
changes it, and a refused text and a change of settings keep that. Revisions of the empty base
keep it consistent. -/
theorem run_consistent_contradiction :
    ¬ (Base.mk [.ofNormalForm "⊥" .bottom]).clauses.Satisfiable ∧
      (run ⟨{}, ⟨[.ofNormalForm "⊥" .bottom]⟩⟩
        [.contract "A", .revise "A", .revise "¬A ∧", .configure ⟨false, none, false⟩]
        ).base.clauses.Satisfiable ∧
      (run ⟨{}, .empty⟩ [.revise "A", .revise "¬A"]).base.clauses.Satisfiable := by
  have inconsistent : ¬ (Base.mk [.ofNormalForm "⊥" .bottom]).clauses.Satisfiable := by
    rintro ⟨truth, holds⟩
    simp [Base.clauses, Base.clauseSets, Formula.eval] at holds
  have parsed : Formula.parse (Text.trim "A") = .ok (.atom ⟨"A", by decide⟩) := by cbv
  have room : Revision.Contractible {} ⟨[.ofNormalForm "⊥" .bottom]⟩ (.atom ⟨"A", by decide⟩) :=
    ⟨[0], by decide, by decide, by decide, by decide, fun _ => true, rfl, rfl⟩
  obtain ⟨revision, ended, changed⟩ :=
    Revision.changed_of_contractible parsed (by decide) (fun holds => inconsistent holds.1) room
  refine ⟨inconsistent, ?_, ?_⟩
  · have revised : (run ⟨{}, ⟨[.ofNormalForm "⊥" .bottom]⟩⟩ [.contract "A"]).revise "A" =
        .ok (⟨{}, revision.base⟩, revision) := by
      have untouched : run ⟨{}, ⟨[.ofNormalForm "⊥" .bottom]⟩⟩ [.contract "A"] =
          ⟨{}, ⟨[.ofNormalForm "⊥" .bottom]⟩⟩ := rfl
      rw [untouched, revise, ended]
      simp only [changed, if_true]
    exact (run_consistent ⟨{}, ⟨[.ofNormalForm "⊥" .bottom]⟩⟩).2 [.contract "A"] "A" _ revision
      [.revise "¬A ∧", .configure ⟨false, none, false⟩] revised changed
  · exact (run_consistent ⟨{}, .empty⟩).1 ⟨fun _ => true, rfl⟩ [.revise "A", .revise "¬A"]

end BeliefRevision.Session
