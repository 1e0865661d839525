import BeliefRevision.Proofs.Saturation

/-!
# The passes of saturation

The passes which saturation makes are told here without any limit on them: from each round
there is one pass, and it is the last if it derives the empty clause or nothing new. Runs with
a limit make just these passes, if the limit allows for all of them. It does, as each pass but
the last adds a clause, so that saturation ends, and by itself.

A pass goes over pairs of clauses. All passes together go over each pair of the clauses which
there are in the end, and over each in one order and once. This is enough for a closed set,
because both orders of a pair give the same resolvents.
-/

namespace BeliefRevision.Resolution

/-- The passes from a round on, each told by the round before it, and how the last one ends. -/
inductive Round.Passes (pruning : Bool) : Round → List Round → Saturation → Prop where
  | refuted {round : Round} : round.next pruning = none → Passes pruning round [round] .refuted
  | saturated {round next : Round} : round.next pruning = some next → next.pending = [] →
      Passes pruning round [round] (.saturated next.settled)
  | further {round next : Round} {rounds : List Round} {ending : Saturation} :
      round.next pruning = some next → next.pending ≠ [] → Passes pruning next rounds ending →
      Passes pruning round (round :: rounds) ending

/-- The pairs of clauses which a pass resolves, in order: each pending clause with those before
it. -/
def pairs (earlier : List Clause) : List Clause → List (Clause × Clause)
  | [] => []
  | clause :: pending => earlier.map (·, clause) ++ pairs (earlier ++ [clause]) pending

/-- The pairs of the pass which follows the round. -/
def Round.pairs (round : Round) : List (Clause × Clause) :=
  Resolution.pairs round.settled round.pending

variable {pruning : Bool} {set : ClauseSet} {round : Round} {rounds : List Round}
  {ending : Saturation} {closed : List Clause}

/-- With a limit the same passes are made, as long as they are within it. -/
theorem Round.run_eq_some_iff {limit : Nat} :
    round.run pruning limit = some ending ↔
      ∃ rounds, round.Passes pruning rounds ending ∧ rounds.length ≤ limit := by
  induction limit generalizing round with
  | zero =>
    constructor
    · intro ended
      cases ended
    · rintro ⟨rounds, passes, within⟩
      cases passes <;> cases within
  | succ limit inductionHypothesis =>
    rw [Round.run]
    constructor
    · intro ended
      cases passed : round.next pruning with
      | none =>
        rw [passed] at ended
        cases ended
        exact ⟨[round], .refuted passed, Nat.le_add_left 1 limit⟩
      | some next =>
        rw [passed] at ended
        by_cases done : next.pending = []
        · simp only [done, List.isEmpty_nil, if_true, Option.some.injEq] at ended
          subst ended
          exact ⟨[round], .saturated passed done, Nat.le_add_left 1 limit⟩
        · simp only [List.isEmpty_iff, done, if_false] at ended
          obtain ⟨rounds, passes, within⟩ := inductionHypothesis.mp ended
          exact ⟨round :: rounds, .further passed done passes, Nat.succ_le_succ within⟩
    · rintro ⟨rounds, passes, within⟩
      cases passes with
      | refuted passed => rw [passed]
      | saturated passed done => simp [passed, done]
      | further passed more passes =>
        simp only [passed, List.isEmpty_iff, more, if_false]
        exact inductionHypothesis.mpr ⟨_, passes, Nat.le_of_succ_le_succ within⟩

/-- The passes from a round on are the only ones, and end in one way only. -/
theorem Round.Passes.unique {others : List Round} {otherEnding : Saturation}
    (passes : round.Passes pruning rounds ending)
    (otherPasses : round.Passes pruning others otherEnding) :
    others = rounds ∧ otherEnding = ending := by
  induction passes generalizing others with
  | refuted passed => cases otherPasses <;> simp_all
  | saturated passed done => cases otherPasses <;> simp_all
  | further passed more _ inductionHypothesis =>
    cases otherPasses with
    | refuted alsoPassed => simp_all
    | saturated alsoPassed done => simp_all
    | further alsoPassed _ rest =>
      cases passed.symm.trans alsoPassed
      obtain ⟨rfl, rfl⟩ := inductionHypothesis rest
      exact ⟨rfl, rfl⟩

/-- What holds between passes holds before every pass. -/
theorem Round.Passes.invariant (passes : round.Passes pruning rounds ending)
    (invariant : round.Invariant pruning set) :
    ∀ visited ∈ rounds, visited.Invariant pruning set := by
  induction passes with
  | refuted _ | saturated _ _ => exact List.forall_mem_singleton.mpr invariant
  | further passed _ _ inductionHypothesis =>
    exact List.forall_mem_cons.mpr
      ⟨invariant, inductionHypothesis (next_invariant invariant passed)⟩

/-- The clauses stay in a pass, and those which are new come after them. -/
theorem next_clauses {next : Round} (passed : round.next pruning = some next) :
    next.clauses = round.clauses ++ next.pending := by
  rw [Round.clauses, (next_exact passed).1]

/-- After each pass but the last there are more clauses. -/
theorem Round.Passes.grow (passes : round.Passes pruning rounds ending) :
    rounds.IsChain fun before after =>
      ∃ added, added ≠ [] ∧ after.clauses = before.clauses ++ added := by
  induction passes with
  | refuted _ | saturated _ _ => exact List.isChain_singleton _
  | further passed more rest inductionHypothesis =>
    refine List.isChain_cons.mpr ⟨?_, inductionHypothesis⟩
    intro second isSecond
    cases rest with
    | refuted _ | saturated _ _ | further _ _ _ =>
      cases Option.mem_some.mp isSecond
      exact ⟨_, more, next_clauses passed⟩

/-- A pass derives the resolvents of its pairs. -/
theorem derivations_eq_flatMap_pairs (earlier pending : List Clause) :
    derivations earlier pending =
      (pairs earlier pending).flatMap fun pair => pair.1.resolvents pair.2 := by
  induction pending generalizing earlier with
  | nil => rfl
  | cons clause pending inductionHypothesis =>
    rw [derivations, pairs, List.flatMap_append, List.flatMap_map, inductionHypothesis]

/-- Pairs of a list in two parts are those of the first part, and then those of the second, for
which the first counts as earlier. -/
theorem pairs_append (earlier first second : List Clause) :
    pairs earlier (first ++ second) = pairs earlier first ++ pairs (earlier ++ first) second := by
  induction first generalizing earlier with
  | nil => simp [pairs]
  | cons clause first inductionHypothesis => simp [pairs, inductionHypothesis]

/-- One more clause makes a pair with each clause before it. -/
theorem pairs_concat (clauses : List Clause) (clause : Clause) :
    pairs [] (clauses ++ [clause]) = pairs [] clauses ++ clauses.map (·, clause) := by
  simp [pairs_append, pairs]

/-- The pairs of all passes are those which one pass over the clauses of the end would have. -/
theorem Round.Passes.flatMap_pairs (passes : round.Passes pruning rounds (.saturated closed)) :
    Resolution.pairs [] round.settled ++ rounds.flatMap Round.pairs =
      Resolution.pairs [] closed := by
  have extended (round : Round) : Resolution.pairs [] round.settled ++ round.pairs =
      Resolution.pairs [] round.clauses := by
    rw [Round.pairs, Round.clauses, pairs_append, List.nil_append]
  generalize isEnding : Saturation.saturated closed = ending at passes
  induction passes with
  | refuted _ => cases isEnding
  | saturated passed _ =>
    cases isEnding
    rw [List.flatMap_singleton, extended, (next_exact passed).1]
  | further passed _ _ inductionHypothesis =>
    rw [List.flatMap_cons, ← List.append_assoc, extended, ← (next_exact passed).1]
    exact inductionHypothesis isEnding

/-- Of two different clauses the one which comes first is the first of their pair. -/
theorem mem_pairs {clauses : List Clause} (distinct : clauses.Nodup) {first second : Clause} :
    (first, second) ∈ pairs [] clauses ↔
      first ∈ clauses ∧ second ∈ clauses ∧ clauses.idxOf first < clauses.idxOf second := by
  induction clauses using List.reverseRecOn with
  | nil => simp [pairs]
  | append_singleton clauses clause inductionHypothesis =>
    obtain ⟨absent, others⟩ := (List.nodup_concat _ _).mp (List.concat_eq_append ▸ distinct)
    have within := @List.idxOf_lt_length_iff _ _ _ clauses
    rw [pairs_concat, List.mem_append, inductionHypothesis others]
    simp only [List.mem_map, List.mem_append, List.mem_singleton, Prod.mk.injEq, List.idxOf_append]
    grind

/-- Where no clause is there twice, no pair is made twice. -/
theorem nodup_pairs {clauses : List Clause} (distinct : clauses.Nodup) :
    (pairs [] clauses).Nodup := by
  induction clauses using List.reverseRecOn with
  | nil => exact List.nodup_nil
  | append_singleton clauses clause inductionHypothesis =>
    obtain ⟨absent, others⟩ := (List.nodup_concat _ _).mp (List.concat_eq_append ▸ distinct)
    rw [pairs_concat]
    refine List.nodup_append'.mpr ⟨inductionHypothesis others, ?_, ?_⟩
    · exact others.map fun first second same => (Prod.mk.inj same).1
    · rintro ⟨first, second⟩ old new
      obtain ⟨_, _, same⟩ := List.mem_map.mp new
      have here : second ∈ clauses := ((mem_pairs others).mp old).2.1
      exact absent ((Prod.mk.inj same).2 ▸ here)

/-- Two different clauses make a pair in one order only. -/
theorem xor_mem_pairs {clauses : List Clause} (distinct : clauses.Nodup) {first second : Clause}
    (inFirst : first ∈ clauses) (inSecond : second ∈ clauses) (different : first ≠ second) :
    Xor ((first, second) ∈ pairs [] clauses) ((second, first) ∈ pairs [] clauses) := by
  have places : clauses.idxOf first ≠ clauses.idxOf second := fun same =>
    different ((List.idxOf_inj inFirst).mp same)
  rw [mem_pairs distinct, mem_pairs distinct]
  rcases Nat.lt_or_gt_of_ne places with before | after
  · exact .inl ⟨⟨inFirst, inSecond, before⟩, fun other => Nat.lt_asymm before other.2.2⟩
  · exact .inr ⟨⟨inSecond, inFirst, after⟩, fun other => Nat.lt_asymm after other.2.2⟩

/-- A pass takes in the resolvents of its pairs, in order. -/
theorem sweep_eq_gather_pairs (round : Round) :
    Gathering.sweep pruning ⟨round.known, []⟩ round.settled round.pending =
      Gathering.gather pruning ⟨round.known, []⟩
        (round.pairs.flatMap fun pair => pair.1.resolvents pair.2) := by
  rw [sweep_eq_gather, derivations_eq_flatMap_pairs, Round.pairs]

/-- The clauses before the last pass are those which there are in the end. -/
theorem Round.Passes.getLast (passes : round.Passes pruning rounds (.saturated closed)) :
    (rounds.map Round.clauses).getLast? = some closed := by
  generalize isEnding : Saturation.saturated closed = ending at passes
  induction passes with
  | refuted _ => cases isEnding
  | saturated passed _ =>
    cases isEnding
    rw [(next_exact passed).1]
    rfl
  | further _ _ _ inductionHypothesis =>
    rw [List.map_cons, List.getLast?_cons, inductionHypothesis isEnding, Option.getD_some]

/-- The first pass starts with no clause settled. -/
theorem start_settled (started : Round.start pruning set = some round) : round.settled = [] := by
  unfold Round.start at started
  split at started
  · cases started
  · cases started
    rfl

/-- The limit of saturation allows for all passes from the first round on. -/
theorem saturate_passes (started : Round.start pruning set = some round) :
    ∃ rounds, round.Passes pruning rounds (saturate pruning set) ∧
      rounds.length ≤ 2 ^ (literals set).size := by
  have enough : 2 ^ (literals set).size ≤ round.clauses.length + 2 ^ (literals set).size :=
    Nat.le_add_left _ _
  have ends : round.run pruning (2 ^ (literals set).size) = some (saturate pruning set) := by
    simp only [saturate, started, Nat.pow_eq]
    rcases run_exact (start_invariant started) enough with ⟨closed, ended, _⟩ | ⟨ended, _⟩ <;>
      rw [ended, Option.getD_some]
  exact Round.run_eq_some_iff.mp ends

/-- The passes resolve each two of the clauses, in one order only and in one pass only. -/
structure ResolveOnce (pruning : Bool) (closed : List Clause) (rounds : List Round) : Prop where
  takeIn : ∀ round ∈ rounds,
    Gathering.sweep pruning ⟨round.known, []⟩ round.settled round.pending =
      Gathering.gather pruning ⟨round.known, []⟩
        (round.pairs.flatMap fun pair => pair.1.resolvents pair.2)
  onePass : (rounds.flatMap Round.pairs).Nodup
  oneOrder : ∀ clause ∈ closed, ∀ other ∈ closed, clause ≠ other →
    Xor ((clause, other) ∈ rounds.flatMap Round.pairs)
      ((other, clause) ∈ rounds.flatMap Round.pairs)

/-- From the first pass on all pairs together are those of the final clauses, each made in one pass
and in one order. -/
theorem Round.Passes.resolveOnce (passes : round.Passes pruning rounds (.saturated closed))
    (unsettled : round.settled = []) (distinct : closed.Nodup) :
    ResolveOnce pruning closed rounds := by
  have together : rounds.flatMap Round.pairs = Resolution.pairs [] closed := by
    rw [← passes.flatMap_pairs, unsettled, Resolution.pairs, List.nil_append]
  refine ⟨?_, ?_, ?_⟩
  · exact fun round _ => sweep_eq_gather_pairs round
  · exact together ▸ nodup_pairs distinct
  · intro clause member other alsoMember different
    exact together ▸ xor_mem_pairs distinct member alsoMember different

/-- Where saturation ends without a refutation, its clauses are closed: they include the given
ones and all resolvents of any two of them in either order, except tautologies which are left
out, none of them is empty, and all follow from the given ones. They are the clauses before the
last of some passes, which have resolved each two of them once. -/
theorem saturated_closed (ended : saturate pruning set = .saturated closed) :
    IsClosure pruning set closed ∧
    ∃ first rounds, Round.start pruning set = some first ∧
      first.Passes pruning rounds (.saturated closed) ∧
      (rounds.map Round.clauses).getLast? = some closed ∧ ResolveOnce pruning closed rounds := by
  have closure : IsClosure pruning set closed := by
    rcases saturate_exact pruning set with ⟨found, saturated, closure⟩ | ⟨refuted, _⟩
    · cases ended.symm.trans saturated
      exact closure
    · cases ended.symm.trans refuted
  refine ⟨closure, ?_⟩
  cases started : Round.start pruning set with
  | none =>
    simp only [saturate, started] at ended
    cases ended
  | some first =>
    obtain ⟨rounds, passes, _⟩ := saturate_passes started
    rw [ended] at passes
    have distinct : closed.Nodup := by
      obtain ⟨last, visited, rfl⟩ := List.mem_map.mp (List.mem_of_getLast? passes.getLast)
      exact (passes.invariant (start_invariant started) last visited).distinct
    exact ⟨first, rounds, rfl, passes, passes.getLast,
      passes.resolveOnce (start_settled started) distinct⟩

/-- Just one of two atoms is true. -/
def exclusive : ClauseSet :=
  ⟨[.ofList [⟨⟨"U", by decide⟩, true⟩, ⟨⟨"V", by decide⟩, true⟩],
    .ofList [⟨⟨"U", by decide⟩, false⟩, ⟨⟨"V", by decide⟩, false⟩]]⟩

/-- The two clauses have two resolvents, which are kept here though they are tautologies. So there
is a second pass, which derives nothing new. -/
theorem saturated_closed_exclusive :
    ∃ closed : List Clause, closed.map Clause.text = ["U∨V", "¬U∨¬V", "V∨¬V", "U∨¬U"] ∧
      saturate false exclusive = .saturated closed ∧
      IsClosure false exclusive closed ∧
      ∃ first rounds, Round.start false exclusive = some first ∧
        first.Passes false rounds (.saturated closed) ∧
        (rounds.map Round.clauses).getLast? = some closed ∧ ResolveOnce false closed rounds := by
  let tautology (name : String) (named : isAtomName name = true) : Clause :=
    .ofList [⟨⟨name, named⟩, true⟩, ⟨⟨name, named⟩, false⟩]
  have ended : saturate false exclusive =
      .saturated (exclusive.clauses ++ [tautology "V" (by decide), tautology "U" (by decide)]) := by
    cbv
  exact ⟨_, by cbv, ended, saturated_closed ended⟩

/-- Saturation ends: an empty clause among the given ones refutes them before any pass, and
otherwise there are passes, of which the last one decides. Before each pass the clauses are
distinct and hold given literals only, and each pass but the last adds some. There are no more
passes than sets of the given literals, and fewer clauses. -/
theorem saturate_ends (pruning : Bool) (set : ClauseSet) :
    (Round.start pruning set = none ∧ (∃ clause ∈ set.clauses, clause.isEmpty = true) ∧
      saturate pruning set = .refuted) ∨
    ∃ first rounds, Round.start pruning set = some first ∧
      first.Passes pruning rounds (saturate pruning set) ∧
      (∀ others ending, first.Passes pruning others ending →
        others = rounds ∧ ending = saturate pruning set) ∧
      (∀ round ∈ rounds, round.clauses.Nodup ∧
        (∀ clause ∈ round.clauses, ∀ literal ∈ clause,
          ∃ given ∈ set.clauses, literal ∈ given) ∧
        round.clauses.length < 2 ^ (literals set).size) ∧
      (rounds.IsChain fun before after =>
        ∃ added, added ≠ [] ∧ after.clauses = before.clauses ++ added) ∧
      rounds.length ≤ 2 ^ (literals set).size := by
  cases started : Round.start pruning set with
  | none => exact .inl ⟨rfl, start_none_iff.mp started, by simp only [saturate, started]⟩
  | some first =>
    obtain ⟨rounds, passes, within⟩ := saturate_passes started
    refine .inr ⟨first, rounds, rfl, passes, ?_, ?_, passes.grow, within⟩
    · exact fun others ending otherPasses => passes.unique otherPasses
    · intro round visited
      have invariant := passes.invariant (start_invariant started) round visited
      refine ⟨invariant.distinct, ?_, clauses_length_lt invariant⟩
      intro clause member literal inside
      exact mem_literals.mp (invariant.literals clause member literal inside)

end BeliefRevision.Resolution
