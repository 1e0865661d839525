import BeliefRevision.Proofs.Resolvents
import BeliefRevision.Resolution
import Mathlib.Data.Finset.Powerset
import Mathlib.Data.Fintype.Card
import Mathlib.Tactic.Tauto
import Std.Data.TreeSet.Lemmas

/-!
# What saturation gathers

A pass is one walk over the list of the clauses it derives, whatever the nesting of
its loops. From this follows what holds between any two passes: the known clauses
are those in the lists, each once; none is empty; each follows from the given ones
and holds given literals only; and each pair of settled clauses has its resolvents
in the lists, apart from tautologies which are left out.

Distinct clauses over the given literals are fewer than the sets of these literals,
as the empty one is not among them. Each pass but the last adds a clause, so that
the limit on passes is not reached.
-/

namespace BeliefRevision.Resolution

/-- Whether the clause is a tautology and tautologies are left out. -/
def leftOut (pruning : Bool) (clause : Clause) : Bool := pruning && clause.isTautology

/-- All clauses which a pass derives, in order: those of each pending clause with
the clauses before it. -/
def derivations (earlier : List Clause) : List Clause → List Clause
  | [] => []
  | clause :: pending =>
    earlier.flatMap (·.resolvents clause) ++ derivations (earlier ++ [clause]) pending

/-- Takes in the clauses of a list, one after another. -/
def Gathering.gather (pruning : Bool) (gathering : Gathering) (clauses : List Clause) :
    Option Gathering :=
  clauses.foldlM (Gathering.add pruning) gathering

/-- The two inner loops of a pass are one walk over the resolvents. -/
theorem resolveWith_eq_gather (pruning : Bool) (gathering : Gathering) (earlier : List Clause)
    (clause : Clause) :
    gathering.resolveWith pruning earlier clause =
      gathering.gather pruning (earlier.flatMap (·.resolvents clause)) := by
  induction earlier generalizing gathering with
  | nil => rfl
  | cons first rest inductionHypothesis =>
    simp only [Gathering.resolveWith, Gathering.gather, List.foldlM_cons, List.flatMap_cons,
      List.foldlM_append] at inductionHypothesis ⊢
    exact congrArg _ (funext inductionHypothesis)

/-- A pass is one walk over its derivations. -/
theorem sweep_eq_gather (pruning : Bool) (gathering : Gathering) (earlier pending : List Clause) :
    gathering.sweep pruning earlier pending =
      gathering.gather pruning (derivations earlier pending) := by
  induction pending generalizing gathering earlier with
  | nil => rfl
  | cons clause pending inductionHypothesis =>
    rw [Gathering.sweep, resolveWith_eq_gather]
    simp only [derivations, Gathering.gather, List.foldlM_append]
    cases gathered : (earlier.flatMap (·.resolvents clause)).foldlM (Gathering.add pruning)
        gathering with
    | none => rfl
    | some next => exact inductionHypothesis next (earlier ++ [clause])

/-- A derivation is a resolvent of two clauses of the pass. -/
theorem derivations_origin {earlier pending : List Clause} {derived : Clause}
    (member : derived ∈ derivations earlier pending) :
    ∃ first ∈ earlier ++ pending, ∃ second ∈ earlier ++ pending,
      derived ∈ first.resolvents second := by
  induction pending generalizing earlier with
  | nil => exact absurd member List.not_mem_nil
  | cons clause pending inductionHypothesis =>
    rcases List.mem_append.mp member with here | later
    · obtain ⟨first, inEarlier, resolved⟩ := List.mem_flatMap.mp here
      exact ⟨first, List.mem_append_left _ inEarlier, clause, by simp, resolved⟩
    · simpa using inductionHypothesis later

/-- A pass resolves each new pair once, in the order of the list. With the pairs
settled before, all pairs are done. -/
theorem derivations_cover {earlier pending : List Clause} {holds : Clause → Prop}
    (settled : earlier.Pairwise fun first second =>
      ∀ derived ∈ first.resolvents second, holds derived)
    (derived : ∀ clause ∈ derivations earlier pending, holds clause) :
    (earlier ++ pending).Pairwise fun first second =>
      ∀ derived ∈ first.resolvents second, holds derived := by
  induction pending generalizing earlier with
  | nil => simpa using settled
  | cons clause pending inductionHypothesis =>
    have now : ∀ first ∈ earlier, ∀ derived ∈ first.resolvents clause, holds derived :=
      fun first member resolvent resolved => derived resolvent
        (List.mem_append_left _ (List.mem_flatMap.mpr ⟨first, member, resolved⟩))
    have extended : (earlier ++ [clause]).Pairwise fun first second =>
        ∀ derived ∈ first.resolvents second, holds derived := by
      refine List.pairwise_append.mpr ⟨settled, List.pairwise_singleton _ _, ?_⟩
      intro first member second isClause
      exact List.mem_singleton.mp isClause ▸ now first member
    have rest := inductionHypothesis extended
      fun resolvent member => derived resolvent (List.mem_append_right _ member)
    simpa using rest

/-- What taking in the clauses does: each which is not left out becomes known, and
those not known before are fresh, each once. -/
structure Gathering.Took (pruning : Bool) (clauses : List Clause) (before after : Gathering) :
    Prop where
  known : ∀ clause, clause ∈ after.known ↔
    clause ∈ before.known ∨ clause ∈ clauses ∧ leftOut pruning clause = false
  fresh : ∃ added : List Clause, after.fresh = added ++ before.fresh ∧ added.Nodup ∧
    ∀ clause, clause ∈ added ↔
      clause ∉ before.known ∧ clause ∈ clauses ∧ leftOut pruning clause = false

/-- Where there is no clause to take in, nothing becomes known and nothing is fresh. -/
theorem Gathering.Took.refl (pruning : Bool) (gathering : Gathering) :
    Gathering.Took pruning [] gathering gathering :=
  ⟨by simp, [], by simp⟩

/-- Clauses taken in one after another are taken in together. The second part adds
nothing which the first has made known. -/
theorem Gathering.Took.append {pruning : Bool} {first second : List Clause}
    {before middle after : Gathering} (firstTook : Gathering.Took pruning first before middle)
    (secondTook : Gathering.Took pruning second middle after) :
    Gathering.Took pruning (first ++ second) before after := by
  obtain ⟨added, addedFresh, addedOnce, addedExactly⟩ := firstTook.fresh
  obtain ⟨more, moreFresh, moreOnce, moreExactly⟩ := secondTook.fresh
  refine ⟨fun clause => ?_, more ++ added, ?_, ?_, fun clause => ?_⟩
  · rw [secondTook.known, firstTook.known, List.mem_append, or_and_right, or_assoc]
  · rw [moreFresh, addedFresh, List.append_assoc]
  · refine List.nodup_append'.mpr ⟨moreOnce, addedOnce, fun clause inMore inAdded => ?_⟩
    exact ((moreExactly clause).mp inMore).1
      ((firstTook.known clause).mpr (Or.inr ((addedExactly clause).mp inAdded).2))
  · rw [List.mem_append, moreExactly, addedExactly, firstTook.known, List.mem_append]
    tauto

/-- Where nothing was fresh before, the fresh clauses are those which were taken in
and not known, each once. -/
theorem Gathering.Took.fresh_exact {pruning : Bool} {clauses : List Clause}
    {known : Std.TreeSet Clause} {after : Gathering}
    (took : Gathering.Took pruning clauses ⟨known, []⟩ after) :
    after.fresh.Nodup ∧ ∀ clause, clause ∈ after.fresh ↔
      clause ∉ known ∧ clause ∈ clauses ∧ leftOut pruning clause = false := by
  obtain ⟨added, fresh, once, exactly⟩ := took.fresh
  have same : after.fresh = added := fresh.trans (List.append_nil added)
  exact same ▸ ⟨once, exactly⟩

/-- Taking in one clause. -/
theorem add_took {pruning : Bool} {before after : Gathering} {clause : Clause}
    (added : before.add pruning clause = some after) :
    Gathering.Took pruning [clause] before after := by
  unfold Gathering.add at added
  split at added
  · cases added
  · split at added
    · rename_i out
      have same : before = after := Option.some.inj added
      subst same
      refine ⟨fun other => ?_, [], rfl, List.nodup_nil, fun other => ?_⟩
      · simp only [List.mem_singleton]
        grind [leftOut]
      · simp only [List.not_mem_nil, false_iff, List.mem_singleton]
        grind [leftOut]
    · split at added
      · rename_i kept known
        have same : before = after := Option.some.inj added
        subst same
        have present : clause ∈ before.known := Std.TreeSet.contains_iff_mem.mp known
        refine ⟨fun other => ?_, [], rfl, List.nodup_nil, fun other => ?_⟩
        · simp only [List.mem_singleton]
          grind
        · simp only [List.not_mem_nil, false_iff, List.mem_singleton]
          grind
      · rename_i kept unknown
        have same : (⟨before.known.insert clause, clause :: before.fresh⟩ : Gathering) = after :=
          Option.some.inj added
        subst same
        have absent : clause ∉ before.known := fun present =>
          unknown (Std.TreeSet.contains_iff_mem.mpr present)
        have stays : leftOut pruning clause = false := by simpa [leftOut] using kept
        refine ⟨fun other => ?_, [clause], rfl, List.nodup_singleton clause, fun other => ?_⟩
        · simp only [Std.TreeSet.mem_insert, Std.LawfulEqCmp.compare_eq_iff_eq, List.mem_singleton]
          grind
        · simp only [List.mem_singleton]
          grind

/-- A walk over clauses takes in all of them. -/
theorem gather_took {pruning : Bool} {before after : Gathering} {clauses : List Clause}
    (gathered : before.gather pruning clauses = some after) :
    Gathering.Took pruning clauses before after := by
  induction clauses generalizing before with
  | nil =>
    have same : before = after := Option.some.inj gathered
    exact same ▸ Gathering.Took.refl pruning before
  | cons clause clauses inductionHypothesis =>
    obtain ⟨middle, added, rest⟩ := Option.bind_eq_some_iff.mp gathered
    exact (add_took added).append (inductionHypothesis rest)

/-- Only the empty clause is refused. -/
theorem add_none_iff {pruning : Bool} {gathering : Gathering} {clause : Clause} :
    gathering.add pruning clause = none ↔ clause.isEmpty = true := by
  unfold Gathering.add
  cases clause.isEmpty with
  | true => simp
  | false =>
    simp only [Bool.false_eq_true, if_false, iff_false]
    split
    · exact Option.some_ne_none _
    · split <;> exact Option.some_ne_none _

/-- A walk stops exactly at an empty clause. -/
theorem gather_none_iff {pruning : Bool} {gathering : Gathering} {clauses : List Clause} :
    gathering.gather pruning clauses = none ↔ ∃ clause ∈ clauses, clause.isEmpty = true := by
  induction clauses generalizing gathering with
  | nil => simp [Gathering.gather]
  | cons clause clauses inductionHypothesis =>
    have step : gathering.gather pruning (clause :: clauses) =
        (gathering.add pruning clause).bind fun next => next.gather pruning clauses := rfl
    rw [step, List.exists_mem_cons_iff]
    cases added : gathering.add pruning clause with
    | none => exact iff_of_true rfl (Or.inl (add_none_iff.mp added))
    | some next =>
      have nonempty : ¬ clause.isEmpty = true := fun empty => by
        rw [add_none_iff.mpr empty] at added
        cases added
      rw [Option.bind_some, inductionHypothesis, or_iff_right nonempty]

/-- A pass leads to no round exactly when it derives the empty clause. -/
theorem next_none_iff {pruning : Bool} {round : Round} :
    round.next pruning = none ↔
      ∃ derived ∈ derivations round.settled round.pending, derived.isEmpty = true := by
  rw [← @gather_none_iff pruning ⟨round.known, []⟩, ← sweep_eq_gather]
  unfold Round.next
  cases Gathering.sweep pruning ⟨round.known, []⟩ round.settled round.pending <;> simp

/-- A pass settles all clauses of the round and takes in its derivations. Those
derived for the first time are pending. -/
theorem next_exact {pruning : Bool} {round next : Round} (passed : round.next pruning = some next) :
    next.settled = round.clauses ∧ next.pending.Nodup ∧
      (∀ clause, clause ∈ next.known ↔ clause ∈ round.known ∨
        clause ∈ derivations round.settled round.pending ∧ leftOut pruning clause = false) ∧
      ∀ clause, clause ∈ next.pending ↔ clause ∉ round.known ∧
        clause ∈ derivations round.settled round.pending ∧ leftOut pruning clause = false := by
  unfold Round.next at passed
  rw [sweep_eq_gather] at passed
  cases gathered : Gathering.gather pruning ⟨round.known, []⟩
      (derivations round.settled round.pending) with
  | none => simp [gathered] at passed
  | some after =>
    simp only [gathered, Option.some.injEq] at passed
    subst passed
    have took := gather_took gathered
    obtain ⟨once, exactly⟩ := took.fresh_exact
    refine ⟨rfl, List.nodup_reverse.mpr once, took.known, fun clause => ?_⟩
    rw [List.mem_reverse, exactly]

/-- What holds between any two passes over the clauses of a set. -/
structure Round.Invariant (pruning : Bool) (set : ClauseSet) (round : Round) : Prop where
  known : ∀ clause, clause ∈ round.known ↔ clause ∈ round.clauses
  distinct : round.clauses.Nodup
  nonempty : ∀ clause ∈ round.clauses, clause.isEmpty = false
  given : ∀ clause ∈ set.clauses, leftOut pruning clause = false → clause ∈ round.clauses
  settled : round.settled.Pairwise fun first second => ∀ derived ∈ first.resolvents second,
    leftOut pruning derived = false → derived ∈ round.clauses
  sound : ∀ truth, set.eval truth = true → ∀ clause ∈ round.clauses, clause.eval truth = true
  literals : ∀ clause ∈ round.clauses, ∀ literal ∈ clause, literal ∈ literals set

/-- The literals of a set are those of its clauses. -/
theorem mem_literals {set : ClauseSet} {literal : Literal} :
    literal ∈ literals set ↔ ∃ clause ∈ set.clauses, literal ∈ clause := by
  simp [literals, List.mem_flatMap]

/-- There is no first round exactly when the empty clause is given. -/
theorem start_none_iff {pruning : Bool} {set : ClauseSet} :
    Round.start pruning set = none ↔ ∃ clause ∈ set.clauses, clause.isEmpty = true := by
  rw [← @gather_none_iff pruning ⟨∅, []⟩]
  unfold Round.start Gathering.gather
  cases set.clauses.foldlM (Gathering.add pruning) ⟨∅, []⟩ <;> simp

/-- Before the first pass the clauses are the given ones which are not left out. -/
theorem start_invariant {pruning : Bool} {set : ClauseSet} {round : Round}
    (started : Round.start pruning set = some round) : round.Invariant pruning set := by
  have nonempty : ∀ clause ∈ set.clauses, clause.isEmpty = false := by
    intro clause member
    by_contra empty
    rw [start_none_iff.mpr ⟨clause, member, Bool.eq_true_of_not_eq_false empty⟩] at started
    cases started
  unfold Round.start at started
  cases gathered : set.clauses.foldlM (Gathering.add pruning) ⟨∅, []⟩ with
  | none => simp [gathered] at started
  | some after =>
    simp only [gathered, Option.some.injEq] at started
    subst started
    have took : Gathering.Took pruning set.clauses ⟨∅, []⟩ after := gather_took gathered
    obtain ⟨once, exactly⟩ := took.fresh_exact
    have clauses : ∀ clause, clause ∈ after.fresh.reverse ↔
        clause ∈ set.clauses ∧ leftOut pruning clause = false := by
      intro clause
      rw [List.mem_reverse, exactly, and_iff_right Std.TreeSet.not_mem_emptyc]
    have given : ∀ clause ∈ after.fresh.reverse, clause ∈ set.clauses :=
      fun clause member => ((clauses clause).mp member).1
    refine ⟨fun clause => ?_, ?_, ?_, ?_, List.Pairwise.nil, ?_, ?_⟩
    · rw [took.known, or_iff_right Std.TreeSet.not_mem_emptyc]
      exact (clauses clause).symm
    · exact List.nodup_reverse.mpr once
    · exact fun clause member => nonempty clause (given clause member)
    · exact fun clause member kept => (clauses clause).mpr ⟨member, kept⟩
    · exact fun truth holds clause member =>
        ClauseSet.eval_eq_true_iff.mp holds clause (given clause member)
    · exact fun clause member literal inside =>
        mem_literals.mpr ⟨clause, given clause member, inside⟩

/-- All resolvents of settled clauses, old and new, are among the clauses which the
pass leaves. -/
theorem next_invariant {pruning : Bool} {set : ClauseSet} {round next : Round}
    (invariant : round.Invariant pruning set) (passed : round.next pruning = some next) :
    next.Invariant pruning set := by
  obtain ⟨settled, once, known, pending⟩ := next_exact passed
  have clauses : ∀ clause, clause ∈ next.clauses ↔ clause ∈ round.clauses ∨
      clause ∈ derivations round.settled round.pending ∧ leftOut pruning clause = false := by
    intro clause
    rw [Round.clauses, settled, List.mem_append, pending, invariant.known]
    tauto
  have nonempty : ∀ derived ∈ derivations round.settled round.pending, derived.isEmpty = false := by
    intro derived member
    by_contra empty
    rw [next_none_iff.mpr ⟨derived, member, Bool.eq_true_of_not_eq_false empty⟩] at passed
    cases passed
  -- A clause of the next round is one of this round or a resolvent of two of them.
  have inherit {holds : Clause → Prop} (old : ∀ clause ∈ round.clauses, holds clause)
      (new : ∀ first ∈ round.clauses, ∀ second ∈ round.clauses,
        ∀ derived ∈ first.resolvents second, holds derived) :
      ∀ clause ∈ next.clauses, holds clause := by
    intro clause member
    rcases (clauses clause).mp member with here | ⟨derived, _⟩
    · exact old clause here
    · obtain ⟨first, inFirst, second, inSecond, resolved⟩ := derivations_origin derived
      exact new first inFirst second inSecond clause resolved
  refine ⟨fun clause => ?_, ?_, ?_, ?_, ?_, fun truth holds => ?_, ?_⟩
  · rw [known, invariant.known, clauses]
  · rw [Round.clauses, settled]
    exact List.nodup_append'.mpr ⟨invariant.distinct, once,
      fun clause old new => ((pending clause).mp new).1 ((invariant.known clause).mpr old)⟩
  · intro clause member
    rcases (clauses clause).mp member with here | ⟨derived, _⟩
    · exact invariant.nonempty clause here
    · exact nonempty clause derived
  · intro clause member kept
    exact (clauses clause).mpr (Or.inl (invariant.given clause member kept))
  · rw [settled]
    apply derivations_cover
    · exact invariant.settled.imp fun resolved derived member kept =>
        (clauses derived).mpr (Or.inl (resolved derived member kept))
    · exact fun derived member kept => (clauses derived).mpr (Or.inr ⟨member, kept⟩)
  · exact inherit (invariant.sound truth holds)
      fun first inFirst second inSecond derived resolved => Clause.eval_of_mem_resolvents resolved
        (invariant.sound truth holds first inFirst) (invariant.sound truth holds second inSecond)
  · refine inherit invariant.literals ?_
    intro first inFirst second inSecond derived resolved literal inside
    rcases Clause.mem_of_mem_resolvents resolved inside with inLeft | inRight
    · exact invariant.literals first inFirst literal inLeft
    · exact invariant.literals second inSecond literal inRight

/-- A pass which derives the empty clause refutes the set, as all it resolves follows
from the set. -/
theorem next_refutes {pruning : Bool} {set : ClauseSet} {round : Round}
    (invariant : round.Invariant pruning set) (stopped : round.next pruning = none) :
    ¬ set.Satisfiable := by
  rintro ⟨truth, holds⟩
  obtain ⟨derived, member, empty⟩ := next_none_iff.mp stopped
  obtain ⟨first, inFirst, second, inSecond, resolved⟩ := derivations_origin member
  have value : derived.eval truth = true := Clause.eval_of_mem_resolvents resolved
    (invariant.sound truth holds first inFirst) (invariant.sound truth holds second inSecond)
  rw [Clause.eval_of_isEmpty empty] at value
  cases value

/-- The clauses of a round are distinct nonempty sets of the given literals. -/
theorem clauses_length_lt {pruning : Bool} {set : ClauseSet} {round : Round}
    (invariant : round.Invariant pruning set) :
    round.clauses.length < 2 ^ (literals set).size := by
  let members (clause : Clause) : Finset Literal := clause.toList.toFinset
  have injective : Function.Injective members := by
    intro first second same
    refine Clause.ext fun literal => ?_
    have inside := Finset.ext_iff.mp same literal
    simpa only [members, List.mem_toFinset, Clause.mem_toList] using inside
  let given : Finset Literal := (literals set).elements.toFinset
  have inside : (round.clauses.map members).toFinset ⊆ given.powerset.erase ∅ := by
    intro image member
    obtain ⟨clause, present, rfl⟩ := List.mem_map.mp (List.mem_toFinset.mp member)
    refine Finset.mem_erase.mpr ⟨fun none => ?_, Finset.mem_powerset.mpr fun literal isMember => ?_⟩
    · have empty : clause.isEmpty = true :=
        List.isEmpty_iff.mpr (List.toFinset_eq_empty_iff _ |>.mp none)
      simp [invariant.nonempty clause present] at empty
    · exact List.mem_toFinset.mpr
        (invariant.literals clause present literal (List.mem_toFinset.mp isMember))
  have count := Finset.card_le_card inside
  rw [List.toFinset_card_of_nodup (invariant.distinct.map injective), List.length_map,
    Finset.card_erase_of_mem (Finset.empty_mem_powerset given), Finset.card_powerset] at count
  have width : given.card ≤ (literals set).size := List.toFinset_card_le _
  have powers : 2 ^ given.card ≤ 2 ^ (literals set).size := Nat.pow_le_pow_right Nat.two_pos width
  have positive : 0 < 2 ^ given.card := Nat.two_pow_pos given.card
  omega

/-- A pass which leaves something pending has added a clause. -/
theorem next_length {pruning : Bool} {round next : Round}
    (passed : round.next pruning = some next) :
    next.clauses.length = round.clauses.length + next.pending.length := by
  rw [Round.clauses, (next_exact passed).1, List.length_append]

/-- What saturation ends with: clauses which follow from the given ones and include
them, none of them empty, to which resolving any two in either order adds nothing.
Tautologies may be missing where they are left out. -/
structure IsClosure (pruning : Bool) (set : ClauseSet) (closed : List Clause) : Prop where
  given : ∀ clause ∈ set.clauses, leftOut pruning clause = false → clause ∈ closed
  resolved : ∀ first ∈ closed, ∀ second ∈ closed, ∀ derived ∈ first.resolvents second,
    leftOut pruning derived = false → derived ∈ closed
  nonempty : ∀ clause ∈ closed, clause.isEmpty = false
  sound : ∀ truth, set.eval truth = true → ∀ clause ∈ closed, clause.eval truth = true

/-- When nothing is pending the settled clauses are closed. Of two of them the one
met first was resolved with the other, which gives the resolvents of both orders, and
a clause gives nothing new with itself. -/
theorem closure_of_invariant {pruning : Bool} {set : ClauseSet} {round : Round}
    (invariant : round.Invariant pruning set) (done : round.pending = []) :
    IsClosure pruning set round.settled := by
  have all : round.clauses = round.settled := by rw [Round.clauses, done, List.append_nil]
  obtain ⟨_, _, nonempty, given, settled, sound, _⟩ := invariant
  rw [all] at nonempty given settled sound
  refine ⟨given, fun first inFirst second inSecond => ?_, nonempty, sound⟩
  by_cases same : first = second
  · intro derived resolved kept
    subst same
    exact Clause.eq_of_mem_resolvents_self resolved ▸ inFirst
  · have symmetric : Std.Symm fun first second : Clause => ∀ derived ∈ first.resolvents second,
        leftOut pruning derived = false → derived ∈ round.settled :=
      ⟨fun _ _ resolves derived member => resolves derived (Clause.mem_resolvents_comm.mp member)⟩
    exact settled.forall inFirst inSecond same

/-- With enough passes left a run ends, either with a closure or with a refutation.
Each pass that does not end it adds a clause, and there are not enough clauses to use
up the limit. -/
theorem run_exact {pruning : Bool} {set : ClauseSet} {limit : Nat} {round : Round}
    (invariant : round.Invariant pruning set)
    (enough : 2 ^ (literals set).size ≤ round.clauses.length + limit) :
    (∃ closed, round.run pruning limit = some (.saturated closed) ∧ IsClosure pruning set closed) ∨
      round.run pruning limit = some .refuted ∧ ¬ set.Satisfiable := by
  induction limit generalizing round with
  | zero =>
    have bound := clauses_length_lt invariant
    omega
  | succ limit inductionHypothesis =>
    rw [Round.run]
    cases passed : round.next pruning with
    | none => exact Or.inr ⟨rfl, next_refutes invariant passed⟩
    | some next =>
      have preserved := next_invariant invariant passed
      by_cases done : next.pending = []
      · exact Or.inl ⟨next.settled, by simp [done], closure_of_invariant preserved done⟩
      · have growth := next_length passed
        have added : 0 < next.pending.length := List.length_pos_iff.mpr done
        have rest := inductionHypothesis preserved (by omega)
        simpa [done] using rest

/-- Saturation ends with a closure or with a refutation, whether or not tautologies
are left out. -/
theorem saturate_exact (pruning : Bool) (set : ClauseSet) :
    (∃ closed, saturate pruning set = .saturated closed ∧ IsClosure pruning set closed) ∨
      saturate pruning set = .refuted ∧ ¬ set.Satisfiable := by
  unfold saturate
  cases started : Round.start pruning set with
  | none =>
    refine Or.inr ⟨rfl, ?_⟩
    rintro ⟨truth, holds⟩
    obtain ⟨clause, member, empty⟩ := start_none_iff.mp started
    have value := ClauseSet.eval_eq_true_iff.mp holds clause member
    rw [Clause.eval_of_isEmpty empty] at value
    cases value
  | some round =>
    have enough : 2 ^ (literals set).size ≤
        round.clauses.length + Nat.pow 2 (literals set).size := Nat.le_add_left _ _
    rcases run_exact (start_invariant started) enough with ⟨closed, ended, closure⟩ | ⟨ended, unsat⟩
    · exact Or.inl ⟨closed, congrArg (Option.getD · .refuted) ended, closure⟩
    · exact Or.inr ⟨congrArg (Option.getD · .refuted) ended, unsat⟩

end BeliefRevision.Resolution
