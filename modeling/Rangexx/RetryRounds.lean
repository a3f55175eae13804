import Mathlib.Data.List.Range
import Mathlib.Logic.Function.Iterate
import Rangexx.ProposerTask

/-!
# How often a proposer retries

The loops of `Proposer::event_task` against any outcomes of `prepare` and
`propose`, as long as the daemon is not shut down.  A round is a call of
`prepare` and the call of `propose` that follows, if there is one.
-/

namespace Rangexx.Paxos.RetryRounds

open Proposer

/-- What `prepare` returns in a round, and `propose` if it is called. -/
structure Outcome where
  prepared : Bool
  proposed : Bool
  deriving DecidableEq, Repr

def Outcome.succeeds (outcome : Outcome) : Bool :=
  outcome.prepared && outcome.proposed

/-- One round: the `bow_out` of the next one, if there is one. -/
def round (bowOut : Nat) (outcome : Outcome) : Option Nat :=
  match afterPrepare bowOut outcome.prepared false with
  | .prepare bowOut => some bowOut
  | .leave => none
  | .propose bowOut =>
      match afterPropose bowOut outcome.proposed false with
      | .prepare bowOut => some bowOut
      | _ => none

/-- `bow_out` after some rounds, if the proposer still works on the request. -/
def bowOutAfter (outcomes : Nat → Outcome) : Nat → Option Nat
  | 0 => some 1
  | rounds + 1 => (bowOutAfter outcomes rounds).bind fun bowOut => round bowOut (outcomes rounds)

/-- The rounds before a number of them that took place and failed. -/
def failedRounds (outcomes : Nat → Outcome) (rounds : Nat) : Nat :=
  (List.range rounds).countP fun index =>
    (bowOutAfter outcomes index).isSome && !(outcomes index).succeeds

/-- The proposer stops working on the request after at most 42 failures. -/
def StopsInTime (outcomes : Nat → Outcome) : Prop :=
  ∃ rounds, bowOutAfter outcomes rounds = none ∧ failedRounds outcomes rounds ≤ 42

/-! ## The requests behind -/

/-- The requests in the queue, each with the outcomes it would have, and how far
the first of them is. -/
structure Work where
  queue : List (Nat → Outcome)
  rounds : Nat
  bowOut : Nat

def Work.start (queue : List (Nat → Outcome)) : Work :=
  ⟨queue, 0, 1⟩

/-- One round for the first request. -/
def Work.step (work : Work) : Work :=
  match work.queue with
  | [] => work
  | outcomes :: rest =>
      match round work.bowOut (outcomes work.rounds) with
      | some bowOut => ⟨outcomes :: rest, work.rounds + 1, bowOut⟩
      | none => .start rest

/-- Every request of the queue is reached, and left again. -/
def Drains (queue : List (Nat → Outcome)) : Prop :=
  ∃ rounds, (Work.step^[rounds] (.start queue)).queue = []

/-! ## When it stops -/

/-- A round goes on unless it succeeds or `bow_out` has come to 42. -/
theorem round_eq (bowOut : Nat) (outcome : Outcome) :
    round bowOut outcome =
      if outcome.succeeds ∨ 42 ≤ bowOut then none
      else some (if outcome.prepared then bowOut else bowOut + 1) := by
  obtain ⟨prepared, proposed⟩ := outcome
  by_cases last : 42 ≤ bowOut
  · have notLess : ¬ bowOut < 42 := by omega
    have notMore : ¬ bowOut + 1 < 42 := by omega
    cases prepared <;> cases proposed <;>
      simp [round, afterPrepare, afterPropose, last, notLess, notMore]
  · have less : bowOut < 42 := by omega
    cases prepared <;> cases proposed <;>
      simp [round, afterPrepare, afterPropose, Outcome.succeeds, last, less]

theorem bowOutAfter_succ {outcomes : Nat → Outcome} {rounds bowOut : Nat}
    (works : bowOutAfter outcomes rounds = some bowOut) :
    bowOutAfter outcomes (rounds + 1) = round bowOut (outcomes rounds) := by
  rw [bowOutAfter, works]
  rfl

theorem bowOutAfter_none {outcomes : Nat → Outcome} {rounds later : Nat}
    (stopped : bowOutAfter outcomes rounds = none) (le : rounds ≤ later) :
    bowOutAfter outcomes later = none := by
  induction later, le using Nat.le_induction with
  | base => exact stopped
  | succ later _ ih =>
      rw [bowOutAfter, ih]
      rfl

/-- An early round succeeds, or `prepare` fails until the proposer bows out. -/
def StopsEarly (outcomes : Nat → Outcome) : Prop :=
  (∃ index < 43, (outcomes index).succeeds) ∨ ∀ index < 41, ¬ (outcomes index).prepared

theorem failedRounds_le (outcomes : Nat → Outcome) (rounds : Nat) :
    failedRounds outcomes rounds ≤ rounds := by
  calc failedRounds outcomes rounds ≤ (List.range rounds).length := List.countP_le_length
    _ = rounds := List.length_range

theorem stopsInTime_of_success {outcomes : Nat → Outcome} {index : Nat} (few : index < 43)
    (succeeds : (outcomes index).succeeds) : StopsInTime outcomes := by
  refine ⟨index + 1, ?_, ?_⟩
  · cases works : bowOutAfter outcomes index with
    | none => exact bowOutAfter_none works (Nat.le_succ index)
    | some bowOut => rw [bowOutAfter_succ works, round_eq, if_pos (Or.inl succeeds)]
  · have notCounted : failedRounds outcomes (index + 1) = failedRounds outcomes index := by
      simp [failedRounds, List.range_succ, succeeds]
    have := failedRounds_le outcomes index
    omega

/-- While only `prepare` fails, the rounds are counted by `bow_out`. -/
theorem bowOutAfter_of_unprepared {outcomes : Nat → Outcome} {rounds : Nat} (few : rounds ≤ 41)
    (unprepared : ∀ index < rounds, ¬ (outcomes index).prepared) :
    bowOutAfter outcomes rounds = some (rounds + 1) := by
  induction rounds with
  | zero => rfl
  | succ rounds ih =>
      have fails : ¬ (outcomes rounds).prepared := unprepared rounds (Nat.lt_succ_self rounds)
      have works := ih (by omega) fun index less => unprepared index (by omega)
      have goesOn : ¬ ((outcomes rounds).succeeds ∨ 42 ≤ rounds + 1) := by
        rintro (succeeds | last)
        · exact fails (Bool.and_elim_left succeeds)
        · omega
      rw [bowOutAfter_succ works, round_eq, if_neg goesOn, if_neg fails]

theorem stopsInTime_of_unprepared {outcomes : Nat → Outcome}
    (unprepared : ∀ index < 41, ¬ (outcomes index).prepared) : StopsInTime outcomes := by
  refine ⟨42, ?_, failedRounds_le outcomes 42⟩
  rw [bowOutAfter_succ (bowOutAfter_of_unprepared (Nat.le_refl 41) unprepared), round_eq]
  exact if_pos (Or.inr (Nat.le_refl 42))

/-- A `prepare` that succeeded left `bow_out` behind the rounds. -/
theorem works_of_prepared {outcomes : Nat → Outcome} {first : Nat} (few : first < 41)
    (prepared : (outcomes first).prepared) (fail : ∀ index < 43, ¬ (outcomes index).succeeds)
    {rounds : Nat} (atMost : rounds ≤ 42) :
    ∃ bowOut, bowOutAfter outcomes rounds = some bowOut ∧
      bowOut ≤ (if first < rounds then rounds else rounds + 1) := by
  induction rounds with
  | zero => exact ⟨1, rfl, Nat.le_refl 1⟩
  | succ rounds ih =>
      obtain ⟨bowOut, works, bound⟩ := ih (by omega)
      have below : bowOut < 42 := by
        split at bound <;> omega
      have goesOn : ¬ ((outcomes rounds).succeeds ∨ 42 ≤ bowOut) := by
        rintro (succeeds | last)
        · exact fail rounds (by omega) succeeds
        · omega
      refine ⟨if (outcomes rounds).prepared then bowOut else bowOut + 1, ?_, ?_⟩
      · rw [bowOutAfter_succ works, round_eq, if_neg goesOn]
      rcases Nat.lt_trichotomy first rounds with earlier | rfl | later
      · rw [if_pos earlier] at bound
        rw [if_pos (Nat.lt_succ_of_lt earlier)]
        split <;> omega
      · rw [if_neg (Nat.lt_irrefl first)] at bound
        rw [if_pos prepared, if_pos (Nat.lt_succ_self first)]
        exact bound
      · have notYet : ¬ first < rounds + 1 := by omega
        rw [if_neg (Nat.not_lt_of_lt later)] at bound
        rw [if_neg notYet]
        split <;> omega

theorem stopsEarly_of_stopsInTime {outcomes : Nat → Outcome} (stops : StopsInTime outcomes) :
    StopsEarly outcomes := by
  by_contra late
  simp only [StopsEarly, not_or, not_exists, not_and, not_forall, not_not] at late
  obtain ⟨fail, first, few, prepared⟩ := late
  obtain ⟨rounds, stopped, inTime⟩ := stops
  have works : ∀ index < 43, (bowOutAfter outcomes index).isSome := by
    intro index less
    obtain ⟨bowOut, works, -⟩ := works_of_prepared few prepared fail (Nat.le_of_lt_succ less)
    rw [works]
    rfl
  have many : 43 ≤ rounds := by
    by_contra less
    have := works rounds (by omega)
    simp [stopped] at this
  have counted : (List.range 43).countP (fun index =>
      (bowOutAfter outcomes index).isSome && !(outcomes index).succeeds) = 43 := by
    rw [List.countP_eq_length.mpr, List.length_range]
    intro index member
    have less := List.mem_range.mp member
    simp [works index less, fail index less]
  have fewer : (List.range 43).countP (fun index =>
      (bowOutAfter outcomes index).isSome && !(outcomes index).succeeds) ≤
        failedRounds outcomes rounds :=
    (List.range_sublist.mpr many).countP_le
  omega

theorem stopsInTime_iff (outcomes : Nat → Outcome) :
    StopsInTime outcomes ↔ StopsEarly outcomes := by
  constructor
  · exact stopsEarly_of_stopsInTime
  · rintro (⟨index, few, succeeds⟩ | unprepared)
    · exact stopsInTime_of_success few succeeds
    · exact stopsInTime_of_unprepared unprepared

/-! ## Draining the queue -/

theorem iterate_step {outcomes : Nat → Outcome} {rounds bowOut : Nat}
    (works : bowOutAfter outcomes rounds = some bowOut) (rest : List (Nat → Outcome)) :
    Work.step^[rounds] (.start (outcomes :: rest)) = ⟨outcomes :: rest, rounds, bowOut⟩ := by
  induction rounds generalizing bowOut with
  | zero =>
      obtain rfl := Option.some.inj works
      rfl
  | succ rounds ih =>
      obtain ⟨before, worked, taken⟩ := Option.bind_eq_some_iff.mp works
      rw [Function.iterate_succ_apply', ih worked]
      simp only [Work.step, taken]

/-- When work on the first request stops, the next one is taken. -/
theorem leaves_first {outcomes : Nat → Outcome} {rounds : Nat}
    (stopped : bowOutAfter outcomes rounds = none) (rest : List (Nat → Outcome)) :
    ∃ steps, Work.step^[steps] (.start (outcomes :: rest)) = .start rest := by
  induction rounds with
  | zero => simp [bowOutAfter] at stopped
  | succ rounds ih =>
      cases works : bowOutAfter outcomes rounds with
      | none => exact ih works
      | some bowOut =>
          rw [bowOutAfter_succ works] at stopped
          refine ⟨rounds + 1, ?_⟩
          rw [Function.iterate_succ_apply', iterate_step works]
          simp only [Work.step, stopped]

theorem drains_of_stops {queue : List (Nat → Outcome)}
    (stops : ∀ outcomes ∈ queue, StopsInTime outcomes) : Drains queue := by
  induction queue with
  | nil => exact ⟨0, rfl⟩
  | cons outcomes rest ih =>
      obtain ⟨rounds, stopped, -⟩ := stops outcomes List.mem_cons_self
      obtain ⟨steps, left⟩ := leaves_first stopped rest
      obtain ⟨more, drained⟩ := ih fun other member => stops other (List.mem_cons_of_mem _ member)
      refine ⟨more + steps, ?_⟩
      rw [Function.iterate_add_apply, left]
      exact drained

/-- Every request of a queue is left after at most 42 failed rounds, so that the
ones behind it are reached, if and only if each stops early. -/
theorem stops_and_drains_iff (queue : List (Nat → Outcome)) :
    ((∀ outcomes ∈ queue, StopsInTime outcomes) ∧ Drains queue) ↔
      ∀ outcomes ∈ queue, StopsEarly outcomes := by
  constructor
  · intro ⟨stops, _⟩ outcomes member
    exact (stopsInTime_iff outcomes).mp (stops outcomes member)
  · intro early
    have stops : ∀ outcomes ∈ queue, StopsInTime outcomes := fun outcomes member =>
      (stopsInTime_iff outcomes).mpr (early outcomes member)
    exact ⟨stops, drains_of_stops stops⟩

/-- Every PREPARE is promised and every PROPOSE is refused. -/
def refused : Nat → Outcome :=
  fun _ => ⟨true, false⟩

theorem works_on_refused (rounds : Nat) : bowOutAfter refused rounds = some 1 := by
  induction rounds with
  | zero => rfl
  | succ rounds ih =>
      rw [bowOutAfter_succ ih]
      rfl

/-- A request that is refused every time is never left, and the one behind it
is never reached. -/
theorem refused_never_stops :
    ¬ (∀ queue : List (Nat → Outcome),
      (∀ outcomes ∈ queue, StopsInTime outcomes) ∧ Drains queue) ∧
      ∀ rounds, (Work.step^[rounds] (.start [refused, refused])).queue = [refused, refused] := by
  constructor
  · intro all
    obtain ⟨rounds, stopped, -⟩ := (all [refused]).1 refused List.mem_cons_self
    simp [works_on_refused] at stopped
  · intro rounds
    rw [iterate_step (works_on_refused rounds)]

end Rangexx.Paxos.RetryRounds
