import Mathlib.Logic.Basic

/-!
# Runs of an event system

A system takes a step for an event, or cannot take it.  An invariant of a run
is proved one step at a time; it may rest on a condition that every step of the
run meets, or on counters that the run keeps below a bound.
-/

namespace EventRuns

variable {State Event Key : Type} (step : State → Event → Option State)

/-- The state after all the events, if each of them can be taken. -/
def run : State → List Event → Option State
  | state, [] => some state
  | state, event :: rest => (step state event).bind fun next => run next rest

/-- Every event of a run meets a condition in the state it is taken in. -/
def Along (condition : State → Event → Prop) : State → List Event → Prop
  | _, [] => True
  | state, event :: rest => condition state event ∧
      ∀ next, step state event = some next → Along condition next rest

/-- The sum of what the events of a run weigh. -/
def tally (weight : State → Event → Nat) : State → List Event → Nat
  | _, [] => 0
  | state, event :: rest => weight state event +
      match step state event with
      | none => 0
      | some next => tally weight next rest

/-- Something happens at an event of a run. -/
def Occurs (happens : State → Event → Prop) (state : State) (events : List Event) : Prop :=
  ∃ before event after reached, events = before ++ event :: after ∧
    run step state before = some reached ∧ happens reached event

variable {step}

theorem run_cons {state final : State} {event : Event} {rest : List Event}
    (ran : run step state (event :: rest) = some final) :
    ∃ next, step state event = some next ∧ run step next rest = some final :=
  Option.bind_eq_some_iff.mp ran

theorem run_append {state reached : State} {past : List Event}
    (ran : run step state past = some reached) (more : List Event) :
    run step state (past ++ more) = run step reached more := by
  induction past generalizing state with
  | nil =>
      obtain rfl := Option.some.inj ran
      rfl
  | cons first rest ih =>
      obtain ⟨second, takenFirst, onward⟩ := run_cons ran
      rw [List.cons_append, run, takenFirst]
      exact ih onward

theorem run_concat {state reached next : State} {past : List Event} {event : Event}
    (ran : run step state past = some reached) (taken : step reached event = some next) :
    run step state (past ++ [event]) = some next := by
  rw [run_append ran, run, taken]
  rfl

theorem Occurs.append {happens : State → Event → Prop} {state : State} {events : List Event}
    (occurs : Occurs step happens state events) (more : List Event) :
    Occurs step happens state (events ++ more) := by
  obtain ⟨before, event, after, reached, rfl, ran, does⟩ := occurs
  refine ⟨before, event, after ++ more, reached, ?_, ran, does⟩
  rw [List.append_assoc, List.cons_append]

theorem occurs_concat {happens : State → Event → Prop} {state reached : State}
    {past : List Event} {event : Event} (ran : run step state past = some reached)
    (does : happens reached event) : Occurs step happens state (past ++ [event]) :=
  ⟨past, event, [], reached, rfl, ran, does⟩

theorem Occurs.imp {happens weaker : State → Event → Prop} {state : State}
    {events : List Event} (occurs : Occurs step happens state events)
    (implies : ∀ reached event, event ∈ events → happens reached event → weaker reached event) :
    Occurs step weaker state events := by
  obtain ⟨before, event, after, reached, rfl, ran, does⟩ := occurs
  exact ⟨before, event, after, reached, rfl, ran, implies reached event (by simp) does⟩

theorem along_of_forall {condition : Event → Prop} {events : List Event}
    (all : ∀ event ∈ events, condition event) (state : State) :
    Along step (fun _ event => condition event) state events := by
  induction events generalizing state with
  | nil => trivial
  | cons event rest ih =>
      refine ⟨all event List.mem_cons_self, fun next _ => ih (fun other member => ?_) next⟩
      exact all other (List.mem_cons_of_mem event member)

/-- What every step keeps, under the condition, the run keeps. -/
theorem invariant_run (invariant : State → Prop) {condition : State → Event → Prop}
    (preserved : ∀ state event next, invariant state → condition state event →
      step state event = some next → invariant next)
    {state final : State} {events : List Event} (holds : invariant state)
    (along : Along step condition state events) (ran : run step state events = some final) :
    invariant final := by
  induction events generalizing state with
  | nil =>
      obtain rfl := Option.some.inj ran
      exact holds
  | cons event rest ih =>
      obtain ⟨next, taken, onward⟩ := run_cons ran
      exact ih (preserved state event next holds along.1 taken) (along.2 next taken) onward

/-- Where each step of one system is matched by a step of another, a run is
matched by a run. -/
theorem run_matched {Other : Type} {otherStep : Other → Event → Option Other}
    (related : Other → State → Prop) {condition : State → Event → Prop}
    (matched : ∀ other state event next, related other state → condition state event →
      step state event = some next →
      ∃ otherNext, otherStep other event = some otherNext ∧ related otherNext next)
    {other : Other} {state final : State} {events : List Event} (holds : related other state)
    (along : Along step condition state events) (ran : run step state events = some final) :
    ∃ otherFinal, run otherStep other events = some otherFinal ∧ related otherFinal final := by
  induction events generalizing other state with
  | nil =>
      obtain rfl := Option.some.inj ran
      exact ⟨other, rfl, holds⟩
  | cons event rest ih =>
      obtain ⟨next, taken, onward⟩ := run_cons ran
      obtain ⟨otherNext, otherTaken, holdsNext⟩ := matched other state event next holds along.1 taken
      obtain ⟨otherFinal, otherRan, holdsFinal⟩ := ih holdsNext (along.2 next taken) onward
      refine ⟨otherFinal, ?_, holdsFinal⟩
      rw [run, otherTaken]
      exact otherRan

/-- An invariant may speak of the events taken so far. -/
theorem invariant_history (invariant : List Event → State → Prop)
    {condition : State → Event → Prop}
    (preserved : ∀ past state event next, invariant past state → condition state event →
      step state event = some next → invariant (past ++ [event]) next)
    {state final : State} {past events : List Event} (holds : invariant past state)
    (along : Along step condition state events) (ran : run step state events = some final) :
    invariant (past ++ events) final := by
  induction events generalizing state past with
  | nil =>
      obtain rfl := Option.some.inj ran
      rw [List.append_nil]
      exact holds
  | cons event rest ih =>
      obtain ⟨next, taken, onward⟩ := run_cons ran
      have later := ih (preserved past state event next holds along.1 taken)
        (along.2 next taken) onward
      rwa [List.append_assoc, List.singleton_append] at later

/-- An invariant that bounds something by counters holds while the counters
stay below their bounds. -/
theorem invariant_tally (invariant : State → (Key → Nat) → Prop)
    {condition : State → Event → Prop} {weight : Key → State → Event → Nat} {bound : Key → Nat}
    (preserved : ∀ state event next count, invariant state count → condition state event →
      (∀ key, count key + weight key state event < bound key) →
      step state event = some next →
      invariant next fun key => count key + weight key state event)
    {state final : State} {events : List Event} {count : Key → Nat}
    (holds : invariant state count) (along : Along step condition state events)
    (within : ∀ key, count key + tally step (weight key) state events < bound key)
    (ran : run step state events = some final) : ∃ count, invariant final count := by
  induction events generalizing state count with
  | nil =>
      obtain rfl := Option.some.inj ran
      exact ⟨count, holds⟩
  | cons event rest ih =>
      obtain ⟨next, taken, onward⟩ := run_cons ran
      have split : ∀ key, tally step (weight key) state (event :: rest) =
          weight key state event + tally step (weight key) next rest := by
        intro key
        rw [tally, taken]
      have below : ∀ key, count key + weight key state event < bound key := by
        intro key
        have := within key
        rw [split] at this
        omega
      refine ih (preserved state event next count holds along.1 below taken)
        (along.2 next taken) (fun key => ?_) onward
      have := within key
      rw [split] at this
      omega

theorem tally_mono {weight more : State → Event → Nat}
    (le : ∀ state event, weight state event ≤ more state event) (state : State)
    (events : List Event) : tally step weight state events ≤ tally step more state events := by
  induction events generalizing state with
  | nil => exact Nat.le_refl 0
  | cons event rest ih =>
      apply Nat.add_le_add (le state event)
      split
      · exact Nat.le_refl 0
      · exact ih _

end EventRuns
