import Mathlib.Logic.Basic

/-!
# Machines that return

A machine takes steps until one of them returns a result.  Where every step
from a state of some kind makes a measure smaller it returns, and two machines
whose states keep to a relation return results that keep to one.
-/

namespace ReturningRun

/-- What one step of a machine does. -/
inductive Step (State Result : Type) where
  | next (state : State)
  | done (result : Result)

variable {State Result : Type} (step : State → Step State Result)

/-- The result within some steps, if there is one. -/
def run : Nat → State → Option Result
  | 0, _ => none
  | steps + 1, state =>
      match step state with
      | .next after => run steps after
      | .done result => some result

/-- The machine returns a result. -/
def Returns (state : State) (result : Result) : Prop :=
  ∃ steps, run step steps state = some result

variable {step} {state after : State} {result other : Result}

theorem run_next (turn : step state = .next after) (steps : Nat) :
    run step (steps + 1) state = run step steps after := by
  rw [run, turn]

theorem run_done (turn : step state = .done result) (steps : Nat) :
    run step (steps + 1) state = some result := by
  rw [run, turn]

theorem returns_next (turn : step state = .next after) :
    Returns step state result ↔ Returns step after result := by
  constructor
  · rintro ⟨steps, ran⟩
    cases steps with
    | zero => cases ran
    | succ steps => exact ⟨steps, (run_next turn steps).symm.trans ran⟩
  · rintro ⟨steps, ran⟩
    exact ⟨steps + 1, (run_next turn steps).trans ran⟩

theorem returns_done (turn : step state = .done result) :
    Returns step state other ↔ result = other := by
  constructor
  · rintro ⟨steps, ran⟩
    cases steps with
    | zero => cases ran
    | succ steps => exact Option.some.inj ((run_done turn steps).symm.trans ran)
  · rintro rfl
    exact ⟨1, run_done turn 0⟩

/-- A step that has been taken leads to a result. -/
def Step.Yields (step : State → Step State Result) (result : Result) : Step State Result → Prop
  | .next after => Returns step after result
  | .done given => given = result

theorem returns_iff_yields : Returns step state result ↔ (step state).Yields step result := by
  cases turn : step state with
  | next after => exact returns_next turn
  | done given => exact returns_done turn

/-- States that take the same step return the same. -/
theorem returns_congr {first second : State} (same : step first = step second) :
    Returns step first result ↔ Returns step second result := by
  cases turn : step second with
  | next after => rw [returns_next (same.trans turn), returns_next turn]
  | done output => rw [returns_done (same.trans turn), returns_done turn]

theorem Returns.unique (returns : Returns step state result) (also : Returns step state other) :
    result = other := by
  obtain ⟨steps, ran⟩ := returns
  induction steps generalizing state with
  | zero => cases ran
  | succ steps ih =>
      cases turn : step state with
      | next after =>
          rw [run_next turn] at ran
          exact ih ((returns_next turn).mp also) ran
      | done output =>
          rw [run_done turn] at ran
          exact (Option.some.inj ran).symm.trans ((returns_done turn).mp also)

/-- Where the states are seen through a view, steps that keep to some views and
make a measure smaller come to an end before the measure does, with a result
that the views allow. -/
theorem exists_run {View : Type} {state : View → State} {keeps : View → Prop}
    {gives : Result → Prop} (measure : View → Nat)
    (turns : ∀ view, keeps view →
      (∃ next, step (state view) = .next (state next) ∧ keeps next ∧
        measure next < measure view) ∨
      ∃ result, step (state view) = .done result ∧ gives result)
    {view : View} (start : keeps view) {steps : Nat} (enough : measure view < steps) :
    ∃ result, run step steps (state view) = some result ∧ gives result := by
  induction steps generalizing view with
  | zero => omega
  | succ steps ih =>
      rcases turns view start with ⟨next, turn, kept, less⟩ | ⟨result, turn, given⟩
      · rw [run_next turn]
        exact ih kept (by omega)
      · exact ⟨result, run_done turn steps, given⟩

/-- What is true of every result of the views that the steps keep to. -/
theorem Returns.keeps {View : Type} {state : View → State} {keeps : View → Prop}
    {gives : Result → Prop}
    (turns : ∀ view, keeps view →
      (∃ next, step (state view) = .next (state next) ∧ keeps next) ∨
      ∃ result, step (state view) = .done result ∧ gives result)
    {view : View} (start : keeps view) (returns : Returns step (state view) result) :
    gives result := by
  obtain ⟨steps, ran⟩ := returns
  induction steps generalizing view with
  | zero => cases ran
  | succ steps ih =>
      rcases turns view start with ⟨next, turn, kept⟩ | ⟨output, turn, given⟩
      · rw [run_next turn] at ran
        exact ih kept ran
      · rw [run_done turn] at ran
        exact Option.some.inj ran ▸ given

/-- Two views that keep to a relation take steps that do, or both return. -/
theorem Returns.lockstep {View : Type} {state : View → State} {related : View → View → Prop}
    {alike : Result → Result → Prop}
    (turns : ∀ first second, related first second →
      (∃ next after, step (state first) = .next (state next) ∧
        step (state second) = .next (state after) ∧ related next after) ∨
      ∃ result other, step (state first) = .done result ∧ step (state second) = .done other ∧
        alike result other)
    {first second : View} (start : related first second)
    (returns : Returns step (state first) result) :
    ∃ other, Returns step (state second) other ∧ alike result other := by
  obtain ⟨steps, ran⟩ := returns
  induction steps generalizing first second with
  | zero => cases ran
  | succ steps ih =>
      rcases turns first second start with ⟨next, after, turn, also, kept⟩ |
        ⟨output, other, turn, also, same⟩
      · rw [run_next turn] at ran
        obtain ⟨other, returned, same⟩ := ih kept ran
        exact ⟨other, (returns_next also).mpr returned, same⟩
      · rw [run_done turn] at ran
        obtain rfl := Option.some.inj ran
        exact ⟨other, (returns_done also).mpr rfl, same⟩

end ReturningRun
