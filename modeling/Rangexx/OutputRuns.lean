import Mathlib.Data.List.Basic

/-!
# Machines that give out a list

A machine takes turns, of which some give something out, until it finishes.
Where every turn makes a measure smaller, what it gives out is a list, and the
list obeys the turns.
-/

namespace OutputRun

/-- What one turn of a machine does. -/
inductive Turn (State Out : Type) where
  | quiet (next : State)
  | emit (out : Out) (next : State)
  | finish

/-- The state after a turn. -/
def Turn.next {State Out : Type} : Turn State Out → Option State
  | .quiet next => some next
  | .emit _ next => some next
  | .finish => none

/-- A machine whose turns make a measure smaller. -/
structure Machine (State Out : Type) where
  turn : State → Turn State Out
  measure : State → Nat
  smaller : ∀ state, ∀ next ∈ (turn state).next, measure next < measure state

variable {State Out : Type}

namespace Machine

variable (machine : Machine State Out)

/-- What some turns give out. -/
def outputs : Nat → State → List Out
  | 0, _ => []
  | turns + 1, state =>
      match machine.turn state with
      | .quiet next => outputs turns next
      | .emit out next => out :: outputs turns next
      | .finish => []

/-- What the machine gives out until it finishes. -/
def run (state : State) : List Out :=
  machine.outputs (machine.measure state + 1) state

variable {machine} {state next : State} {out : Out}

theorem outputs_eq {turns others : Nat} (enough : machine.measure state < turns)
    (alsoEnough : machine.measure state < others) :
    machine.outputs turns state = machine.outputs others state := by
  induction turns generalizing state others with
  | zero => omega
  | succ turns ih =>
      cases others with
      | zero => omega
      | succ others =>
          have smaller := machine.smaller state
          rw [outputs, outputs]
          cases turn : machine.turn state with
          | quiet next =>
              have less := smaller next (by rw [turn]; rfl)
              exact ih (by omega) (by omega)
          | emit out next =>
              have less := smaller next (by rw [turn]; rfl)
              dsimp only
              rw [@ih next others (by omega) (by omega)]
          | finish => rfl

theorem run_quiet (turn : machine.turn state = .quiet next) :
    machine.run state = machine.run next := by
  have less := machine.smaller state next (by rw [turn]; rfl)
  unfold run
  rw [outputs, turn]
  exact outputs_eq (by omega) (by omega)

theorem run_emit (turn : machine.turn state = .emit out next) :
    machine.run state = out :: machine.run next := by
  have less := machine.smaller state next (by rw [turn]; rfl)
  unfold run
  rw [outputs, turn]
  exact congrArg _ (outputs_eq (by omega) (by omega))

theorem run_finish (turn : machine.turn state = .finish) : machine.run state = [] := by
  unfold run
  rw [outputs, turn]

/-- What is true of every output of the states that the turns keep to. -/
theorem forall_mem_run {keeps : State → Prop} {gives : Out → Prop}
    (stays : ∀ state, keeps state → ∀ next ∈ (machine.turn state).next, keeps next)
    (good : ∀ state out next, keeps state → machine.turn state = .emit out next → gives out)
    (start : keeps state) : ∀ out ∈ machine.run state, gives out := by
  induction bound : machine.measure state using Nat.strongRecOn generalizing state with
  | _ bound ih =>
      have smaller := machine.smaller state
      have next := stays state start
      cases turn : machine.turn state with
      | quiet after =>
          rw [run_quiet turn]
          rw [turn] at smaller next
          exact ih _ (bound ▸ smaller after rfl) (next after rfl) rfl
      | emit out after =>
          rw [run_emit turn]
          rw [turn] at smaller next
          intro other member
          rcases List.mem_cons.mp member with rfl | later
          · exact good state _ _ start turn
          · exact ih _ (bound ▸ smaller after rfl) (next after rfl) rfl other later
      | finish =>
          rw [run_finish turn]
          exact nofun

end Machine

end OutputRun
