import Mathlib.Logic.Basic

/-!
# Loops that may fault

A loop tests its guard and runs its body while the guard holds; the body either
leaves a new state or faults.  `Ends` says that the loop is left by its guard
after finitely many rounds, without a fault.
-/

/-- A `while` loop over a state. -/
structure FaultLoop (State Fault : Type*) where
  guard : State → Bool
  body : State → Except Fault State

namespace FaultLoop

variable {State Fault : Type*} (loop : FaultLoop State Fault)

/-- At most `rounds` rounds of the loop; `none` when they are not enough. -/
def run (rounds : Nat) (state : State) : Option (Except Fault State) :=
  if loop.guard state then
    match rounds with
    | 0 => none
    | rounds + 1 =>
        match loop.body state with
        | .error fault => some (.error fault)
        | .ok next => run rounds next
  else some (.ok state)

def Ends (start final : State) : Prop :=
  ∃ rounds, loop.run rounds start = some (.ok final)

variable {loop} {state next final : State}

theorem ends_of_left (left : loop.guard state = false) :
    loop.Ends state final ↔ final = state := by
  constructor
  · rintro ⟨rounds, result⟩
    rw [run.eq_def, left] at result
    simpa using result.symm
  · rintro rfl
    refine ⟨0, ?_⟩
    rw [run.eq_def, left]
    rfl

theorem ends_of_round (entered : loop.guard state = true) (passed : loop.body state = .ok next) :
    loop.Ends state final ↔ loop.Ends next final := by
  constructor
  · rintro ⟨rounds, result⟩
    rw [run.eq_def, entered] at result
    cases rounds with
    | zero => simp at result
    | succ rounds =>
        simp only [passed, if_true] at result
        exact ⟨rounds, result⟩
  · rintro ⟨rounds, result⟩
    refine ⟨rounds + 1, ?_⟩
    rw [run.eq_def, entered]
    simp only [passed, if_true]
    exact result

theorem not_ends_of_fault {fault : Fault} (entered : loop.guard state = true)
    (faults : loop.body state = .error fault) : ¬ loop.Ends state final := by
  rintro ⟨rounds, result⟩
  rw [run.eq_def, entered] at result
  cases rounds with
  | zero => simp at result
  | succ rounds => simp [faults] at result

/-- Induction on the rounds of a loop that ends. -/
theorem ends_induction {motive : State → Prop} (ends : loop.Ends state final)
    (left : loop.guard final = false → motive final)
    (round : ∀ state next, loop.guard state = true → loop.body state = .ok next →
      loop.Ends next final → motive next → motive state) : motive state := by
  obtain ⟨rounds, ran⟩ := ends
  induction rounds generalizing state with
  | zero =>
      rw [run.eq_def] at ran
      split at ran
      · simp at ran
      · rename_i outside
        obtain rfl := Except.ok.inj (Option.some.inj ran)
        exact left (eq_false_of_ne_true outside)
  | succ rounds ih =>
      rw [run.eq_def] at ran
      split at ran
      · rename_i entered
        cases passed : loop.body state with
        | error fault => simp [passed] at ran
        | ok next =>
            simp only [passed] at ran
            exact round state next entered passed ⟨rounds, ran⟩ (ih ran)
      · rename_i outside
        obtain rfl := Except.ok.inj (Option.some.inj ran)
        exact left (eq_false_of_ne_true outside)

theorem ends_unique {other : State} (ends : loop.Ends state final)
    (otherEnds : loop.Ends state other) : final = other := by
  refine ends_induction (motive := fun state => loop.Ends state other → final = other) ends
    ?_ ?_ otherEnds
  · intro left same
    exact ((ends_of_left left).mp same).symm
  · intro state next entered passed _ ih same
    exact ih ((ends_of_round entered passed).mp same)

end FaultLoop
