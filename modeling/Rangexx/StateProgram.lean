import Mathlib.Logic.Basic

/-!
# Programs with a state and exceptions

A program reads and changes a state and either returns a value or throws.  The
state reached at a throw is kept, so that code which runs while the exception
passes, such as a destructor, can still change it.
-/

/-- A program over a state. -/
abbrev StateProgram (State Error Value : Type) : Type :=
  State → Except Error Value × State

namespace StateProgram

variable {State Error Value Result : Type}

instance : Monad (StateProgram State Error) where
  pure value := fun state => (.ok value, state)
  bind program next := fun state =>
    match program state with
    | (.ok value, state) => next value state
    | (.error error, state) => (.error error, state)

/-- End the program with an exception. -/
def raise (error : Error) : StateProgram State Error Value :=
  fun state => (.error error, state)

/-- Read the state. -/
def read (view : State → Value) : StateProgram State Error Value :=
  fun state => (.ok (view state), state)

/-- Change the state. -/
def update (change : State → Value × State) : StateProgram State Error Value :=
  fun state => (.ok (change state).1, (change state).2)

/-- Run the program and catch what it throws. -/
def attempt (program : StateProgram State Error Value) :
    StateProgram State Error (Except Error Value) :=
  fun state => (.ok (program state).1, (program state).2)

/-- Whether a result is an exception. -/
def failed : Except Error Value → Bool
  | .ok _ => false
  | .error _ => true

theorem bind_eq_ok {program : StateProgram State Error Value}
    {next : Value → StateProgram State Error Result} {state after : State} {result : Result} :
    (program >>= next) state = (.ok result, after) ↔
      ∃ value between, program state = (.ok value, between) ∧
        next value between = (.ok result, after) := by
  change (match program state with
    | (.ok value, state) => next value state
    | (.error error, state) => (.error error, state)) = (.ok result, after) ↔ _
  cases program state with
  | mk outcome between =>
      cases outcome with
      | ok value =>
          constructor
          · intro rest
            exact ⟨value, between, rfl, rest⟩
          · rintro ⟨sameValue, sameBetween, first, rest⟩
            cases first
            exact rest
      | error error => simp

theorem bind_of_ok {program : StateProgram State Error Value}
    {next : Value → StateProgram State Error Result} {state between : State} {value : Value}
    (first : program state = (.ok value, between)) :
    (program >>= next) state = next value between := by
  change (match program state with
    | (.ok value, state) => next value state
    | (.error error, state) => (.error error, state)) = _
  rw [first]

theorem bind_of_error {program : StateProgram State Error Value}
    {next : Value → StateProgram State Error Result} {state between : State} {error : Error}
    (first : program state = (.error error, between)) :
    (program >>= next) state = (.error error, between) := by
  change (match program state with
    | (.ok value, state) => next value state
    | (.error error, state) => (.error error, state)) = _
  rw [first]

@[simp]
theorem pure_apply (value : Value) (state : State) :
    (pure value : StateProgram State Error Value) state = (.ok value, state) :=
  rfl

@[simp]
theorem raise_apply (error : Error) (state : State) :
    (raise error : StateProgram State Error Value) state = (.error error, state) :=
  rfl

@[simp]
theorem read_apply (view : State → Value) (state : State) :
    (read view : StateProgram State Error Value) state = (.ok (view state), state) :=
  rfl

@[simp]
theorem update_apply (change : State → Value × State) (state : State) :
    (update change : StateProgram State Error Value) state =
      (.ok (change state).1, (change state).2) :=
  rfl

@[simp]
theorem read_bind (view : State → Value) (next : Value → StateProgram State Error Result)
    (state : State) : ((read view : StateProgram State Error Value) >>= next) state =
      next (view state) state :=
  rfl

@[simp]
theorem update_bind (change : State → Value × State)
    (next : Value → StateProgram State Error Result) (state : State) :
    ((update change : StateProgram State Error Value) >>= next) state =
      next (change state).1 (change state).2 :=
  rfl

@[simp]
theorem raise_bind (error : Error) (next : Value → StateProgram State Error Result)
    (state : State) : ((raise error : StateProgram State Error Value) >>= next) state =
      (.error error, state) :=
  rfl

end StateProgram
