import Mathlib.Data.List.Range

/-!
# Cursors on lists

A cursor that steps from place to place of a list, in either direction, and
stops where it finds something to show.  Steps that lead along a route show
what is to be seen on the route, in its order.
-/

namespace ListCursor

variable {Item Shown : Type}

/-- The place after a position, the first one for a cursor that has none. -/
def stepForward (items : List Item) : Option Nat → Option Nat
  | none => if 0 < items.length then some 0 else none
  | some place => if place + 1 < items.length then some (place + 1) else none

/-- The place before a position, the last one for a cursor that has none. -/
def stepBack (items : List Item) : Option Nat → Option Nat
  | none => if 0 < items.length then some (items.length - 1) else none
  | some place => if 0 < place then some (place - 1) else none

section Routes

variable (view : Nat → Option Shown) (move : Option Nat → Option Nat)

/-- Step until there is something to show.  A step that fails leaves the cursor
where it is. -/
def seek : Nat → Option Nat → Option Shown × Option Nat
  | 0, position => (none, position)
  | rounds + 1, position =>
      match move position with
      | none => (none, position)
      | some place =>
          match view place with
          | some shown => (some shown, some place)
          | none => seek rounds (some place)

/-- The places that steps from a position lead to. -/
inductive Route : Option Nat → List Nat → Prop
  | stop {position : Option Nat} (stops : move position = none) : Route position []
  | go {position : Option Nat} {place : Nat} {places : List Nat}
      (goes : move position = some place) (onward : Route (some place) places) :
      Route position (place :: places)

variable {view move}

theorem seek_of_route {position : Option Nat} {places : List Nat}
    (route : Route move position places) {rounds : Nat} (enough : places.length < rounds) :
    (places.filterMap view = [] ∧ (seek view move rounds position).1 = none) ∨
      ∃ shown place rest, seek view move rounds position = (some shown, some place) ∧
        Route move (some place) rest ∧ rest.length < places.length ∧
          places.filterMap view = shown :: rest.filterMap view := by
  induction route generalizing rounds with
  | stop stops =>
      cases rounds with
      | zero => exact absurd enough (Nat.not_lt_zero _)
      | succ rounds =>
          left
          rw [seek, stops]
          exact ⟨rfl, rfl⟩
  | @go position place places goes onward ih =>
      cases rounds with
      | zero => exact absurd enough (Nat.not_lt_zero _)
      | succ rounds =>
          rw [seek, goes]
          dsimp only
          cases sees : view place with
          | some shown =>
              right
              exact ⟨shown, place, places, rfl, onward, Nat.lt_succ_self _,
                List.filterMap_cons_some sees⟩
          | none =>
              rw [List.filterMap_cons_none sees]
              rcases ih (Nat.lt_of_succ_lt_succ enough) with
                nothing | ⟨shown, later, rest, found, further, fewer, same⟩
              · exact Or.inl nothing
              · exact Or.inr ⟨shown, later, rest, found, further,
                  Nat.lt_succ_of_lt fewer, same⟩

theorem seek_fst_of_route {position : Option Nat} {places : List Nat}
    (route : Route move position places) {rounds : Nat} (enough : places.length < rounds) :
    (seek view move rounds position).1 = (places.filterMap view).head? := by
  rcases @seek_of_route _ view _ _ _ route _ enough with
    ⟨nothing, failed⟩ | ⟨shown, place, rest, found, -, -, same⟩
  · rw [nothing, failed]
    rfl
  · rw [found, same]
    rfl

end Routes

variable {items : List Item}

/-- The position of a cursor that has passed the first items. -/
def passed : Nat → Option Nat
  | 0 => none
  | count + 1 => some count

theorem route_forward (rest : Nat) {count : Nat} (all : count + rest = items.length) :
    Route (stepForward items) (passed count) (List.range' count rest) := by
  induction rest generalizing count with
  | zero =>
      apply Route.stop
      cases count with
      | zero => simp only [passed, stepForward]; rw [if_neg (by omega)]
      | succ count => simp only [passed, stepForward]; rw [if_neg (by omega)]
  | succ rest ih =>
      rw [List.range'_succ]
      refine Route.go ?_ (ih (show count + 1 + rest = items.length by omega))
      cases count with
      | zero => simp only [passed, stepForward]; rw [if_pos (by omega)]
      | succ count => simp only [passed, stepForward]; rw [if_pos (by omega)]

theorem route_back (count : Nat) :
    Route (stepBack items) (some count) (List.range count).reverse := by
  induction count with
  | zero =>
      apply Route.stop
      simp [stepBack]
  | succ count ih =>
      rw [List.range_succ, List.reverse_append, List.reverse_singleton, List.singleton_append]
      exact Route.go (by simp [stepBack]) ih

theorem filterMap_range' (view : Item → Option Shown) (before after : List Item) :
    ((List.range' before.length after.length).filterMap fun place =>
        (before ++ after)[place]?.bind view) =
      after.filterMap view := by
  induction after generalizing before with
  | nil => rfl
  | cons item after ih =>
      have onward := ih (before ++ [item])
      rw [List.length_append, List.length_singleton, List.append_assoc,
        List.singleton_append] at onward
      rw [List.length_cons, List.range'_succ, List.filterMap_cons, onward, List.filterMap_cons,
        List.getElem?_append_right (Nat.le_refl _), Nat.sub_self, List.getElem?_cons_zero,
        Option.bind_some]

theorem filterMap_range_reverse (view : Item → Option Shown) (before after : List Item) :
    ((List.range before.length).reverse.filterMap fun place =>
        (before ++ after)[place]?.bind view) =
      (before.filterMap view).reverse := by
  rw [List.filterMap_reverse, List.range_eq_range']
  congr 1
  have all := filterMap_range' view [] before
  rw [← all]
  apply List.filterMap_congr
  intro place member
  have small : place < before.length := by
    have inside := List.mem_range'_1.mp member
    omega
  rw [List.getElem?_append_left small, List.nil_append]

end ListCursor
