import Mathlib.Data.List.Basic

/-!
# Lists in pieces

A list cut into pieces of a given size, the last of which may be shorter.
-/

namespace ListPieces

variable {α : Type*}

def pieces (size : Nat) (list : List α) : List (List α) :=
  if list = [] ∨ size = 0 then []
  else list.take size :: pieces size (list.drop size)
termination_by list.length
decreasing_by
  rename_i going
  push Not at going
  have nonempty := List.length_pos_iff.mpr going.1
  rw [List.length_drop]
  omega

variable {size : Nat}

@[simp]
theorem pieces_nil : pieces size ([] : List α) = [] := by
  rw [pieces, if_pos (Or.inl rfl)]

theorem pieces_of_ne_nil (positive : 0 < size) {list : List α} (nonempty : list ≠ []) :
    pieces size list = list.take size :: pieces size (list.drop size) := by
  rw [pieces, if_neg]
  rintro (empty | zero)
  · exact nonempty empty
  · omega

/-- Something holds of a list and its pieces if it holds of the empty list, and
of a list when it holds of what is left after the first piece. -/
theorem pieces_induction (positive : 0 < size) {motive : List α → Prop} (nil : motive [])
    (cut : ∀ list, list ≠ [] → motive (list.drop size) → motive list) (list : List α) :
    motive list := by
  induction list using pieces.induct size with
  | case1 list done =>
      rcases done with rfl | zero
      · exact nil
      · omega
  | case2 list going ih =>
      push Not at going
      exact cut list going.1 ih

/-- A piece begins somewhere in the list and is as long as the size allows. -/
theorem mem_pieces (positive : 0 < size) {list piece : List α} (member : piece ∈ pieces size list) :
    ∃ skipped < list.length, piece = (list.drop skipped).take size := by
  induction list using pieces_induction positive with
  | nil => simp at member
  | cut list nonempty ih =>
      rw [pieces_of_ne_nil positive nonempty] at member
      rcases List.mem_cons.mp member with rfl | later
      · exact ⟨0, List.length_pos_iff.mpr nonempty, by rw [List.drop_zero]⟩
      · obtain ⟨skipped, less, rfl⟩ := ih later
        rw [List.length_drop] at less
        exact ⟨size + skipped, by omega, by rw [List.drop_drop]⟩

theorem length_of_mem_pieces (positive : 0 < size) {list piece : List α}
    (member : piece ∈ pieces size list) : 0 < piece.length ∧ piece.length ≤ size := by
  obtain ⟨skipped, less, rfl⟩ := mem_pieces positive member
  rw [List.length_take, List.length_drop]
  omega

end ListPieces
