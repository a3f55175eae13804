import Rangexx.BreadthFirst

/-!
# Keys that two searches reach

The keys in reach of two roots, with the number of steps from both together.
Two breadth-first searches meet at exactly these keys, and where the first
parts of the searches meet best, a nearest common key is met as near as it
lies.
-/

namespace CommonReach

open Worklist BreadthFirst

variable {Key : Type} (nextFirst nextSecond : Key → List Key)

/-- The key is so many steps away from both roots together. -/
def CommonSteps (first second key : Key) (total : Nat) : Prop :=
  ∃ fromFirst fromSecond, StepsTo nextFirst fromFirst first key ∧
    StepsTo nextSecond fromSecond second key ∧ total = fromFirst + fromSecond

/-- A common key with the fewest steps. -/
def NearestCommon (first second key : Key) : Prop :=
  ∃ total, CommonSteps nextFirst nextSecond first second key total ∧
    ∀ other more, CommonSteps nextFirst nextSecond first second other more → total ≤ more

/-- Two lists of keys with depths meet at a key. -/
def Meets (left right : List (Key × Nat)) (key : Key) (total : Nat) : Prop :=
  ∃ leftDepth rightDepth, (key, leftDepth) ∈ left ∧ (key, rightDepth) ∈ right ∧
    total = leftDepth + rightDepth

/-- They do not meet at a smaller sum. -/
def MeetsAtBest (left right : List (Key × Nat)) (total : Nat) : Prop :=
  ∀ other more, Meets left right other more → total ≤ more

variable {nextFirst nextSecond}

theorem Meets.mono {left right widerLeft widerRight : List (Key × Nat)} {key : Key} {total : Nat}
    (meets : Meets left right key total) (leftIn : left ⊆ widerLeft)
    (rightIn : right ⊆ widerRight) : Meets widerLeft widerRight key total := by
  obtain ⟨leftDepth, rightDepth, inLeft, inRight, same⟩ := meets
  exact ⟨leftDepth, rightDepth, leftIn inLeft, rightIn inRight, same⟩

theorem Meets.symm {left right : List (Key × Nat)} {key : Key} {total : Nat}
    (meets : Meets left right key total) : Meets right left key total := by
  obtain ⟨leftDepth, rightDepth, inLeft, inRight, rfl⟩ := meets
  exact ⟨rightDepth, leftDepth, inRight, inLeft, Nat.add_comm _ _⟩

/-- A new item of one list meets the other where that has the key. -/
theorem meets_append_iff {left right : List (Key × Nat)} {v : Key × Nat} {key : Key}
    {total : Nat} : Meets (left ++ [v]) right key total ↔ Meets left right key total ∨
      ∃ depth, (v.1, depth) ∈ right ∧ key = v.1 ∧ total = depth + v.2 := by
  constructor
  · rintro ⟨leftDepth, rightDepth, inLeft, inRight, rfl⟩
    rcases List.mem_append.mp inLeft with before | isLast
    · exact Or.inl ⟨leftDepth, rightDepth, before, inRight, rfl⟩
    · obtain rfl := List.mem_singleton.mp isLast
      exact Or.inr ⟨rightDepth, inRight, rfl, Nat.add_comm _ _⟩
  · rintro (meets | ⟨depth, inRight, rfl, rfl⟩)
    · exact meets.mono (List.subset_append_left left [v]) (List.Subset.refl right)
    · exact ⟨v.2, depth, List.mem_append_right _ (List.mem_singleton_self _), inRight,
        Nat.add_comm _ _⟩

/-- A key taken in the first part of an ascending list is taken there at most
as deep as anywhere in the list. -/
theorem mem_take_of_ascending {items : List (Key × Nat)}
    (ascending : items.Pairwise fun item later => item.2 ≤ later.2) (count : Nat) {key : Key}
    {early depth : Nat} (isEarly : (key, early) ∈ items.take count) (member : (key, depth) ∈ items) :
    ∃ least ≤ depth, (key, least) ∈ items.take count := by
  rw [← List.take_append_drop count items] at ascending member
  rcases List.mem_append.mp member with inFront | later
  · exact ⟨depth, Nat.le_refl depth, inFront⟩
  · exact ⟨early, (List.pairwise_append.mp ascending).2.2 _ isEarly _ later, isEarly⟩

/-- A breadth-first search of so many rounds leaves nothing in its queue. -/
structure Exhausts [DecidableEq Key] (next : Key → List Key) (nodes : List Key) (rounds : Nat) :
    Prop where
  nodup : nodes.Nodup
  covered : ∀ key, next key ≠ [] → key ∈ nodes
  enough : 1 + openEdges next nodes [] ≤ rounds

variable [DecidableEq Key] {nodes : List Key} {rounds : Nat} {first second : Key}

theorem commonSteps_of_meets {key : Key} {total : Nat}
    (meets : Meets (pops nextFirst rounds [(first, 0)] []) (pops nextSecond rounds [(second, 0)] [])
      key total) : CommonSteps nextFirst nextSecond first second key total := by
  obtain ⟨fromFirst, fromSecond, inFirst, inSecond, same⟩ := meets
  exact ⟨fromFirst, fromSecond, pops_root_sound inFirst, pops_root_sound inSecond, same⟩

variable (exhaustsFirst : Exhausts nextFirst nodes rounds)
  (exhaustsSecond : Exhausts nextSecond nodes rounds)

include exhaustsFirst exhaustsSecond

theorem meets_of_commonSteps {key : Key} {total : Nat}
    (common : CommonSteps nextFirst nextSecond first second key total) :
    ∃ less ≤ total, Meets (pops nextFirst rounds [(first, 0)] [])
      (pops nextSecond rounds [(second, 0)] []) key less := by
  obtain ⟨fromFirst, fromSecond, stepsFirst, stepsSecond, rfl⟩ := common
  obtain ⟨leftDepth, leftLess, inFirst⟩ :=
    pops_root_complete exhaustsFirst.nodup exhaustsFirst.covered exhaustsFirst.enough stepsFirst
  obtain ⟨rightDepth, rightLess, inSecond⟩ :=
    pops_root_complete exhaustsSecond.nodup exhaustsSecond.covered exhaustsSecond.enough
      stepsSecond
  exact ⟨leftDepth + rightDepth, Nat.add_le_add leftLess rightLess, leftDepth, rightDepth,
    inFirst, inSecond, rfl⟩

/-- A best meeting of the whole searches is at a nearest common key. -/
theorem nearestCommon_of_meets {key : Key} {total : Nat}
    (meets : Meets (pops nextFirst rounds [(first, 0)] []) (pops nextSecond rounds [(second, 0)] [])
      key total)
    (best : MeetsAtBest (pops nextFirst rounds [(first, 0)] [])
      (pops nextSecond rounds [(second, 0)] []) total) :
    NearestCommon nextFirst nextSecond first second key := by
  refine ⟨total, commonSteps_of_meets meets, fun other more common => ?_⟩
  obtain ⟨less, isLess, meetsOther⟩ := meets_of_commonSteps exhaustsFirst exhaustsSecond
    common
  exact (best other less meetsOther).trans isLess

/-- When the first parts of two searches meet best at a nearest common key, so
do the whole searches. -/
theorem meetsAtBest_of_nearest (count : Nat) {key : Key} {total : Nat}
    (meets : Meets ((pops nextFirst rounds [(first, 0)] []).take count)
      ((pops nextSecond rounds [(second, 0)] []).take count) key total)
    (best : MeetsAtBest ((pops nextFirst rounds [(first, 0)] []).take count)
      ((pops nextSecond rounds [(second, 0)] []).take count) total)
    (nearest : NearestCommon nextFirst nextSecond first second key) :
    MeetsAtBest (pops nextFirst rounds [(first, 0)] []) (pops nextSecond rounds [(second, 0)] [])
      total := by
  obtain ⟨least, common, isLeast⟩ := nearest
  obtain ⟨less, isLess, leftDepth, rightDepth, inFirst, inSecond, rfl⟩ := meets_of_commonSteps
    exhaustsFirst exhaustsSecond common
  obtain ⟨_, _, earlyFirst, earlySecond, -⟩ := meets
  obtain ⟨leftLeast, leftLess, leftTaken⟩ :=
    mem_take_of_ascending (pops_root_ascending rounds first) count earlyFirst inFirst
  obtain ⟨rightLeast, rightLess, rightTaken⟩ :=
    mem_take_of_ascending (pops_root_ascending rounds second) count earlySecond inSecond
  intro other more meetsOther
  calc total ≤ leftLeast + rightLeast :=
        best key _ ⟨leftLeast, rightLeast, leftTaken, rightTaken, rfl⟩
    _ ≤ leftDepth + rightDepth := Nat.add_le_add leftLess rightLess
    _ ≤ least := isLess
    _ ≤ more := isLeast other more (commonSteps_of_meets meetsOther)

end CommonReach
