import Mathlib.Data.List.Destutter
import Mathlib.Data.List.Sort
import Mathlib.Order.Lattice

/-!
# Sorted lists as multisets

The algorithms on sorted sequences that walk two lists side by side.  An
element that is repeated is counted: the union has as many of it as the list
with more, the difference as many as are left over, the intersection as many
as the list with fewer.
-/

namespace SortedLists

variable {α : Type} [LinearOrder α]

def sorted (list : List α) : List α :=
  list.insertionSort (· ≤ ·)

/-- An element is kept or passed over. -/
def keep (kept : Bool) (a : α) (rest : List α) : List α :=
  if kept then a :: rest else rest

/-- A whole list is kept or passed over. -/
def keepAll (kept : Bool) (list : List α) : List α :=
  if kept then list else []

/-- The walk along two sorted lists.  Equal elements are paired; it keeps, as
the flags say, those that only the left list has, those that both have, and
those that only the right list has. -/
def walk (onlyLeft both onlyRight : Bool) : List α → List α → List α
  | [], right => keepAll onlyRight right
  | left, [] => keepAll onlyLeft left
  | a :: left, b :: right =>
      if a < b then keep onlyLeft a (walk onlyLeft both onlyRight left (b :: right))
      else if b < a then keep onlyRight b (walk onlyLeft both onlyRight (a :: left) right)
      else keep both a (walk onlyLeft both onlyRight left right)
termination_by left right => left.length + right.length

def union : List α → List α → List α :=
  walk true true true

def difference : List α → List α → List α :=
  walk true false false

def intersection : List α → List α → List α :=
  walk false true false

/-- A list without the elements that follow their equal. -/
def unique (list : List α) : List α :=
  list.destutter (· ≠ ·)

/-! ## Sorting -/

theorem sorted_perm (list : List α) : (sorted list).Perm list :=
  List.perm_insertionSort _ list

theorem sorted_pairwise (list : List α) : (sorted list).Pairwise (· ≤ ·) :=
  List.pairwise_insertionSort _ list

theorem unique_eq_dedup {list : List α} (isSorted : list.Pairwise (· ≤ ·)) :
    unique list = list.dedup :=
  isSorted.destutter_eq_dedup

theorem nodup_unique_sorted (list : List α) : (unique (sorted list)).Nodup := by
  rw [unique_eq_dedup (sorted_pairwise list)]
  exact List.nodup_dedup _

/-! ## Counting -/

variable [BEq α]

theorem count_sorted (x : α) (list : List α) : (sorted list).count x = list.count x :=
  (sorted_perm list).count_eq x

variable [LawfulBEq α]

omit [LinearOrder α] [LawfulBEq α] in
theorem count_keepAll (kept : Bool) (x : α) (list : List α) :
    (keepAll kept list).count x = if kept then list.count x else 0 := by
  cases kept <;> rfl

omit [LinearOrder α] in
theorem count_keep_self (kept : Bool) (a : α) (rest : List α) :
    (keep kept a rest).count a = (if kept then 1 else 0) + rest.count a := by
  cases kept with
  | false => simp [keep]
  | true => simp [keep, Nat.add_comm]

omit [LinearOrder α] in
theorem count_keep_of_ne (kept : Bool) {a x : α} (other : a ≠ x) (rest : List α) :
    (keep kept a rest).count x = rest.count x := by
  cases kept with
  | false => rfl
  | true => exact List.count_cons_of_ne other

/-- A sorted list has nothing that is below its head. -/
theorem count_of_lt {a b : α} {right : List α} (isSorted : (b :: right).Pairwise (· ≤ ·))
    (below : a < b) : (b :: right).count a = 0 := by
  rw [List.count_eq_zero, List.mem_cons, not_or]
  constructor
  · exact below.ne
  · intro member
    have above := List.rel_of_pairwise_cons isSorted member
    exact absurd below above.not_gt

/-- How often the walk keeps an element. -/
def kept (onlyLeft both onlyRight : Bool) (left right : Nat) : Nat :=
  (if onlyLeft then left - right else 0) + (if both then min left right else 0) +
    (if onlyRight then right - left else 0)

theorem count_walk (onlyLeft both onlyRight : Bool) (x : α) {left right : List α}
    (leftSorted : left.Pairwise (· ≤ ·)) (rightSorted : right.Pairwise (· ≤ ·)) :
    (walk onlyLeft both onlyRight left right).count x =
      kept onlyLeft both onlyRight (left.count x) (right.count x) := by
  fun_induction walk onlyLeft both onlyRight left right with
  | case1 right =>
      rw [count_keepAll]
      simp [kept]
  | case2 left =>
      rw [count_keepAll]
      simp [kept]
  | case3 a left b right below ih =>
      have absent := count_of_lt rightSorted below
      have ih := ih leftSorted.of_cons rightSorted
      by_cases same : a = x
      · subst same
        rw [count_keep_self, List.count_cons_self, ih, absent, kept, kept]
        cases onlyLeft with
        | false => simp
        | true =>
            simp only [if_true, Nat.sub_zero, Nat.min_zero, Nat.zero_sub, ite_self]
            omega
      · rw [count_keep_of_ne _ same, List.count_cons_of_ne same, ih]
  | case4 a left b right _ above ih =>
      have absent := count_of_lt leftSorted above
      have ih := ih leftSorted rightSorted.of_cons
      by_cases same : b = x
      · subst same
        rw [count_keep_self, List.count_cons_self, ih, absent, kept, kept]
        cases onlyRight with
        | false => simp
        | true =>
            simp only [if_true, Nat.sub_zero, Nat.zero_min, Nat.zero_sub, ite_self]
            omega
      · rw [count_keep_of_ne _ same, List.count_cons_of_ne same, ih]
  | case5 a left b right notBelow notAbove ih =>
      obtain rfl : a = b := le_antisymm (not_lt.mp notAbove) (not_lt.mp notBelow)
      have ih := ih leftSorted.of_cons rightSorted.of_cons
      by_cases same : a = x
      · subst same
        rw [count_keep_self, List.count_cons_self, List.count_cons_self, ih, kept, kept,
          Nat.add_sub_add_right, Nat.add_sub_add_right, Nat.add_min_add_right]
        cases both with
        | false => simp
        | true =>
            simp only [if_true]
            omega
      · rw [count_keep_of_ne _ same, List.count_cons_of_ne same, List.count_cons_of_ne same, ih]

variable (x : α) (left right : List α)

theorem count_union :
    (union (sorted left) (sorted right)).count x = max (left.count x) (right.count x) := by
  rw [union, count_walk _ _ _ x (sorted_pairwise left) (sorted_pairwise right), count_sorted,
    count_sorted, kept]
  simp only [if_true]
  omega

theorem count_difference :
    (difference (sorted left) (sorted right)).count x = left.count x - right.count x := by
  rw [difference, count_walk _ _ _ x (sorted_pairwise left) (sorted_pairwise right),
    count_sorted, count_sorted]
  simp [kept]

theorem count_intersection :
    (intersection (sorted left) (sorted right)).count x =
      min (left.count x) (right.count x) := by
  rw [intersection, count_walk _ _ _ x (sorted_pairwise left) (sorted_pairwise right),
    count_sorted, count_sorted]
  simp [kept]

end SortedLists
