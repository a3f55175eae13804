import Rangexx.BreadthFirst

/-!
# Unfolding a graph along simple paths

A tree of labels, and the tree that a graph unfolds to from a root when a
successor is left out that already occurs on the path to it.  Cutting the paths
loses no key: a walk can be shortened to a simple path.
-/

namespace PathUnfolding

open Worklist BreadthFirst

/-- A label with subtrees under keys. -/
inductive Tree (Key Label : Type) where
  | node (label : Label) (children : List (Key × Tree Key Label))

namespace Tree

variable {Key Label : Type}

mutual

/-- The keys with their labels, from the root down. -/
def labels (key : Key) : Tree Key Label → List (Key × Label)
  | node label children => (key, label) :: labelsOf children

def labelsOf : List (Key × Tree Key Label) → List (Key × Label)
  | [] => []
  | (key, tree) :: rest => labels key tree ++ labelsOf rest

end

theorem labels_node (key : Key) (label : Label) (children : List (Key × Tree Key Label)) :
    labels key (node label children) =
      (key, label) :: children.flatMap fun child => labels child.1 child.2 := by
  rw [labels]
  congr 1
  induction children with
  | nil => rfl
  | cons child rest ih =>
      rw [labelsOf, ih]
      rfl

end Tree

variable {Key Label : Type} [DecidableEq Key] (next : Key → List Key)

/-- The unfolding of so many levels below a key, given the path above it. -/
def unfolding (label : Key → Label) : Nat → List Key → Key → Tree Key Label
  | 0, _, key => .node (label key) []
  | levels + 1, path, key => .node (label key)
      (((next key).filter fun child => child ∉ key :: path).map fun child =>
        (child, unfolding label levels (key :: path) child))

/-- The keys so many edges away by a path that avoids some keys and itself. -/
def SimpleSteps : List Key → Nat → Key → Key → Prop
  | _, 0, root, key => key = root
  | path, length + 1, root, key =>
      ∃ child ∈ next root, child ∉ root :: path ∧ SimpleSteps (root :: path) length child key

/-- The keys so many edges away by a walk that avoids some keys. -/
def AvoidingSteps (avoided : List Key) : Nat → Key → Key → Prop
  | 0, root, key => key = root
  | length + 1, root, key =>
      ∃ child ∈ next root, child ∉ avoided ∧ AvoidingSteps avoided length child key

variable {next}

theorem mem_labels_unfolding (label : Key → Label) (levels : Nat) (path : List Key) (root : Key)
    (key : Key) (value : Label) :
    (key, value) ∈ (unfolding next label levels path root).labels root ↔
      value = label key ∧ ∃ length ≤ levels, SimpleSteps next path length root key := by
  induction levels generalizing path root with
  | zero =>
      rw [unfolding, Tree.labels_node]
      simp only [List.flatMap_nil, List.mem_singleton, Prod.mk.injEq, Nat.le_zero,
        exists_eq_left, SimpleSteps]
      constructor
      · rintro ⟨rfl, rfl⟩
        exact ⟨rfl, rfl⟩
      · rintro ⟨rfl, rfl⟩
        exact ⟨rfl, rfl⟩
  | succ levels ih =>
      rw [unfolding, Tree.labels_node, List.mem_cons]
      simp only [List.mem_flatMap, List.mem_map, List.mem_filter, decide_eq_true_eq]
      constructor
      · rintro (same | ⟨_, ⟨child, ⟨edge, fresh⟩, rfl⟩, below⟩)
        · obtain ⟨rfl, rfl⟩ := Prod.mk.inj same
          exact ⟨rfl, 0, Nat.zero_le _, rfl⟩
        · obtain ⟨isLabel, length, atMost, steps⟩ := (ih (root :: path) child).mp below
          exact ⟨isLabel, length + 1, Nat.succ_le_succ atMost, child, edge, fresh, steps⟩
      · rintro ⟨rfl, length, atMost, steps⟩
        cases length with
        | zero =>
            obtain rfl : key = root := steps
            exact Or.inl rfl
        | succ length =>
            obtain ⟨child, edge, fresh, onward⟩ := steps
            refine Or.inr ⟨_, ⟨child, ⟨edge, fresh⟩, rfl⟩, ?_⟩
            exact (ih (root :: path) child).mpr
              ⟨rfl, length, Nat.le_of_succ_le_succ atMost, onward⟩

/-! ## Walks and simple paths -/

section Walks

omit [DecidableEq Key]

theorem stepsTo_of_simpleSteps {path : List Key} {length : Nat} {root key : Key}
    (steps : SimpleSteps next path length root key) : StepsTo next length root key := by
  induction length generalizing path root with
  | zero => exact steps
  | succ length ih =>
      obtain ⟨child, edge, _, onward⟩ := steps
      exact (stepsTo_succ_iff length root key).mpr ⟨child, edge, ih onward⟩

theorem avoiding_of_stepsTo {length : Nat} {root key : Key}
    (steps : StepsTo next length root key) : AvoidingSteps next [] length root key := by
  induction length generalizing root with
  | zero => exact steps
  | succ length ih =>
      obtain ⟨child, edge, onward⟩ := (stepsTo_succ_iff length root key).mp steps
      exact ⟨child, edge, List.not_mem_nil, ih onward⟩

/-- A walk from a key avoids the root, or it goes on from the root by a walk
that is not longer. -/
theorem avoiding_cons (avoided : List Key) (root : Key) {length : Nat} {start key : Key}
    (steps : AvoidingSteps next avoided length start key) :
    (start ≠ root ∧ AvoidingSteps next (root :: avoided) length start key) ∨
      ∃ rest ≤ length, AvoidingSteps next avoided rest root key := by
  by_cases atRoot : start = root
  · subst atRoot
    exact Or.inr ⟨length, Nat.le_refl _, steps⟩
  induction length generalizing start with
  | zero => exact Or.inl ⟨atRoot, steps⟩
  | succ length ih =>
      obtain ⟨child, edge, fresh, onward⟩ := steps
      by_cases childAtRoot : child = root
      · subst childAtRoot
        exact Or.inr ⟨length, Nat.le_succ length, onward⟩
      · rcases ih onward childAtRoot with ⟨_, avoids⟩ | ⟨rest, atMost, fromRoot⟩
        · exact Or.inl ⟨atRoot, child, edge, by simp [childAtRoot, fresh], avoids⟩
        · exact Or.inr ⟨rest, Nat.le_succ_of_le atMost, fromRoot⟩

/-- A walk can be cut to a simple path. -/
theorem simpleSteps_of_avoiding {length : Nat} {path : List Key} {root key : Key}
    (steps : AvoidingSteps next path length root key) :
    ∃ short ≤ length, SimpleSteps next path short root key := by
  induction length using Nat.strong_induction_on generalizing path root with
  | _ length ih =>
      cases length with
      | zero => exact ⟨0, Nat.le_refl 0, steps⟩
      | succ length =>
          obtain ⟨child, edge, fresh, onward⟩ := steps
          rcases avoiding_cons path root onward with ⟨notRoot, avoids⟩ | ⟨rest, atMost, fromRoot⟩
          · obtain ⟨short, isShort, simple⟩ := ih length (Nat.lt_succ_self length) avoids
            exact ⟨short + 1, Nat.succ_le_succ isShort, child, edge, by simp [notRoot, fresh],
              simple⟩
          · obtain ⟨short, isShort, simple⟩ := ih rest (Nat.lt_succ_of_le atMost) fromRoot
            exact ⟨short, isShort.trans (Nat.le_succ_of_le atMost), simple⟩

/-- A key lies within some levels by a simple path if it does so at all. -/
theorem exists_simpleSteps_iff (levels : Nat) (root key : Key) :
    (∃ length ≤ levels, SimpleSteps next [] length root key) ↔
      ∃ length ≤ levels, StepsTo next length root key := by
  constructor
  · rintro ⟨length, atMost, steps⟩
    exact ⟨length, atMost, stepsTo_of_simpleSteps steps⟩
  · rintro ⟨length, atMost, steps⟩
    obtain ⟨short, isShort, simple⟩ := simpleSteps_of_avoiding (avoiding_of_stepsTo steps)
    exact ⟨short, isShort.trans atMost, simple⟩

/-- A simple path has at most as many edges as there are keys with successors. -/
theorem simpleSteps_length_le {nodes : List Key}
    (covered : ∀ key, next key ≠ [] → key ∈ nodes) {path : List Key} {length : Nat}
    {root key : Key} (steps : SimpleSteps next path length root key) (fresh : root ∉ path)
    (nodup : path.Nodup) (within : ∀ key ∈ path, key ∈ nodes) :
    length + path.length ≤ nodes.length := by
  induction length generalizing path root with
  | zero =>
      rw [Nat.zero_add]
      exact (List.subperm_of_subset nodup within).length_le
  | succ length ih =>
      obtain ⟨child, edge, childFresh, onward⟩ := steps
      have inNodes := covered root (List.ne_nil_of_mem edge)
      have longer := ih onward childFresh (List.nodup_cons.mpr ⟨fresh, nodup⟩) (by
        intro other member
        rcases List.mem_cons.mp member with rfl | old
        · exact inNodes
        · exact within other old)
      rw [List.length_cons] at longer
      omega

/-- Enough levels show everything the root reaches. -/
theorem exists_simpleSteps_iff_reaches {nodes : List Key}
    (covered : ∀ key, next key ≠ [] → key ∈ nodes) {levels : Nat}
    (enough : nodes.length ≤ levels) (root key : Key) :
    (∃ length ≤ levels, SimpleSteps next [] length root key) ↔ Reaches next root key := by
  rw [reaches_iff_stepsTo]
  constructor
  · rintro ⟨length, _, steps⟩
    exact ⟨length, stepsTo_of_simpleSteps steps⟩
  · rintro ⟨length, steps⟩
    obtain ⟨short, _, simple⟩ := simpleSteps_of_avoiding (avoiding_of_stepsTo steps)
    have bound := simpleSteps_length_le covered simple List.not_mem_nil List.nodup_nil (by simp)
    exact ⟨short, bound.trans enough, simple⟩

end Walks

/-! ## Levels that are enough -/

/-- So many levels are enough for every simple path that goes on from a path. -/
structure Enough {Key : Type} (nodes : List Key) (levels : Nat) (path : List Key) : Prop where
  nodup : path.Nodup
  within : path ⊆ nodes
  enough : nodes.length ≤ levels + path.length

namespace Enough

variable {Key : Type} {nodes : List Key} {levels : Nat} {path : List Key} {key : Key}

theorem root (enough : nodes.length ≤ levels) : Enough nodes levels [] :=
  ⟨List.nodup_nil, List.nil_subset _, enough⟩

theorem down (isEnough : Enough nodes (levels + 1) path) (fresh : key ∉ path)
    (inNodes : key ∈ nodes) : Enough nodes levels (key :: path) := by
  refine ⟨List.nodup_cons.mpr ⟨fresh, isEnough.nodup⟩,
    List.cons_subset.mpr ⟨inNodes, isEnough.within⟩, ?_⟩
  have enough := isEnough.enough
  rw [List.length_cons]
  omega

/-- Where no level is left there is no other key to go on to. -/
theorem bottom (isEnough : Enough nodes 0 path) (fresh : key ∉ path) : key ∉ nodes := by
  intro inNodes
  have bound := (List.subperm_of_subset (List.nodup_cons.mpr ⟨fresh, isEnough.nodup⟩)
    (List.cons_subset.mpr ⟨inNodes, isEnough.within⟩)).length_le
  have enough := isEnough.enough
  rw [List.length_cons] at bound
  omega

end Enough

end PathUnfolding
