import Rangexx.CallRuns
import Rangexx.RangeExpressions

/-!
# The set operators

Union, difference and intersection of range expressions work on lists that may
repeat names.  They give what their names say unless a repeat gets through.
-/

namespace Rangexx

namespace ExpressionVisitor

open RangeApi SortedLists

variable (visitor : ExpressionVisitor)

/-- An evaluation gives exactly some names, each once. -/
def Gives (evaluated : Except ExpansionError (List String)) (keeps : String → Prop) : Prop :=
  ∃ result, evaluated = .ok result ∧ (∀ x, x ∈ result ↔ keeps x) ∧ result.Nodup

/-- The right operand is a list of names. -/
def RightNames (rhs : ASTNode) (right : List String) : Prop :=
  rhs.asRegex = none ∧ visitor.children rhs = .ok right

/-- The right operand is a regex, which stands for the names on which the
search comes out as the flag says. -/
def RightRegex (rhs : ASTNode) (positive : Bool) (search : String → Bool) : Prop :=
  ∃ word, rhs.asRegex = some (word, positive) ∧ visitor.regex word = .ok search

/-- The node gives what its operator says of the results of its operands. -/
def OperatorRight : ASTNode → Prop
  | .union lhs rhs => ∀ left right, visitor.children lhs = .ok left →
      visitor.children rhs = .ok right →
        Gives (visitor.children (.union lhs rhs)) fun x => x ∈ left ∨ x ∈ right
  | .difference lhs rhs => ∀ left, visitor.children lhs = .ok left →
      (∀ right, visitor.RightNames rhs right →
        Gives (visitor.children (.difference lhs rhs)) fun x => x ∈ left ∧ x ∉ right) ∧
      ∀ positive search, visitor.RightRegex rhs positive search →
        Gives (visitor.children (.difference lhs rhs)) fun x =>
          x ∈ left ∧ search x ≠ positive
  | .intersection lhs rhs => ∀ left, visitor.children lhs = .ok left →
      (∀ right, visitor.RightNames rhs right →
        Gives (visitor.children (.intersection lhs rhs)) fun x => x ∈ left ∧ x ∈ right) ∧
      ∀ positive search, visitor.RightRegex rhs positive search →
        Gives (visitor.children (.intersection lhs rhs)) fun x =>
          x ∈ left ∧ search x = positive
  | _ => True

/-- No name is repeated in the operands in a way that reaches the result. -/
def OperandsDistinct : ASTNode → Prop
  | .union lhs rhs => ∀ left right, visitor.children lhs = .ok left →
      visitor.children rhs = .ok right → left.Nodup ∧ right.Nodup
  | .difference lhs rhs => ∀ left, visitor.children lhs = .ok left →
      (∀ right, visitor.RightNames rhs right →
        ∀ x, left.count x ≤ max 1 (right.count x)) ∧
      ∀ positive search, visitor.RightRegex rhs positive search →
        ∀ x, search x ≠ positive → left.count x ≤ 1
  | .intersection lhs rhs => ∀ left, visitor.children lhs = .ok left →
      (∀ right, visitor.RightNames rhs right →
        ∀ x, min (left.count x) (right.count x) ≤ 1) ∧
      ∀ positive search, visitor.RightRegex rhs positive search →
        ∀ x, search x = positive → left.count x ≤ 1
  | _ => True

/-! ## The operators on lists -/

theorem gives_ok_iff (result : List String) (keeps : String → Prop) :
    Gives (.ok result) keeps ↔
      ∀ x, (0 < result.count x ↔ keeps x) ∧ result.count x ≤ 1 := by
  unfold Gives
  constructor
  · rintro ⟨_, ⟨⟩, mem, nodup⟩ x
    exact ⟨List.count_pos_iff.trans (mem x), List.nodup_iff_count_le_one.mp nodup x⟩
  · intro all
    exact ⟨result, rfl, fun x => List.count_pos_iff.symm.trans (all x).1,
      List.nodup_iff_count_le_one.mpr fun x => (all x).2⟩

theorem gives_union_iff (left right : List String) :
    Gives (.ok (union (sorted left) (sorted right))) (fun x => x ∈ left ∨ x ∈ right) ↔
      left.Nodup ∧ right.Nodup := by
  rw [gives_ok_iff, List.nodup_iff_count_le_one, List.nodup_iff_count_le_one, ← forall_and]
  apply forall_congr'
  intro x
  rw [count_union, ← List.count_pos_iff, ← List.count_pos_iff]
  omega

theorem gives_difference_iff (left right : List String) :
    Gives (.ok (difference (sorted left) (sorted right))) (fun x => x ∈ left ∧ x ∉ right) ↔
      ∀ x, left.count x ≤ max 1 (right.count x) := by
  rw [gives_ok_iff]
  apply forall_congr'
  intro x
  rw [count_difference, ← List.count_pos_iff, ← List.count_pos_iff]
  omega

theorem gives_intersection_iff (left right : List String) :
    Gives (.ok (intersection (sorted left) (sorted right))) (fun x => x ∈ left ∧ x ∈ right) ↔
      ∀ x, min (left.count x) (right.count x) ≤ 1 := by
  rw [gives_ok_iff]
  apply forall_congr'
  intro x
  rw [count_intersection, ← List.count_pos_iff, ← List.count_pos_iff]
  omega

theorem gives_filter_iff (keeps : String → Bool) (left : List String) :
    Gives (.ok ((sorted left).filter keeps)) (fun x => x ∈ left ∧ keeps x) ↔
      ∀ x, keeps x → left.count x ≤ 1 := by
  rw [gives_ok_iff]
  apply forall_congr'
  intro x
  rw [← List.count_pos_iff]
  by_cases kept : keeps x
  · rw [List.count_filter kept, count_sorted]
    tauto
  · have dropped : ((sorted left).filter keeps).count x = 0 := by
      rw [List.count_eq_zero, List.mem_filter]
      exact fun member => kept member.2
    rw [dropped]
    simp [kept]

variable {visitor} {lhs rhs : ASTNode} {left right : List String}

theorem regexFilter_eq {word : String} {search : String → Bool}
    (compiles : visitor.regex word = .ok search) (positive : Bool) (names : List String) :
    visitor.regexFilter word positive names =
      .ok (names.filter fun x => search x = positive) := by
  unfold regexFilter
  rw [compiles]
  cases positive with
  | true => simp
  | false => simp

/-! ## The nodes -/

theorem children_union (isLeft : visitor.children lhs = .ok left)
    (isRight : visitor.children rhs = .ok right) :
    visitor.children (.union lhs rhs) = .ok (union (sorted left) (sorted right)) := by
  rw [children, isLeft, isRight]
  rfl

theorem children_difference_names (isLeft : visitor.children lhs = .ok left)
    (isRight : visitor.RightNames rhs right) :
    visitor.children (.difference lhs rhs) =
      .ok (difference (sorted left) (sorted right)) := by
  rw [children, isLeft, isRight.1, isRight.2]
  rfl

theorem children_intersection_names (isLeft : visitor.children lhs = .ok left)
    (isRight : visitor.RightNames rhs right) :
    visitor.children (.intersection lhs rhs) =
      .ok (intersection (sorted left) (sorted right)) := by
  rw [children, isLeft, isRight.1, isRight.2]
  rfl

variable {positive : Bool} {search : String → Bool}

theorem children_difference_regex (isLeft : visitor.children lhs = .ok left)
    (isRegex : visitor.RightRegex rhs positive search) :
    visitor.children (.difference lhs rhs) =
      .ok ((sorted left).filter fun x => search x ≠ positive) := by
  obtain ⟨word, isWord, compiles⟩ := isRegex
  rw [children, isLeft, isWord]
  change visitor.regexFilter word (!positive) (sorted left) = _
  rw [regexFilter_eq compiles]
  simp only [ne_eq, decide_not, Bool.eq_not]

theorem children_intersection_regex (isLeft : visitor.children lhs = .ok left)
    (isRegex : visitor.RightRegex rhs positive search) :
    visitor.children (.intersection lhs rhs) =
      .ok ((sorted left).filter fun x => search x = positive) := by
  obtain ⟨word, isWord, compiles⟩ := isRegex
  rw [children, isLeft, isWord]
  exact regexFilter_eq compiles positive (sorted left)

/-! ## Trees without repeats -/

theorem bind_eq_ok {A B : Type} {first : Except ExpansionError A}
    {next : A → Except ExpansionError B} {result : B}
    (ran : (first >>= next) = .ok result) :
    ∃ middle, first = .ok middle ∧ next middle = .ok result := by
  cases first with
  | error error => cases ran
  | ok middle => exact ⟨middle, rfl, ran⟩

theorem nodup_of_le {names result : List String} (nodup : names.Nodup)
    (fewer : ∀ x, result.count x ≤ names.count x) : result.Nodup := by
  rw [List.nodup_iff_count_le_one] at nodup ⊢
  intro x
  exact Nat.le_trans (fewer x) (nodup x)

theorem count_regexFilter_le {word : String} {names result : List String}
    (filtered : visitor.regexFilter word positive (sorted names) = .ok result) (x : String) :
    result.count x ≤ names.count x := by
  unfold regexFilter at filtered
  split at filtered
  · cases filtered
  · cases filtered
    rw [← count_sorted x names]
    exact List.filter_sublist.count_le x

/-- An operator that keeps some of the left names repeats none by itself. -/
theorem count_difference_le {result : List String} (isLeft : visitor.children lhs = .ok left)
    (evaluates : visitor.children (.difference lhs rhs) = .ok result) (x : String) :
    result.count x ≤ left.count x := by
  rw [children, isLeft] at evaluates
  cases isRegex : rhs.asRegex with
  | some found =>
      rw [isRegex] at evaluates
      exact count_regexFilter_le evaluates x
  | none =>
      rw [isRegex] at evaluates
      obtain ⟨_, ⟨⟩, onward⟩ := bind_eq_ok evaluates
      obtain ⟨right, -, same⟩ := bind_eq_ok onward
      cases same
      rw [count_difference]
      exact Nat.sub_le _ _

theorem count_intersection_le {result : List String}
    (isLeft : visitor.children lhs = .ok left)
    (evaluates : visitor.children (.intersection lhs rhs) = .ok result) (x : String) :
    result.count x ≤ left.count x := by
  rw [children, isLeft] at evaluates
  cases isRegex : rhs.asRegex with
  | some found =>
      rw [isRegex] at evaluates
      exact count_regexFilter_le evaluates x
  | none =>
      rw [isRegex] at evaluates
      obtain ⟨_, ⟨⟩, onward⟩ := bind_eq_ok evaluates
      obtain ⟨right, -, same⟩ := bind_eq_ok onward
      cases same
      rw [count_intersection]
      exact Nat.min_le_left _ _

end ExpressionVisitor

/-- A tree that can repeat a name only below an operator that takes repeats
out: it has no `*`, `:`, braces or calls, and no sequence of words that are
too long for the buffer. -/
inductive ASTNode.Plain : ASTNode → Prop
  | word (text : String) : Plain (.word text)
  | literal (text : String) : Plain (.literal text)
  | regex (text : String) (positive : Bool) : Plain (.regex text positive)
  | null : Plain .null
  | union {lhs rhs : ASTNode} (left : lhs.Plain) (right : rhs.Plain) : Plain (.union lhs rhs)
  | difference {lhs : ASTNode} (left : lhs.Plain) (rhs : ASTNode) :
      Plain (.difference lhs rhs)
  | intersection {lhs : ASTNode} (left : lhs.Plain) (rhs : ASTNode) :
      Plain (.intersection lhs rhs)
  | sequence {lword rword : String} (short : lword.length + rword.length ≤ 1011) :
      Plain (.sequence (.word lword) (.word rword))
  | expand (child : ASTNode) : Plain (.expand child)
  | admin (child : ASTNode) : Plain (.admin child)
  | group {child : ASTNode} (inner : child.Plain) : Plain (.group child)

/-- What an operator takes its result from is plain. -/
def ASTNode.PlainOperands : ASTNode → Prop
  | .union lhs rhs => lhs.Plain ∧ rhs.Plain
  | .difference lhs _ => lhs.Plain
  | .intersection lhs _ => lhs.Plain
  | _ => True

namespace ExpressionVisitor

open RangeExpandingVisitor SortedLists

variable {visitor : ExpressionVisitor}

/-- The names of a plain tree do not repeat. -/
theorem nodup_of_plain {node : ASTNode} {result : List String} (plain : node.Plain)
    (evaluates : visitor.children node = .ok result) : result.Nodup := by
  induction plain generalizing result with
  | word text | literal text | regex text positive =>
      cases evaluates
      exact List.nodup_singleton text
  | null =>
      cases evaluates
      exact List.nodup_nil
  | union _ _ leftIH rightIH =>
      rw [children] at evaluates
      obtain ⟨left, isLeft, evaluates⟩ := bind_eq_ok evaluates
      obtain ⟨right, isRight, same⟩ := bind_eq_ok evaluates
      cases same
      obtain ⟨_, ⟨⟩, -, nodup⟩ :=
        (gives_union_iff left right).mpr ⟨leftIH isLeft, rightIH isRight⟩
      exact nodup
  | difference _ rhs ih =>
      have whole := evaluates
      rw [children] at whole
      obtain ⟨left, isLeft, -⟩ := bind_eq_ok whole
      exact nodup_of_le (ih isLeft) (count_difference_le isLeft evaluates)
  | intersection _ rhs ih =>
      have whole := evaluates
      rw [children] at whole
      obtain ⟨left, isLeft, -⟩ := bind_eq_ok whole
      exact nodup_of_le (ih isLeft) (count_intersection_le isLeft evaluates)
  | sequence short => exact expandSequence_nodup short evaluates
  | expand child =>
      rw [children] at evaluates
      obtain ⟨found, -, evaluates⟩ := bind_eq_ok evaluates
      split at evaluates
      · cases evaluates
        exact nodup_unique_sorted found
      · obtain ⟨names, -, same⟩ := bind_eq_ok evaluates
        cases same
        exact nodup_unique_sorted names
  | admin child =>
      rw [children] at evaluates
      obtain ⟨found, -, evaluates⟩ := bind_eq_ok evaluates
      split at evaluates
      · cases evaluates
      · rename_i admins isAdmins
        cases evaluates
        have nodup := nodup_admins List.nodup_nil isAdmins
        exact (visitor.mapOrder_perm admins).nodup_iff.mpr nodup
  | group _ ih => exact ih evaluates

theorem distinct_of_plain {node : ASTNode} (plain : node.PlainOperands) :
    visitor.OperandsDistinct node := by
  cases node with
  | union lhs rhs =>
      intro left right isLeft isRight
      exact ⟨nodup_of_plain plain.1 isLeft, nodup_of_plain plain.2 isRight⟩
  | difference lhs rhs =>
      intro left isLeft
      have once := List.nodup_iff_count_le_one.mp (nodup_of_plain plain isLeft)
      constructor
      · intro right _ x
        exact Nat.le_trans (once x) (Nat.le_max_left ..)
      · intro positive search _ x _
        exact once x
  | intersection lhs rhs =>
      intro left isLeft
      have once := List.nodup_iff_count_le_one.mp (nodup_of_plain plain isLeft)
      constructor
      · intro right _ x
        exact Nat.le_trans (Nat.min_le_left ..) (once x)
      · intro positive search _ x _
        exact once x
  | _ => trivial

/-- A set operator gives what its name says exactly when no name is repeated
in its operands in a way that reaches the result, and so on all plain
operands. -/
theorem operatorRight_iff (visitor : ExpressionVisitor) (node : ASTNode) :
    (visitor.OperatorRight node ↔ visitor.OperandsDistinct node) ∧
      (node.PlainOperands → visitor.OperandsDistinct node) := by
  refine ⟨?_, distinct_of_plain⟩
  cases node with
  | union lhs rhs =>
      apply forall₄_congr
      intro left right isLeft isRight
      rw [children_union isLeft isRight, gives_union_iff]
  | difference lhs rhs =>
      apply forall₂_congr
      intro left isLeft
      apply and_congr
      · apply forall₂_congr
        intro right isRight
        rw [children_difference_names isLeft isRight, gives_difference_iff]
      · apply forall₃_congr
        intro positive search isRegex
        rw [children_difference_regex isLeft isRegex]
        simpa using gives_filter_iff (fun x => search x ≠ positive) left
  | intersection lhs rhs =>
      apply forall₂_congr
      intro left isLeft
      apply and_congr
      · apply forall₂_congr
        intro right isRight
        rw [children_intersection_names isLeft isRight, gives_intersection_iff]
      · apply forall₃_congr
        intro positive search isRegex
        rw [children_intersection_regex isLeft isRegex]
        simpa using gives_filter_iff (fun x => search x = positive) left
  | _ => exact Iff.rfl

/-- A cluster with two hosts. -/
def twoHosts : List WriteCall :=
  [⟨.createEnv, ["e"], 1⟩, ⟨.addClusterToEnv, ["e", "c"], 2⟩,
    ⟨.addHostToCluster, ["e", "c", "h1"], 3⟩, ⟨.addHostToCluster, ["e", "c", "h2"], 4⟩]

def twoHostsVisitor : ExpressionVisitor where
  graph := (World.empty.calls twoHosts).primary
  prefixText := "e#"
  envName := "e"
  regex _ := .ok fun _ => false
  mapOrder names := names
  mapOrder_perm := List.Perm.refl

/-- `*(h1..h2)` names the cluster of the hosts once for each of them. -/
theorem children_twoHosts :
    twoHostsVisitor.children (.getCluster (.group (.sequence (.word "h1") (.word "h2")))) =
      .ok ["e#c", "e#c"] := by
  decide +kernel

/-- The union with another name keeps both. -/
theorem operator_not_right :
    World.Along World.Returns World.empty twoHosts ∧
      ¬ twoHostsVisitor.OperatorRight
        (.union (.getCluster (.group (.sequence (.word "h1") (.word "h2")))) (.word "x")) := by
  refine ⟨by decide +kernel, fun right => ?_⟩
  have gives := right _ _ children_twoHosts rfl
  rw [children_union children_twoHosts rfl, gives_union_iff] at gives
  exact absurd gives.1 (by decide)

end ExpressionVisitor

end Rangexx
