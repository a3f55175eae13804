import Mathlib.Algebra.BigOperators.Group.List.Basic
import Mathlib.Algebra.Order.Ring.Nat
import Mathlib.Data.List.Nodup
import Mathlib.Logic.Relation

/-!
# Depth-first search with a stack

A search pops a key, skips it if it was visited before, and otherwise visits
it and pushes its successors.  Every key is expanded at most once, so the
number of rounds is bounded by the number of edges, and with that many rounds
the visited keys are exactly the reachable ones.
-/

namespace Worklist

variable {Key : Type} [DecidableEq Key] (next : Key → List Key)

/-- The keys in the order of their first visit. -/
def visits : Nat → List Key → List Key → List Key
  | 0, _, _ => []
  | _ + 1, [], _ => []
  | rounds + 1, key :: stack, visited =>
      if key ∈ visited then visits rounds stack visited
      else key :: visits rounds ((next key).reverse ++ stack) (key :: visited)

/-- What is left on the stack after some rounds. -/
def stackAfter : Nat → List Key → List Key → List Key
  | 0, stack, _ => stack
  | _ + 1, [], _ => []
  | rounds + 1, key :: stack, visited =>
      if key ∈ visited then stackAfter rounds stack visited
      else stackAfter rounds ((next key).reverse ++ stack) (key :: visited)

/-- The number of edges that leave keys not visited yet. -/
def openEdges (nodes visited : List Key) : Nat :=
  ((nodes.filter fun key => key ∉ visited).map fun key => (next key).length).sum

def Reaches : Key → Key → Prop :=
  Relation.ReflTransGen fun key successor => successor ∈ next key

variable {next}

theorem visits_sound {rounds : Nat} {stack visited : List Key} {key : Key}
    (member : key ∈ visits next rounds stack visited) :
    ∃ root ∈ stack, Reaches next root key := by
  induction rounds generalizing stack visited with
  | zero => simp [visits] at member
  | succ rounds ih =>
      cases stack with
      | nil => simp [visits] at member
      | cons head stack =>
          rw [visits] at member
          split at member
          · obtain ⟨root, inStack, reaches⟩ := ih member
            exact ⟨root, by simp [inStack], reaches⟩
          · rcases List.mem_cons.mp member with rfl | later
            · exact ⟨key, by simp, Relation.ReflTransGen.refl⟩
            · obtain ⟨root, inStack, reaches⟩ := ih later
              rcases List.mem_append.mp inStack with pushed | old
              · exact ⟨head, by simp,
                  Relation.ReflTransGen.head (by simpa using pushed) reaches⟩
              · exact ⟨root, by simp [old], reaches⟩

theorem visits_nodup (rounds : Nat) (stack visited : List Key) :
    (visits next rounds stack visited).Nodup ∧
      ∀ key ∈ visits next rounds stack visited, key ∉ visited := by
  induction rounds generalizing stack visited with
  | zero => simp [visits]
  | succ rounds ih =>
      cases stack with
      | nil => simp [visits]
      | cons head stack =>
          rw [visits]
          split
          · exact ih stack visited
          · rename_i fresh
            obtain ⟨nodup, new⟩ := ih ((next head).reverse ++ stack) (head :: visited)
            refine ⟨List.nodup_cons.mpr ⟨fun again => new head again (by simp), nodup⟩, ?_⟩
            intro key member
            rcases List.mem_cons.mp member with rfl | later
            · exact fresh
            · exact fun old => new key later (List.mem_cons_of_mem head old)

theorem openEdges_visit {nodes visited : List Key} {key : Key}
    (nodup : nodes.Nodup) (covered : ∀ key, next key ≠ [] → key ∈ nodes)
    (fresh : key ∉ visited) :
    openEdges next nodes (key :: visited) + (next key).length =
      openEdges next nodes visited := by
  unfold openEdges
  by_cases inNodes : key ∈ nodes
  · have split : (nodes.filter fun other => other ∉ visited).Perm
        (key :: nodes.filter fun other => other ∉ key :: visited) := by
      rw [List.perm_ext_iff_of_nodup (nodup.filter _)
        (List.nodup_cons.mpr ⟨by simp, nodup.filter _⟩)]
      intro other
      by_cases same : other = key
      · simp [same, inNodes, fresh]
      · simp [same]
    rw [(split.map fun key => (next key).length).sum_eq]
    simp [Nat.add_comm]
  · have none : next key = [] := by
      by_contra some
      exact inNodes (covered key some)
    have same : (nodes.filter fun other => other ∉ key :: visited) =
        nodes.filter fun other => other ∉ visited := by
      apply List.filter_congr
      intro other member
      have : other ≠ key := by
        rintro rfl
        exact inNodes member
      simp [this]
    rw [same, none]
    simp

/-- A round for every stacked key and every open edge empties the stack. -/
theorem stackAfter_eq_nil {nodes : List Key} (nodup : nodes.Nodup)
    (covered : ∀ key, next key ≠ [] → key ∈ nodes) {rounds : Nat}
    (stack visited : List Key)
    (enough : stack.length + openEdges next nodes visited ≤ rounds) :
    stackAfter next rounds stack visited = [] := by
  induction rounds generalizing stack visited with
  | zero => exact List.length_eq_zero_iff.mp (Nat.eq_zero_of_add_eq_zero_right
      (Nat.le_zero.mp enough))
  | succ rounds ih =>
      cases stack with
      | nil => rfl
      | cons head stack =>
          rw [stackAfter]
          split
          · refine ih stack visited ?_
            simp only [List.length_cons] at enough
            omega
          · rename_i fresh
            have step := openEdges_visit nodup covered fresh
            refine ih _ _ ?_
            simp only [List.length_cons, List.length_append, List.length_reverse] at enough ⊢
            omega

/-- With a round for every stacked key and every open edge the search leaves
nothing behind. -/
theorem visits_closed {nodes : List Key} (nodup : nodes.Nodup)
    (covered : ∀ key, next key ≠ [] → key ∈ nodes) {rounds : Nat}
    (stack visited : List Key)
    (enough : stack.length + openEdges next nodes visited ≤ rounds) :
    (∀ key ∈ stack, key ∈ visited ∨ key ∈ visits next rounds stack visited) ∧
      ∀ key ∈ visits next rounds stack visited, ∀ successor ∈ next key,
        successor ∈ visited ∨ successor ∈ visits next rounds stack visited := by
  induction rounds generalizing stack visited with
  | zero =>
      have noStack : stack = [] := List.length_eq_zero_iff.mp (by omega)
      simp [noStack, visits]
  | succ rounds ih =>
      cases stack with
      | nil => simp [visits]
      | cons head stack =>
          rw [visits]
          split
          · rename_i old
            have rest := ih stack visited (by
              simp only [List.length_cons] at enough
              omega)
            refine ⟨?_, rest.2⟩
            intro key member
            rcases List.mem_cons.mp member with rfl | inStack
            · exact Or.inl old
            · exact rest.1 key inStack
          · rename_i fresh
            have step := openEdges_visit nodup covered fresh
            have rest := ih ((next head).reverse ++ stack) (head :: visited)
              (by
                simp only [List.length_cons, List.length_append, List.length_reverse] at enough ⊢
                omega)
            have known (key : Key) :
                (key ∈ head :: visited ∨
                  key ∈ visits next rounds ((next head).reverse ++ stack) (head :: visited)) →
                key ∈ visited ∨ key ∈ head ::
                  visits next rounds ((next head).reverse ++ stack) (head :: visited) := by
              simp only [List.mem_cons]
              tauto
            refine ⟨?_, ?_⟩
            · intro key member
              rcases List.mem_cons.mp member with rfl | inStack
              · exact Or.inr (by simp)
              · exact known key (rest.1 key (by simp [inStack]))
            · intro key member successor edge
              rcases List.mem_cons.mp member with rfl | later
              · exact known successor (rest.1 successor (by simp [edge]))
              · exact known successor (rest.2 key later successor edge)

/-- When the visited keys that the root reaches were expanded before, the search
adds exactly the keys reachable from the root. -/
theorem mem_visits_iff {nodes : List Key} (nodup : nodes.Nodup)
    (covered : ∀ key, next key ≠ [] → key ∈ nodes) {rounds : Nat} {root : Key}
    {visited : List Key} (enough : 1 + openEdges next nodes visited ≤ rounds)
    (closed : ∀ key ∈ visited, Reaches next root key →
      ∀ successor ∈ next key, successor ∈ visited) (key : Key) :
    (key ∈ visited ∨ key ∈ visits next rounds [root] visited) ↔
      key ∈ visited ∨ Reaches next root key := by
  have search := visits_closed nodup covered [root] visited enough
  constructor
  · rintro (old | new)
    · exact Or.inl old
    · obtain ⟨start, isRoot, reaches⟩ := visits_sound new
      rw [List.mem_singleton.mp isRoot] at reaches
      exact Or.inr reaches
  · rintro (old | reaches)
    · exact Or.inl old
    · induction reaches with
      | refl => exact search.1 root (by simp)
      | tail reached edge ih =>
          rcases ih with old | new
          · exact Or.inl (closed _ old reached _ edge)
          · exact search.2 _ new _ edge

omit [DecidableEq Key] in
/-- Two successor functions that agree on what one of them reaches reach the
same. -/
theorem reaches_congr {other : Key → List Key} {root : Key}
    (agree : ∀ key, Reaches next root key → ∀ successor,
      successor ∈ other key ↔ successor ∈ next key) (key : Key) :
    Reaches other root key ↔ Reaches next root key := by
  constructor
  · intro reaches
    induction reaches with
    | refl => exact Relation.ReflTransGen.refl
    | tail _ edge ih => exact ih.tail ((agree _ ih _).mp edge)
  · intro reaches
    induction reaches with
    | refl => exact Relation.ReflTransGen.refl
    | tail reached edge ih => exact ih.tail ((agree _ reached _).mpr edge)

theorem openEdges_le (nodes visited : List Key) :
    openEdges next nodes visited ≤ (nodes.map fun key => (next key).length).sum := by
  unfold openEdges
  induction nodes with
  | nil => simp
  | cons key rest ih =>
      by_cases old : key ∈ visited
      · simp only [List.filter_cons, old, not_true_eq_false, decide_false, Bool.false_eq_true,
          if_false, List.map_cons, List.sum_cons]
        omega
      · simp only [List.filter_cons, old, not_false_eq_true, decide_true, if_true,
          List.map_cons, List.sum_cons]
        omega

end Worklist
