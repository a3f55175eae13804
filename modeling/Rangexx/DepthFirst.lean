import Rangexx.Worklist

/-!
# Depth-first search for a key with a value

A search with a stack that stops at the first key that has a value.  It is led
there through keys without one, and it comes back empty-handed only when no
reachable key has one.
-/

namespace DepthFirst

open Worklist

variable {Key Value : Type} [DecidableEq Key] (next : Key → List Key) (found : Key → Option Value)

/-- The first key popped from a stack that has a value. -/
def firstFound : Nat → List Key → List Key → Option (Key × Value)
  | 0, _, _ => none
  | _ + 1, [], _ => none
  | rounds + 1, key :: stack, visited =>
      if key ∈ visited then firstFound rounds stack visited
      else
        match found key with
        | some value => some (key, value)
        | none => firstFound rounds ((next key).reverse ++ stack) (key :: visited)

/-- A path on which no key but the last has to have a value. -/
def LeadsTo : Key → Key → Prop :=
  Relation.ReflTransGen fun key successor => found key = none ∧ successor ∈ next key

variable {next found}

omit [DecidableEq Key] in
theorem LeadsTo.reaches {root key : Key} (leads : LeadsTo next found root key) :
    Reaches next root key := by
  induction leads with
  | refl => exact Relation.ReflTransGen.refl
  | tail _ edge ih => exact ih.tail edge.2

/-- The search goes through the keys in the order of the search that visits all. -/
theorem firstFound_eq (rounds : Nat) (stack visited : List Key) :
    firstFound next found rounds stack visited =
      (visits next rounds stack visited).findSome? fun key =>
        (found key).map fun value => (key, value) := by
  induction rounds generalizing stack visited with
  | zero => rfl
  | succ rounds ih =>
      cases stack with
      | nil => rfl
      | cons key stack =>
          rw [firstFound, visits]
          by_cases old : key ∈ visited
          · rw [if_pos old, if_pos old]
            exact ih stack visited
          · rw [if_neg old, if_neg old, List.findSome?_cons]
            cases value : found key with
            | some result => rfl
            | none => exact ih ((next key).reverse ++ stack) (key :: visited)

theorem firstFound_leads {rounds : Nat} {stack visited : List Key} {key : Key} {value : Value}
    (isFirst : firstFound next found rounds stack visited = some (key, value)) :
    found key = some value ∧ ∃ root ∈ stack, LeadsTo next found root key := by
  induction rounds generalizing stack visited with
  | zero => cases isFirst
  | succ rounds ih =>
      cases stack with
      | nil => cases isFirst
      | cons head stack =>
          rw [firstFound] at isFirst
          by_cases old : head ∈ visited
          · rw [if_pos old] at isFirst
            obtain ⟨has, root, inStack, leads⟩ := ih isFirst
            exact ⟨has, root, List.mem_cons_of_mem head inStack, leads⟩
          · rw [if_neg old] at isFirst
            cases has : found head with
            | some result =>
                rw [has] at isFirst
                cases isFirst
                exact ⟨has, key, List.mem_cons_self, Relation.ReflTransGen.refl⟩
            | none =>
                rw [has] at isFirst
                obtain ⟨hasLater, root, inStack, leads⟩ := ih isFirst
                refine ⟨hasLater, ?_⟩
                rcases List.mem_append.mp inStack with pushed | below
                · have edge : root ∈ next head := List.mem_reverse.mp pushed
                  exact ⟨head, List.mem_cons_self,
                    Relation.ReflTransGen.head ⟨has, edge⟩ leads⟩
                · exact ⟨root, List.mem_cons_of_mem head below, leads⟩

/-- With enough rounds the search finds nothing exactly when no key that the
root reaches has a value. -/
theorem firstFound_eq_none_iff {nodes : List Key} (nodup : nodes.Nodup)
    (covered : ∀ key, next key ≠ [] → key ∈ nodes) {rounds : Nat} {root : Key}
    (enough : 1 + openEdges next nodes [] ≤ rounds) :
    firstFound next found rounds [root] [] = none ↔
      ∀ key, Reaches next root key → found key = none := by
  have visited (key : Key) : key ∈ visits next rounds [root] [] ↔ Reaches next root key := by
    have all := @mem_visits_iff _ _ next nodes nodup covered rounds root [] enough
      (List.forall_mem_nil _) key
    simpa using all
  rw [firstFound_eq, List.findSome?_eq_none_iff]
  simp only [visited, Option.map_eq_none_iff]

end DepthFirst
