import Mathlib.Algebra.Order.BigOperators.Group.List
import Mathlib.Algebra.Order.Ring.Nat
import Rangexx.DraftGraph
import Rangexx.ReadApi

/-!
# Searches of a graph

The depth-first searches of the read API visit exactly the names that can be
reached along the edges they follow: the number of rounds that `searchRounds`
allows is enough for every search.
-/

namespace Rangexx

open Worklist

namespace RangeApi

theorem cursorNames_nodup (inst : GraphInstance) : (GraphDB.cursorNames inst).Nodup := by
  unfold GraphDB.cursorNames
  refine List.Nodup.filterMap ?_ inst.records.keys_nodup
  intro key other name isKey isOther
  rw [Option.mem_def, Option.ite_none_right_eq_some] at isKey isOther
  apply Prod.ext (isKey.1.trans isOther.1.symm)
  exact Option.some.inj (isKey.2.trans isOther.2.symm)

theorem length_nextNames (inst : GraphInstance) (direction : Direction) (wanted : Option Nat)
    (name : String) :
    (nextNames inst direction wanted name).length ≤
      ((inst.readNode name).edges direction).length := by
  unfold nextNames Node.neighbours NodeInfo.getEdges
  simp only [List.length_map]
  exact List.length_filter_le _ _

theorem mem_nextNames {inst : GraphInstance} (committed : Committed inst) (direction : Direction)
    (wanted : Option Nat) (name target : String) :
    target ∈ nextNames inst direction wanted name ↔
      EdgeAt ((inst.readNode name).edges direction)
        ((inst.readNode name).cmpVersion wanted) target :=
  @Node.mem_neighbours ⟨name, wanted, none⟩ inst (committed.wf name) direction target

theorem mem_cursorNames_of_nextNames {inst : GraphInstance} (committed : Committed inst)
    (direction : Direction) (wanted : Option Nat) (name : String)
    (edges : nextNames inst direction wanted name ≠ []) : name ∈ GraphDB.cursorNames inst := by
  rw [GraphDB.mem_cursorNames]
  cases found : inst.records.lookup (.node, name) with
  | none =>
      have nothing : inst.readNode name = NodeInfo.default := by
        rw [committed.readNode_eq, found]
        rfl
      have bound := length_nextNames inst direction wanted name
      rw [nothing] at bound
      refine absurd (List.length_eq_zero_iff.mp (Nat.le_zero.mp (bound.trans ?_))) edges
      cases direction <;> exact Nat.le_refl 0
  | some record => rfl

theorem openEdges_le_searchRounds (inst : GraphInstance) (direction : Direction)
    (wanted : Option Nat) (visited : List String) :
    1 + openEdges (nextNames inst direction wanted) (GraphDB.cursorNames inst) visited ≤
      searchRounds inst direction := by
  unfold searchRounds
  refine Nat.add_le_add_left ((openEdges_le _ _).trans ?_) 1
  exact List.sum_le_sum fun name _ => length_nextNames inst direction wanted name

/-- A search ends within its rounds. -/
theorem search_ends {inst : GraphInstance} (committed : Committed inst) (direction : Direction)
    (wanted : Option Nat) (name : String) (visited : List String) :
    stackAfter (nextNames inst direction wanted) (searchRounds inst direction) [name] visited =
      [] :=
  stackAfter_eq_nil (cursorNames_nodup inst)
    (mem_cursorNames_of_nextNames committed direction wanted) [name] visited
    (openEdges_le_searchRounds inst direction wanted visited)

/-- A search visits what its node reaches. -/
theorem mem_search {inst : GraphInstance} (committed : Committed inst) (direction : Direction)
    (node : Node) (visited : List String)
    (closed : ∀ name ∈ visited,
      Reaches (nextNames inst direction node.wantedVersion) node.name name →
      ∀ target ∈ nextNames inst direction node.wantedVersion name, target ∈ visited)
    (name : String) :
    (name ∈ visited ∨ name ∈ search inst direction node visited) ↔
      name ∈ visited ∨ Reaches (nextNames inst direction node.wantedVersion) node.name name := by
  exact mem_visits_iff (cursorNames_nodup inst)
    (mem_cursorNames_of_nextNames committed direction node.wantedVersion)
    (openEdges_le_searchRounds inst direction node.wantedVersion visited) closed name

end RangeApi

end Rangexx
