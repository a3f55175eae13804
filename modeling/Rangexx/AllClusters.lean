import Rangexx.ExpandHosts

/-!
# The clusters of all environments

`AllClustersFn` puts together what `all_clusters` lists for each environment
that `all_environments` finds.
-/

namespace Rangexx

open StateProgram Worklist

namespace RangeApi

/-- The name with its environment that `AllClustersFn` gives a cluster. -/
def qualified (env cluster : String) : String :=
  env ++ "#" ++ cluster

/-- The second loop of `AllClustersFn`. -/
def clustersOf : List String → Api (List String)
  | [] => return []
  | env :: rest => do
      match ← attempt (allClusters env none) with
      | .error error => if error.isException then clustersOf rest else StateProgram.raise error
      | .ok clusters =>
          let later ← clustersOf rest
          return clusters.map (qualified env) ++ later

/-- `AllClustersFn`. -/
def allClustersFn : List (List String) → Api (List String)
  | [] => do
      match ← attempt (allEnvironments none) with
      | .error error => if error.isException then return [] else StateProgram.raise error
      | .ok envs => clustersOf envs
  | _ :: _ => return []

end RangeApi

namespace World

open RangeApi

variable {world : World}

theorem allClusters_after (env : String) (world : World) :
    (allClusters env none world).2 =
      world.setGraph .primary (.ofInstance world.primary.inst) := by
  unfold allClusters
  rw [bind_of_ok (graphdb_none .primary world), Api.getNode, read_bind]
  cases ((world.setGraph .primary (.ofInstance (world.graph .primary).inst)).graph
      .primary).getNode env with
  | none => rfl
  | some node => rfl

/-- Each listing leaves the graph that the next one reads. -/
theorem LiveEnds.clustersOf_eq (ends : world.LiveEnds) {envs : List String}
    (inUse : ∀ env ∈ envs, world.roster .primary env = some .environment) {reached : World}
    (same : reached.primary.inst = world.primary.inst) :
    ∃ listed, (clustersOf envs reached).1 = .ok listed ∧ ∀ name, name ∈ listed ↔
      ∃ env ∈ envs, ∃ cluster, world.roster .primary cluster = some .cluster ∧
        Reaches world.children env cluster ∧ name = qualified env (unprefixNodeName env cluster) := by
  induction envs generalizing reached with
  | nil => exact ⟨[], rfl, fun name => by simp⟩
  | cons env rest ih =>
      obtain ⟨clusters, lists, -, isCluster⟩ := ends.allClusters_eq (inUse env List.mem_cons_self)
      have listsHere : (allClusters env none reached).1 =
          .ok (clusters.map (unprefixNodeName env)) := by
        rw [allClusters_none, same, ← allClusters_none]
        exact lists
      have attempted : attempt (allClusters env none) reached =
          (.ok (.ok (clusters.map (unprefixNodeName env))),
            reached.setGraph .primary (.ofInstance reached.primary.inst)) := by
        unfold attempt
        rw [listsHere, allClusters_after]
      obtain ⟨later, laterLists, isLater⟩ := @ih
        (fun other member => inUse other (List.mem_cons_of_mem env member))
        (reached.setGraph .primary (.ofInstance reached.primary.inst)) same
      refine ⟨(clusters.map (unprefixNodeName env)).map (qualified env) ++ later, ?_, ?_⟩
      · rw [clustersOf, bind_of_ok attempted]
        dsimp only
        rw [bind_of_ok (Prod.ext laterLists rfl)]
        rfl
      · intro name
        rw [List.mem_append, isLater, List.exists_mem_cons_iff]
        refine or_congr_left ?_
        simp only [List.mem_map, exists_exists_and_eq_and, isCluster]
        constructor
        · rintro ⟨cluster, ⟨isUsed, reaches⟩, rfl⟩
          exact ⟨cluster, isUsed, reaches, rfl⟩
        · rintro ⟨cluster, isUsed, reaches, rfl⟩
          exact ⟨cluster, ⟨isUsed, reaches⟩, rfl⟩

end World

end Rangexx
