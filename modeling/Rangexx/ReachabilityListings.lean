import Rangexx.Listings
import Rangexx.PrimaryGraph

/-!
# Listings of the current version

At the current version `all_clusters` lists the clusters an environment
reaches, and `find_orphaned_nodes` the live nodes no environment reaches.
-/

namespace Rangexx

open StateProgram Worklist

namespace World

open RangeApi

/-! ## Reachable graphs -/

/-- The edges of a reachable graph join live nodes. -/
structure LiveEnds (world : World) : Prop where
  regular : world.Regular
  live : (world.drawing .primary).Obeys fun _ _ _ _ => True

theorem liveEnds_calls (sequence : List WriteCall) : (empty.calls sequence).LiveEnds := by
  refine @Along.calls (fun _ _ => True) LiveEnds empty sequence
    (Along.of_forall (fun _ _ _ => trivial) empty) ⟨empty_regular, obeys_empty⟩ ?_
  intro world call ends _
  exact ⟨ends.regular.run call, ends.regular.obeys ends.live call fun _ _ _ => trivial⟩

/-- The neighbours of a name in the newly opened primary graph. -/
def children (world : World) : String → List String :=
  nextNames world.primary.inst .forward none

namespace LiveEnds

variable {world : World}

theorem edge_of_child (ends : world.LiveEnds) {source target : String}
    (isChild : target ∈ world.children source) : world.Edge .primary source target := by
  left
  have committed := ends.regular.quiet.primary
  unfold children at isChild
  rw [mem_nextNames committed] at isChild
  exact (NodeInfo.mem_getEdges (committed.wf source) .forward none target).mpr isChild

theorem child_inUse (ends : world.LiveEnds) {source target : String}
    (isChild : target ∈ world.children source) :
    ∃ type, world.roster .primary target = some type := by
  obtain ⟨_, type, _, isTarget, _⟩ := ends.live source target (ends.edge_of_child isChild)
  exact ⟨type, isTarget⟩

/-- What a live node reaches is live. -/
theorem reached_inUse (ends : world.LiveEnds) {source target : String}
    (inUse : ∃ type, world.roster .primary source = some type)
    (reaches : Reaches world.children source target) :
    ∃ type, world.roster .primary target = some type := by
  induction reaches with
  | refl => exact inUse
  | tail _ isChild _ => exact ends.child_inUse isChild

end LiveEnds

/-! ## The two listings -/

section Current

variable {world : World}

theorem Quiet.type_of_roster (quiet : world.Quiet) {name : String} {type : NodeType}
    (inUse : world.roster .primary name = some type) :
    world.primary.inst.Live name ∧ (world.primary.inst.readNode name).nodeType = type := by
  have isFound : (GraphDB.ofInstance world.primary.inst).roster name = some type := inUse
  rw [GraphDB.roster_ofInstance quiet.primary, Option.ite_none_right_eq_some] at isFound
  exact ⟨isFound.1, Option.some.inj isFound.2⟩

theorem Quiet.roster_eq_some_iff (quiet : world.Quiet) (name : String) (type : NodeType) :
    world.roster .primary name = some type ↔
      world.primary.inst.Live name ∧ (world.primary.inst.readNode name).nodeType = type := by
  refine ⟨quiet.type_of_roster, ?_⟩
  rintro ⟨live, rfl⟩
  exact GraphDB.roster_eq_some quiet.primary live

/-- The filter of the current version keeps the live nodes. -/
theorem Quiet.mem_versionFilter (quiet : world.Quiet) (name : String) :
    name ∈ versionFilter world.primary.inst world.primary.inst.version ↔
      world.primary.inst.Live name := by
  rw [RangeApi.mem_versionFilter quiet.primary, quiet.primary.version_eq]
  rfl

theorem allClusters_none (env : String) (world : World) :
    (allClusters env none world).1 =
      ((GraphDB.ofInstance world.primary.inst).getNode env).elim
        (.error (.nodeNotFound env)) fun node =>
          .ok (((search world.primary.inst .forward node []).filter fun name =>
            (world.primary.inst.readNode name).nodeType = .cluster).map
              (unprefixNodeName env)) := by
  unfold allClusters
  rw [bind_of_ok (graphdb_none .primary world), Api.getNode, read_bind]
  cases found : (GraphDB.ofInstance world.primary.inst).getNode env with
  | none =>
      have missing : (((world.setGraph .primary (.ofInstance (world.graph .primary).inst)).graph
          .primary).getNode env) = none := found
      rw [missing]
      rfl
  | some node =>
      have isFound : (((world.setGraph .primary (.ofInstance (world.graph .primary).inst)).graph
          .primary).getNode env) = some node := found
      rw [isFound]
      rfl

theorem LiveEnds.allClusters_eq (ends : world.LiveEnds) {env : String} {type : NodeType}
    (inUse : world.roster .primary env = some type) :
    ∃ names : List String,
      (allClusters env none world).1 = .ok (names.map (unprefixNodeName env)) ∧
      names.Nodup ∧ ∀ name, name ∈ names ↔
        world.roster .primary name = some .cluster ∧ Reaches world.children env name := by
  have quiet := ends.regular.quiet
  have live := (quiet.type_of_roster inUse).1
  have found : (GraphDB.ofInstance world.primary.inst).getNode env =
      some (Node.loaded world.primary.inst env) := by
    rw [GraphDB.getNode_ofInstance quiet.primary, if_pos live]
  refine ⟨(search world.primary.inst .forward (Node.loaded world.primary.inst env) []).filter
    fun name => (world.primary.inst.readNode name).nodeType = .cluster, ?_, ?_, ?_⟩
  · rw [allClusters_none, found]
    rfl
  · exact (visits_nodup _ _ _).1.filter _
  · intro name
    have searched := mem_search quiet.primary .forward (Node.loaded world.primary.inst env) []
      (by simp) name
    simp only [List.not_mem_nil, false_or] at searched
    rw [List.mem_filter, decide_eq_true_eq, searched, quiet.roster_eq_some_iff]
    constructor
    · rintro ⟨reaches, isCluster⟩
      obtain ⟨found, isLive⟩ := ends.reached_inUse ⟨type, inUse⟩ reaches
      exact ⟨⟨(quiet.type_of_roster isLive).1, isCluster⟩, reaches⟩
    · rintro ⟨⟨_, isCluster⟩, reaches⟩
      exact ⟨reaches, isCluster⟩

theorem allOfType_none (quiet : world.Quiet) (type : NodeType) :
    ∃ names, allOfType type none world =
        (.ok names, world.setGraph .primary (.ofInstance world.primary.inst)) ∧
      ∀ name, name ∈ names ↔ world.roster .primary name = some type := by
  refine ⟨_, allOfType_apply (graphdb_none .primary world) type, ?_⟩
  intro name
  rw [List.mem_filter, decide_eq_true_eq, quiet.roster_eq_some_iff]
  exact and_congr_left' (quiet.mem_versionFilter name)

theorem Quiet.findOrphanedNodes_none (quiet : world.Quiet) :
    ∃ orphans, (findOrphanedNodes none world).1 = .ok orphans ∧ orphans.Nodup ∧
      ∀ type name, (type, name) ∈ orphans ↔
        ∃ found : NodeType, world.roster .primary name = some found ∧ type = found.name ∧
          world.Orphaned name := by
  have committed := quiet.primary
  have opened : (world.setGraph .primary (.ofInstance (world.graph .primary).inst)).Quiet :=
    ⟨quiet.primary, quiet.dependency, quiet.saved⟩
  obtain ⟨envs, listed, isEnv⟩ := allOfType_none opened .environment
  have found : ∀ env ∈ envs, (GraphDB.ofInstance world.primary.inst).getNode env =
      some (Node.loaded world.primary.inst env) := by
    intro env member
    rw [GraphDB.getNode_ofInstance committed,
      if_pos (quiet.type_of_roster ((isEnv env).mp member)).1]
  obtain ⟨visited, visits, reached⟩ := @visitEnvironments_eq
    (.ofInstance world.primary.inst) committed world.children envs []
    fun env member => ⟨_, found env member, rfl⟩
  have unvisited : ∀ name, name ∉ visited ↔ world.Orphaned name := by
    intro name
    rw [reached _ (by simp)]
    · simp only [List.not_mem_nil, false_or, not_exists, not_and, Orphaned]
      exact forall_congr' fun env => imp_congr (isEnv env) Iff.rfl
    · intro env member node isFound other _ target
      rw [found env member] at isFound
      obtain rfl := Option.some.inj isFound
      exact Iff.rfl
  refine ⟨_, findOrphanedNodes_apply (graphdb_none .primary world) listed visits, ?_, ?_⟩
  · refine List.Nodup.map ?_ (((cursorNames_nodup _).filter _).filter _)
    exact fun name other same => congrArg Prod.snd same
  · intro type name
    simp only [List.mem_map, List.mem_filter, decide_eq_true_eq, unvisited, Prod.mk.injEq]
    constructor
    · rintro ⟨other, ⟨filtered, orphaned⟩, rfl, rfl⟩
      have live := (quiet.mem_versionFilter other).mp filtered
      exact ⟨_, (quiet.roster_eq_some_iff other _).mpr ⟨live, rfl⟩, rfl, orphaned⟩
    · rintro ⟨kind, inUse, rfl, orphaned⟩
      obtain ⟨live, rfl⟩ := quiet.type_of_roster inUse
      exact ⟨name, ⟨(quiet.mem_versionFilter name).mpr live, orphaned⟩, rfl, rfl⟩

end Current

end World

end Rangexx
