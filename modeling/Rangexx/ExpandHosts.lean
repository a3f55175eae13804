import Rangexx.ExpandUnfolding
import Rangexx.ReachabilityListings

/-!
# The function `expand_hosts`

`expand_hosts` expands its argument and collects the hosts in the nested
object.  They are the hosts that the argument reaches.
-/

namespace Rangexx

open StateProgram Worklist PathUnfolding

/-- Whether an error is one of the exceptions of the source; what is undefined
there is not caught. -/
def ApiError.isException : ApiError → Bool
  | .outOfBounds => false
  | .nullPointer => false
  | .database .outOfBounds => false
  | _ => true

namespace RangeApi

open Api

mutual

/-- `ExpandHostsVisitor`. -/
def visitHosts : Expansion → List String
  | .node object children =>
      if object.type = NodeType.host.name then [object.name] else visitHostsOf children

def visitHostsOf : List (String × Expansion) → List String
  | [] => []
  | (_, child) :: rest => visitHosts child ++ visitHostsOf rest

end

/-- The loop of `ExpandHostsFn`, for so many rounds of each expansion. -/
def expandHosts (rounds : Nat) (envName : String) : List String → Api (Option (List String))
  | [] => return some []
  | elem :: rest => do
      match ← attempt (expand rounds envName elem none none) with
      | .error error =>
          if error.isException then expandHosts rounds envName rest
          else StateProgram.raise error
      | .ok none => return none
      | .ok (some top) =>
          let later ← expandHosts rounds envName rest
          return later.map fun hosts => top.elim [] visitHosts ++ hosts

/-- `ExpandHostsFn`. -/
def expandHostsFn (rounds : Nat) (envName : String) :
    List (List String) → Api (Option (List String))
  | [elems] => expandHosts rounds envName elems
  | _ => return some []

/-! ## What the visitor collects -/

theorem host_of_name {type : NodeType} (isHost : type.name = NodeType.host.name) :
    type = .host := by
  cases type <;> first | rfl | exact absurd isHost (by decide)

theorem visitHosts_node (object : NodeObject) (children : List (String × Expansion)) :
    visitHosts (.node object children) =
      if object.type = NodeType.host.name then [object.name]
      else children.flatMap fun child => visitHosts child.2 := by
  have each : visitHostsOf children = children.flatMap fun child => visitHosts child.2 := by
    induction children with
    | nil => rfl
    | cons child rest ih =>
        rw [visitHostsOf, ih]
        rfl
  rw [visitHosts, each]

/-- Where hosts have no children the visitor reads every object. -/
theorem mem_visitHosts_unfolding {next : String → List String} {object : String → NodeObject}
    (hostEnds : ∀ name, (object name).type = NodeType.host.name → next name = [])
    (levels : Nat) (path : List String) (root name : String) :
    name ∈ visitHosts (unfolding next object levels path root) ↔
      ∃ key value, (key, value) ∈ (unfolding next object levels path root).labels root ∧
        value.type = NodeType.host.name ∧ name = value.name := by
  induction levels generalizing path root with
  | zero =>
      rw [unfolding, visitHosts_node, Tree.labels_node]
      by_cases isHost : (object root).type = NodeType.host.name
      · simp [isHost]
      · simp only [isHost, if_false, List.flatMap_nil, List.not_mem_nil, List.mem_singleton,
          Prod.mk.injEq, false_iff, not_exists, not_and]
        rintro key value ⟨-, rfl⟩ valueIsHost
        exact absurd valueIsHost isHost
  | succ levels ih =>
      rw [unfolding, visitHosts_node, Tree.labels_node]
      by_cases isHost : (object root).type = NodeType.host.name
      · simp [isHost, hostEnds root isHost]
      · rw [if_neg isHost]
        simp only [List.mem_flatMap, List.mem_map, List.mem_filter, decide_eq_true_eq,
          List.mem_cons, Prod.mk.injEq]
        constructor
        · rintro ⟨_, ⟨child, ⟨edge, fresh⟩, rfl⟩, shown⟩
          obtain ⟨key, value, isLabel, valueIsHost, isName⟩ := (ih (root :: path) child).mp shown
          exact ⟨key, value, Or.inr ⟨_, ⟨child, ⟨edge, fresh⟩, rfl⟩, isLabel⟩, valueIsHost, isName⟩
        · rintro ⟨key, value, ⟨rfl, rfl⟩ | ⟨_, ⟨child, ⟨edge, fresh⟩, rfl⟩, isLabel⟩, valueIsHost,
            isName⟩
          · exact absurd valueIsHost isHost
          · exact ⟨_, ⟨child, ⟨edge, fresh⟩, rfl⟩,
              (ih (root :: path) child).mpr ⟨key, value, isLabel, valueIsHost, isName⟩⟩

theorem expandHostsFn_single {rounds : Nat} {envName elem : String} {world : World}
    {tree : Expansion}
    (expands : (expand rounds envName elem none none world).1 = .ok (some (some tree))) :
    (expandHostsFn rounds envName [[elem]] world).1 = .ok (some (visitHosts tree)) := by
  have attempted : attempt (expand rounds envName elem none none) world =
      (.ok (.ok (some (some tree))), (expand rounds envName elem none none world).2) := by
    unfold attempt
    rw [expands]
  change (expandHosts rounds envName [elem] world).1 = _
  rw [expandHosts, bind_of_ok attempted]
  change Except.ok (some (visitHosts tree ++ [])) = _
  rw [List.append_nil]

end RangeApi

namespace World

open RangeApi

/-! ## Reachable hosts -/

/-- Only environments and clusters have edges of their own. -/
theorem edges_from_groups (sequence : List WriteCall) :
    ((empty.calls sequence).drawing .primary).Obeys fun _ sourceType _ _ =>
      sourceType = .cluster ∨ sourceType = .environment := by
  have kept : (empty.calls sequence).Regular ∧
      ((empty.calls sequence).drawing .primary).Obeys fun _ sourceType _ _ =>
        sourceType = .cluster ∨ sourceType = .environment := by
    refine @Along.calls (fun _ _ => True)
      (fun world => world.Regular ∧ (world.drawing .primary).Obeys fun _ sourceType _ _ =>
        sourceType = .cluster ∨ sourceType = .environment) empty sequence
      (Along.of_forall (fun _ _ _ => trivial) empty) ⟨empty_regular, obeys_empty⟩ ?_
    rintro world call ⟨regular, obeys⟩ _
    refine ⟨regular.run call, regular.obeys obeys call ?_⟩
    rintro link isLink -
    unfold WriteCall.link at isLink
    split at isLink
    · obtain rfl := Option.some.inj isLink
      exact Or.inr rfl
    · obtain rfl := Option.some.inj isLink
      exact Or.inl rfl
    · obtain rfl := Option.some.inj isLink
      exact Or.inl rfl
    · simp at isLink
  exact kept.2

/-- So the edges of clusters and environments are all there are. -/
theorem frameEdges_eq_children (sequence : List WriteCall) :
    frameEdges (empty.calls sequence).primary.inst none = (empty.calls sequence).children := by
  funext name
  unfold frameEdges
  split
  · rfl
  · rename_i notGroup
    symm
    rw [List.eq_nil_iff_forall_not_mem]
    intro target isChild
    have ends := liveEnds_calls sequence
    obtain ⟨sourceType, _, isSource, _, isGroup⟩ :=
      edges_from_groups sequence name target (ends.edge_of_child isChild)
    rw [← (ends.regular.quiet.type_of_roster isSource).2] at isGroup
    exact notGroup isGroup

/-- A call at the current version starts from the node its arguments resolve
to. -/
theorem Quiet.starts {world : World} (quiet : world.Quiet) {envName elem group : String}
    {type : NodeType}
    (chosen : resolve (world.roster .primary) envName elem = .ok (some group))
    (inUse : world.roster .primary group = some type) :
    Starts world none envName elem (atCurrent .primary world)
      (Node.loaded world.primary.inst group) := by
  refine ⟨quiet, rfl, ?_⟩
  rw [getNode_apply]
  change fetch _ (resolve (world.roster .primary) envName elem) = _
  rw [chosen]
  change Except.ok ((GraphDB.ofInstance world.primary.inst).getNode group) = _
  rw [GraphDB.getNode_ofInstance quiet.primary, if_pos (quiet.type_of_roster inUse).1]

/-- The hosts in an unfolding with enough levels are those in reach. -/
theorem LiveEnds.mem_visitHosts_iff {world : World} (ends : world.LiveEnds)
    (sameEdges : frameEdges world.primary.inst none = world.children) {envName group : String}
    {type : NodeType} (inUse : world.roster .primary group = some type) {levels : Nat}
    (enough : (GraphDB.cursorNames world.primary.inst).length ≤ levels) (start : Node)
    (both : World) (name : String) :
    name ∈ visitHosts (unfolding (frameEdges world.primary.inst none)
        (expandedObject (atCurrent .primary world) both envName start) levels [] group) ↔
      ∃ host, world.roster .primary host = some .host ∧ Reaches world.children group host ∧
        name = unprefixNodeName envName host := by
  have quiet := ends.regular.quiet
  have covered := mem_cursorNames_of_frameEdges quiet.primary none
  rw [mem_visitHosts_unfolding]
  · simp only [mem_labels_unfolding, exists_simpleSteps_iff_reaches covered enough]
    rw [sameEdges]
    constructor
    · rintro ⟨host, value, ⟨rfl, reaches⟩, isHost, rfl⟩
      obtain ⟨hostType, hostInUse⟩ := ends.reached_inUse ⟨type, inUse⟩ reaches
      refine ⟨host, ?_, reaches, rfl⟩
      rw [quiet.roster_eq_some_iff]
      exact ⟨(quiet.type_of_roster hostInUse).1, host_of_name isHost⟩
    · rintro ⟨host, isHost, reaches, rfl⟩
      refine ⟨host, expandedObject (atCurrent .primary world) both envName start host,
        ⟨rfl, reaches⟩, ?_, rfl⟩
      exact congrArg NodeType.name (quiet.type_of_roster isHost).2
  · intro host isHost
    have hostType : (world.primary.inst.readNode host).nodeType = .host := host_of_name isHost
    unfold frameEdges
    rw [hostType]
    rfl

/-- `expand_hosts` returns the hosts that its argument reaches, each without the
prefix of the environment. -/
theorem expand_hosts_reachable (sequence : List WriteCall) (envName elem group : String)
    (chosen : resolve ((empty.calls sequence).roster .primary) envName elem = .ok (some group))
    (isGroup : (empty.calls sequence).roster .primary group = some .cluster ∨
      (empty.calls sequence).roster .primary group = some .environment) :
    ∃ rounds names, (∀ more, (expandHostsFn (rounds + more) envName [[elem]]
        (empty.calls sequence)).1 = .ok (some names)) ∧
      ∀ name, name ∈ names ↔ ∃ host,
        (empty.calls sequence).roster .primary host = some .host ∧
        Reaches (empty.calls sequence).children group host ∧
        name = unprefixNodeName envName host := by
  have ends := liveEnds_calls sequence
  have quiet := ends.regular.quiet
  obtain ⟨type, inUse⟩ : ∃ type, (empty.calls sequence).roster .primary group = some type :=
    isGroup.elim (fun found => ⟨_, found⟩) (fun found => ⟨_, found⟩)
  obtain ⟨rounds, runs⟩ := @expand_eq _ _ (atCurrent .dependency
    (atCurrent .primary (empty.calls sequence))) none none _ _ _ (quiet.starts chosen inUse) rfl _
    (Enough.root (Nat.le_refl _))
  refine ⟨rounds, _, fun more => expandHostsFn_single (runs more), fun name => ?_⟩
  exact ends.mem_visitHosts_iff (frameEdges_eq_children sequence) inUse (Nat.le_refl _) _ _ name

/-- A host whose name starts like the clusters of the environment. -/
def hostNamedAsCluster : List WriteCall :=
  [⟨.createEnv, ["e"], 1⟩, ⟨.addClusterToEnv, ["e", "c"], 2⟩,
    ⟨.addHostToCluster, ["e", "c", "e#h"], 3⟩]

theorem expand_hosts_reachable_hostNamedAsCluster :
    ∃ rounds names, (∀ more, (expandHostsFn (rounds + more) "e" [["c"]]
        (empty.calls hostNamedAsCluster)).1 = .ok (some names)) ∧
      ∀ name, name ∈ names ↔ ∃ host,
        (empty.calls hostNamedAsCluster).roster .primary host = some .host ∧
        Reaches (empty.calls hostNamedAsCluster).children "e#c" host ∧
        name = unprefixNodeName "e" host :=
  expand_hosts_reachable hostNamedAsCluster "e" "c" "e#c" (by decide +kernel)
    (by decide +kernel)

/-- The host is listed under another name than its own. -/
theorem expand_hosts_hostNamedAsCluster :
    (empty.calls hostNamedAsCluster).roster .primary "e#h" = some .host ∧
      Reaches (empty.calls hostNamedAsCluster).children "e#c" "e#h" ∧
      (empty.calls hostNamedAsCluster).roster .primary "h" = none ∧
      (expandHostsFn 60 "e" [["c"]] (empty.calls hostNamedAsCluster)).1 = .ok (some ["h"]) := by
  refine ⟨by decide +kernel, Relation.ReflTransGen.single ?_, by decide +kernel,
    by decide +kernel⟩
  decide +kernel

end World

end Rangexx
