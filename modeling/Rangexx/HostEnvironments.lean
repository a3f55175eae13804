import Rangexx.EdgeTypes

/-!
# Hosts belong to one environment

`add_host_to_cluster` compares the names of the clusters a host is already in
with the prefix of the given environment.  Only direct parents are looked at,
so the invariant is about them: the part of the name before the first `#` is
the same for all of them.
-/

namespace Rangexx

open RangeApi

/-- The part of a name before the first `#`. -/
def envPart (name : String) : List Char :=
  name.toList.takeWhile fun char => char ≠ '#'

private theorem takeWhile_append_separator (before after : List Char) :
    (before ++ '#' :: after).takeWhile (fun char => char ≠ '#') =
      before.takeWhile fun char => char ≠ '#' := by
  induction before with
  | nil => simp
  | cons char rest ih =>
      rw [List.cons_append, List.takeWhile_cons, List.takeWhile_cons, ih]

theorem InEnvironment.envPart_eq {env name : String} (within : InEnvironment env name) :
    envPart name = envPart env := by
  obtain ⟨rest, split⟩ := within
  unfold envPart
  rw [← split, String.toList_append, List.append_assoc]
  exact takeWhile_append_separator env.toList rest

theorem envPart_prefixedNodeName {env : String} (named : env ≠ "") (node : String) :
    envPart (prefixedNodeName env node) = envPart env := by
  by_cases isEmpty : node = ""
  · rw [isEmpty, prefixedNodeName_empty]
  · exact (inEnvironment_prefixed named isEmpty).envPart_eq

/-- The call that adds an edge to a host. -/
theorem WriteCall.link_to_host {call : WriteCall} {source host : String} {sourceType : NodeType}
    (isLink : call.link = some ⟨source, sourceType, host, .host⟩) :
    ∃ env parent, call.method = .addHostToCluster ∧ call.args = [env, parent, host] ∧
      env ∈ call.envNames ∧ source = prefixedNodeName env parent := by
  obtain ⟨method, args, id⟩ := call
  unfold link at isLink
  dsimp only at isLink
  split at isLink
  · simp at isLink
  · simp at isLink
  · obtain ⟨rfl, _, rfl, _⟩ := Link.mk.inj (Option.some.inj isLink)
    exact ⟨_, _, rfl, rfl, List.mem_singleton_self _, rfl⟩
  · simp at isLink

namespace World

/-- The clusters a host is in are of one environment. -/
structure HostsAtHome (world : World) : Prop where
  regular : world.Regular
  joined : (world.drawing .primary).Obeys fun _ _ _ _ => True
  together : ∀ host first second, world.roster .primary host = some .host →
    world.Edge .primary first host → world.Edge .primary second host →
    world.roster .primary first = some .cluster → world.roster .primary second = some .cluster →
      envPart first = envPart second

theorem empty_hostsAtHome : empty.HostsAtHome where
  regular := empty_regular
  joined := obeys_empty
  together := by
    intro host first second isHost
    have unused : empty.roster .primary host = none := rfl
    rw [unused] at isHost
    simp at isHost

variable {world : World} {call : WriteCall}

theorem Quiet.live_of_roster (quiet : world.Quiet) {graph : GraphName} {name : String}
    {type : NodeType} (inUse : world.roster graph name = some type) :
    (world.graph graph).inst.Live name ∧
      ((world.graph graph).inst.readNode name).nodeType = type := by
  unfold roster at inUse
  rw [GraphDB.roster_ofInstance (quiet.graph graph)] at inUse
  split at inUse
  · rename_i live
    exact ⟨live, Option.some.inj inUse⟩
  · simp at inUse

/-- A cluster that a host is in already is one the call compares. -/
theorem HostsAtHome.envPart_of_within (atHome : world.HostsAtHome) {env host parent : String}
    (within : world.primary.inst.Live host → ParentsWithin world.primary.inst env host)
    (isHost : world.roster .primary host = some .host)
    (isCluster : world.roster .primary parent = some .cluster)
    (edge : world.Edge .primary parent host) : envPart parent = envPart env := by
  have quiet := atHome.regular.quiet
  have differ : parent ≠ host := by
    rintro rfl
    rw [isHost] at isCluster
    simp at isCluster
  have listed : parent ∈ (world.primary.inst.readNode host).getEdges .reverse none := by
    rcases (quiet.edge_iff .primary parent host).mp edge with forward | reverse
    · have back := atHome.regular.paired parent .forward host differ forward
      exact (NodeInfo.mem_getEdges (quiet.primary.wf host) .reverse none parent).mpr back
    · exact (NodeInfo.mem_getEdges (quiet.primary.wf host) .reverse none parent).mpr reverse
  have inEnv : InEnvironment env parent :=
    within (quiet.live_of_roster isHost).1 parent listed (quiet.live_of_roster isCluster).2
  exact inEnv.envPart_eq

/-- When a call puts a host into a cluster, all clusters of the host are of the
environment it names. -/
theorem HostsAtHome.moved (atHome : world.HostsAtHome) (admitted : call.Admitted world)
    (named : ∀ env ∈ call.envNames, env ≠ "") {after : World}
    (drawn : RosterGraph.Step (call.rosterChange .primary)
      (fun source target => call.effect world .primary = .links source target)
      (world.drawing .primary) (after.drawing .primary)) {source host : String}
    (isHost : after.roster .primary host = some .host)
    (links : call.effect world .primary = .links source host) :
    ∃ env, ∀ parent, after.Edge .primary parent host →
      after.roster .primary parent = some .cluster → envPart parent = envPart env := by
  obtain ⟨sourceType, targetType, isLink⟩ := WriteCall.link_of_effect links
  have isTarget := ((admitted.linkable _ isLink).after (WriteCall.rosterChange_of_link isLink)).2
  have rosterOf : after.roster .primary host = _ := congrFun drawn.roster host
  obtain rfl := Option.some.inj (isTarget.symm.trans (rosterOf.symm.trans isHost))
  obtain ⟨env, given, isMethod, areArgs, member, isSource⟩ := WriteCall.link_to_host isLink
  refine ⟨env, ?_⟩
  intro parent edge isCluster
  rcases drawn.edges parent host edge with old | new
  · obtain ⟨parentBefore, hostBefore⟩ := atHome.joined.kinds_eq drawn edge old
    exact atHome.envPart_of_within (admitted.within env given host isMethod areArgs)
      (hostBefore.trans isHost) (parentBefore.trans isCluster) old
  · obtain ⟨rfl, _⟩ := Effect.links.inj (links.symm.trans new)
    rw [isSource]
    exact envPart_prefixedNodeName (named env member) given

theorem HostsAtHome.run (atHome : world.HostsAtHome)
    (named : ∀ env ∈ call.envNames, env ≠ "") : (call.run world).2.HostsAtHome := by
  refine ⟨atHome.regular.run call, atHome.regular.obeys atHome.joined call fun _ _ _ => trivial,
    ?_⟩
  intro host first second isHost firstEdge secondEdge firstCluster secondCluster
  rcases atHome.regular.drawn call with same | ⟨admitted, drawn⟩
  · obtain ⟨rosters, edges⟩ := RosterGraph.mk.inj same
    rw [rosters] at isHost firstCluster secondCluster
    rw [edges] at firstEdge secondEdge
    exact atHome.together host first second isHost firstEdge secondEdge firstCluster
      secondCluster
  · rcases drawn.edges first host firstEdge with firstOld | firstNew
    · rcases drawn.edges second host secondEdge with secondOld | secondNew
      · obtain ⟨firstBefore, hostBefore⟩ := atHome.joined.kinds_eq drawn firstEdge firstOld
        have secondBefore := (atHome.joined.kinds_eq drawn secondEdge secondOld).1
        exact atHome.together host first second (hostBefore.trans isHost) firstOld secondOld
          (firstBefore.trans firstCluster) (secondBefore.trans secondCluster)
      · obtain ⟨env, all⟩ := atHome.moved admitted named drawn isHost secondNew
        exact (all first firstEdge firstCluster).trans (all second secondEdge secondCluster).symm
    · obtain ⟨env, all⟩ := atHome.moved admitted named drawn isHost firstNew
      exact (all first firstEdge firstCluster).trans (all second secondEdge secondCluster).symm

/-- After any calls with environment names that are not empty, all clusters
that a host is in have the same part before the first `#`. -/
theorem host_environment (sequence : List WriteCall)
    (named : ∀ call ∈ sequence, ∀ env ∈ call.envNames, env ≠ "") (host : String) (node : Node)
    (found : (GraphDB.ofInstance (empty.calls sequence).primary.inst).getNode host = some node)
    (isHost : node.type (empty.calls sequence).primary.inst = .host) (first second : Node)
    (isFirst : first ∈ node.neighbours .reverse (empty.calls sequence).primary.inst)
    (isSecond : second ∈ node.neighbours .reverse (empty.calls sequence).primary.inst)
    (firstCluster : first.type (empty.calls sequence).primary.inst = .cluster)
    (secondCluster : second.type (empty.calls sequence).primary.inst = .cluster) :
    envPart first.name = envPart second.name := by
  have atHome : (empty.calls sequence).HostsAtHome :=
    (Along.of_forall (fun _ => named) empty).calls empty_hostsAtHome
      fun _ _ atHome named => atHome.run named
  generalize empty.calls sequence = world at *
  obtain ⟨live, rfl⟩ := GraphDB.getNode_eq_some atHome.regular.quiet.primary found
  obtain ⟨first, firstMember, rfl⟩ := List.mem_map.mp isFirst
  obtain ⟨second, secondMember, rfl⟩ := List.mem_map.mp isSecond
  have rosterHost : world.roster .primary host = some .host :=
    (GraphDB.roster_eq_some atHome.regular.quiet.primary live).trans (congrArg some isHost)
  have typed : ∀ parent, world.Edge .primary parent host → world.roster .primary parent =
      some (world.primary.inst.readNode parent).nodeType := by
    intro parent edge
    obtain ⟨type, _, isType, _⟩ := atHome.joined parent host edge
    have sameType := (atHome.regular.quiet.live_of_roster isType).2
    exact isType.trans (congrArg some sameType.symm)
  have firstEdge : world.Edge .primary first host := Or.inr firstMember
  have secondEdge : world.Edge .primary second host := Or.inr secondMember
  exact atHome.together host first second rosterHost firstEdge secondEdge
    ((typed first firstEdge).trans (congrArg some firstCluster))
    ((typed second secondEdge).trans (congrArg some secondCluster))

/-- A host in two clusters of an environment. -/
def sharedHost : List WriteCall :=
  [⟨.createEnv, ["e"], 1⟩, ⟨.addClusterToEnv, ["e", "c"], 2⟩, ⟨.addClusterToEnv, ["e", "d"], 3⟩,
    ⟨.addHostToCluster, ["e", "c", "h"], 4⟩, ⟨.addHostToCluster, ["e", "d", "h"], 5⟩]

theorem host_environment_sharedHost :
    ∃ node first second : Node,
      first ∈ node.neighbours .reverse (empty.calls sharedHost).primary.inst ∧
      second ∈ node.neighbours .reverse (empty.calls sharedHost).primary.inst ∧
      first.name = "e#c" ∧ second.name = "e#d" ∧ envPart first.name = envPart second.name := by
  have live : (empty.calls sharedHost).primary.inst.Live "h" := by decide +kernel
  have found : (GraphDB.ofInstance (empty.calls sharedHost).primary.inst).getNode "h" =
      some (Node.loaded (empty.calls sharedHost).primary.inst "h") := by
    rw [GraphDB.getNode_ofInstance (empty_quiet.calls sharedHost).primary, if_pos live]
  have isHost : (Node.loaded (empty.calls sharedHost).primary.inst "h").type
      (empty.calls sharedHost).primary.inst = .host := by
    decide +kernel
  have parents : ∀ parent ∈ ["e#c", "e#d"], Node.createNode parent ∈
      (Node.loaded (empty.calls sharedHost).primary.inst "h").neighbours .reverse
        (empty.calls sharedHost).primary.inst := by
    decide +kernel
  have clusters : ∀ parent ∈ ["e#c", "e#d"], (Node.createNode parent).type
      (empty.calls sharedHost).primary.inst = .cluster := by
    decide +kernel
  have isFirst := parents "e#c" (by simp)
  have isSecond := parents "e#d" (by simp)
  exact ⟨_, _, _, isFirst, isSecond, rfl, rfl, host_environment sharedHost (by decide) "h" _ found
    isHost _ _ isFirst isSecond (clusters "e#c" (by simp)) (clusters "e#d" (by simp))⟩

end World

end Rangexx
