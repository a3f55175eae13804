import Rangexx.CallRuns

/-!
# Contracts of the write calls

Three properties of the store over all sequences of calls: when a call that
throws leaves everything as it was, when the two graphs have the same live
nodes, and when every edge is known at both of its ends.
-/

namespace Rangexx

open StateProgram

theorem SameView.refl (node : Node) (inst : GraphInstance) : SameView node inst node inst :=
  ⟨fun _ _ => Iff.rfl, fun _ => rfl⟩

namespace World

/-- Nothing that can be read from the store differs. -/
structure Unchanged (world after : World) : Prop where
  roster : ∀ graph, after.roster graph = world.roster graph
  view : ∀ graph name node,
    (GraphDB.ofInstance (after.graph graph).inst).getNode name = some node →
    ∃ earlier, (GraphDB.ofInstance (world.graph graph).inst).getNode name = some earlier ∧
      SameView node (after.graph graph).inst earlier (world.graph graph).inst
  version : ∀ graph, (after.graph graph).inst.version = (world.graph graph).inst.version
  rangeChanges : after.rangeChanges = world.rangeChanges
  txlog : after.txlog = world.txlog

theorem Unchanged.of_tables {world after : World} (same : after.tables = world.tables) :
    world.Unchanged after := by
  have graphs := inst_of_tables same
  refine ⟨?_, ?_, ?_, congrArg Tables.rangeChanges same, congrArg Tables.txlog same⟩
  · intro graph
    rw [World.roster, graphs]
    rfl
  · intro graph name node found
    rw [graphs] at found ⊢
    exact ⟨node, found, SameView.refl _ _⟩
  · intro graph
    rw [graphs]

/-! ## Atomicity -/

/-- A call that throws, made in any state the store can reach, leaves
everything as it was exactly when its change does not reach the primary graph
alone. -/
theorem thrown_unchanged_iff (sequence : List WriteCall) (call : WriteCall) {error : ApiError}
    {after : World} (thrown : call.run (empty.calls sequence) = (.error error, after)) :
    (empty.calls sequence).Unchanged after ↔ ¬ call.HalfApplied (empty.calls sequence) := by
  have quiet := empty_quiet.calls sequence
  rcases WriteCall.run_error quiet thrown with ⟨whole, same, _⟩ | ⟨half, step⟩
  · exact ⟨fun _ => whole, fun _ => Unchanged.of_tables same⟩
  · refine ⟨fun unchanged => ?_, fun whole => absurd half whole⟩
    have version := unchanged.version .primary
    rw [show (after.graph .primary).inst.version = _ from step.primary.committed.version_eq,
      (quiet.graph .primary).version_eq] at version
    have advanced := step.advanced
    change after.primary.inst.changelist.currentVersion =
      (empty.calls sequence).primary.inst.changelist.currentVersion at version
    omega

/-- A host was added and removed. -/
def hostGone : List WriteCall :=
  [⟨.addHost, ["h"], 1⟩, ⟨.removeHost, ["", "h"], 2⟩]

theorem thrown_unchanged_iff_missingCluster :
    ((⟨.removeCluster, ["e", "c"], 3⟩ : WriteCall).run (empty.calls hostGone)).1 =
        .error (.nodeNotFound "e#c") ∧
      (empty.calls hostGone).Unchanged
        ((⟨.removeCluster, ["e", "c"], 3⟩ : WriteCall).run (empty.calls hostGone)).2 := by
  have thrown : ((⟨.removeCluster, ["e", "c"], 3⟩ : WriteCall).run (empty.calls hostGone)).1 =
      .error (.nodeNotFound "e#c") := by
    decide +kernel
  exact ⟨thrown, (thrown_unchanged_iff hostGone _ (Prod.ext thrown rfl)).mpr not_false⟩

/-- Adding the host again throws, after it was added to the primary graph. -/
theorem thrown_changed_hostGone :
    ((⟨.addHost, ["h"], 3⟩ : WriteCall).run (empty.calls hostGone)).1 =
        .error (.nodeExists "h") ∧
      ¬ (empty.calls hostGone).Unchanged
        ((⟨.addHost, ["h"], 3⟩ : WriteCall).run (empty.calls hostGone)).2 := by
  constructor
  · decide +kernel
  · intro unchanged
    have version := unchanged.version .primary
    revert version
    decide +kernel

/-! ## The two graphs -/

/-- The same nodes are live in both graphs, with the same types. -/
def Agree (world : World) : Prop :=
  world.roster .primary = world.roster .dependency

/-- The call hands an object of the primary graph to the dependency graph. -/
def RemovesByObject (call : WriteCall) : Prop :=
  call.method = .removeCluster ∨ call.method = .removeHost

theorem rosterChange_eq {call : WriteCall} (allowed : ¬ RemovesByObject call) :
    call.rosterChange .primary = call.rosterChange .dependency := by
  obtain ⟨method, args, id⟩ := call
  unfold WriteCall.rosterChange
  dsimp only
  split
  case h_7 => exact absurd (Or.inl rfl) allowed
  case h_8 => exact absurd (Or.inr rfl) allowed
  all_goals rfl

theorem Agree.run {world : World} (quiet : world.Quiet) (agree : world.Agree)
    {call : WriteCall} (returns : world.Returns call) (allowed : ¬ RemovesByObject call) :
    (call.run world).2.Agree := by
  unfold Returns at returns
  cases outcome : call.run world with
  | mk result after =>
      rw [outcome] at returns
      cases result with
      | error error => simp [failed] at returns
      | ok value =>
          have step := WriteCall.run_ok quiet outcome
          have primary : after.roster .primary = _ := (step.graphs .primary).roster
          have dependency : after.roster .dependency = _ := (step.graphs .dependency).roster
          change after.roster .primary = after.roster .dependency
          rw [primary, dependency, rosterChange_eq allowed]
          exact congrArg _ agree

theorem Agree.calls {world : World} (quiet : world.Quiet) (agree : world.Agree)
    {sequence : List WriteCall} (returns : Along Returns world sequence)
    (allowed : ∀ call ∈ sequence, ¬ RemovesByObject call) : (world.calls sequence).Agree := by
  induction sequence generalizing world with
  | nil => exact agree
  | cons call rest ih =>
      refine ih (WriteCall.run_quiet quiet call)
        (agree.run quiet returns.1 (allowed call (by simp))) returns.2 ?_
      intro other member
      exact allowed other (by simp [member])

/-- After successful calls none of which is `remove_cluster` or `remove_host`,
`get_node` finds a name in the primary graph exactly when it finds it in the
dependency graph, and then with the same type. -/
theorem live_agree (sequence : List WriteCall) (returns : Along Returns empty sequence)
    (allowed : ∀ call ∈ sequence, ¬ RemovesByObject call) (name : String) :
    (((GraphDB.ofInstance (empty.calls sequence).primary.inst).getNode name).isSome ↔
      ((GraphDB.ofInstance (empty.calls sequence).dependency.inst).getNode name).isSome) ∧
    ∀ node other,
      (GraphDB.ofInstance (empty.calls sequence).primary.inst).getNode name = some node →
      (GraphDB.ofInstance (empty.calls sequence).dependency.inst).getNode name = some other →
      node.type (empty.calls sequence).primary.inst =
        other.type (empty.calls sequence).dependency.inst := by
  have agree : (empty.calls sequence).Agree := Agree.calls empty_quiet rfl returns allowed
  have same := congrFun agree name
  unfold World.roster GraphDB.roster at same
  constructor
  · have sameSome := congrArg Option.isSome same
    rw [Option.isSome_map, Option.isSome_map] at sameSome
    exact Bool.eq_iff_iff.mp sameSome
  · intro node other found otherFound
    change Option.map _ ((GraphDB.ofInstance (empty.calls sequence).primary.inst).getNode name) =
      Option.map _ ((GraphDB.ofInstance (empty.calls sequence).dependency.inst).getNode name)
        at same
    rw [found, otherFound] at same
    exact Option.some.inj same

/-- An environment with a cluster, a host in it and a host of its own. -/
def smallStore : List WriteCall :=
  [⟨.createEnv, ["e"], 1⟩, ⟨.addClusterToEnv, ["e", "c"], 2⟩,
    ⟨.addHostToCluster, ["e", "c", "h"], 3⟩, ⟨.addHost, ["g"], 4⟩]

theorem live_agree_smallStore :
    ((GraphDB.ofInstance (empty.calls smallStore).primary.inst).getNode "e#c").isSome ∧
      ((GraphDB.ofInstance (empty.calls smallStore).dependency.inst).getNode "e#c").isSome := by
  have agree := live_agree smallStore (by
    refine ⟨?_, ?_, ?_, ?_, trivial⟩
    all_goals
      unfold Returns
      decide +kernel) (by
    intro call member
    simp only [smallStore, List.mem_cons, List.not_mem_nil, or_false] at member
    rcases member with rfl | rfl | rfl | rfl
    all_goals simp [RemovesByObject]) "e#c"
  have live : ((GraphDB.ofInstance
      (empty.calls smallStore).primary.inst).getNode "e#c").isSome := by
    decide +kernel
  exact ⟨live, agree.1.mp live⟩

/-- A removed host stays live in the dependency graph. -/
theorem live_disagree_hostGone :
    Along Returns empty hostGone ∧
      ((GraphDB.ofInstance (empty.calls hostGone).primary.inst).getNode "h").isSome = false ∧
      ((GraphDB.ofInstance (empty.calls hostGone).dependency.inst).getNode "h").isSome = true := by
  refine ⟨⟨?_, ?_, trivial⟩, ?_, ?_⟩
  · unfold Returns
    decide +kernel
  · unfold Returns
    decide +kernel
  · decide +kernel
  · decide +kernel

/-- Every node of the primary graph has one in the dependency graph. -/
def Mirrored (world : World) : Prop :=
  ∀ name, world.roster .primary name ≠ none → world.roster .dependency name ≠ none

/-- The rosters change alike, or a name of the primary graph goes out of
use. -/
theorem rosterChange_cases (call : WriteCall) :
    (∃ change, call.rosterChange = onBoth change) ∨
      ∃ name, call.rosterChange = onPrimary (.erase name) := by
  obtain ⟨method, args, id⟩ := call
  unfold WriteCall.rosterChange
  dsimp only
  split
  case h_7 => exact Or.inr ⟨_, rfl⟩
  case h_8 => exact Or.inr ⟨_, rfl⟩
  all_goals exact Or.inl ⟨_, rfl⟩

theorem Mirrored.erase {world : World} (mirrored : world.Mirrored) (erased name : String) :
    (Roster.Change.erase erased).apply (world.roster .primary) name ≠ none →
      world.roster .dependency name ≠ none := by
  simp only [Roster.Change.apply]
  split
  · exact fun gone => absurd rfl gone
  · exact mirrored name

theorem Mirrored.run_ok {world after : World} (mirrored : world.Mirrored) {call : WriteCall}
    (step : CallStep world call.rosterChange (call.effect world) call.Apart after) :
    after.Mirrored := by
  have primary : after.roster .primary = _ := (step.graphs .primary).roster
  have dependency : after.roster .dependency = _ := (step.graphs .dependency).roster
  intro name
  rw [primary, dependency]
  rcases rosterChange_cases call with ⟨change, same⟩ | ⟨erased, same⟩
  · rw [same]
    change change.apply (world.roster .primary) name ≠ none →
      change.apply (world.roster .dependency) name ≠ none
    cases change with
    | keep => exact mirrored name
    | ensure created kind =>
        simp only [Roster.Change.apply]
        split
        · simp
        · exact mirrored name
    | erase erased =>
        simp only [Roster.Change.apply]
        split
        · exact id
        · exact mirrored name
  · rw [same]
    exact mirrored.erase erased name

theorem Mirrored.run_half {world after : World} (mirrored : world.Mirrored) {call : WriteCall}
    (half : call.HalfApplied world) (step : HalfStep world (call.rosterChange .primary) after) :
    after.Mirrored := by
  have primary : after.roster .primary = _ := step.primary.roster
  have dependency : after.roster .dependency = world.roster .dependency := by
    unfold World.roster
    exact congrArg (fun inst => (GraphDB.ofInstance inst).roster) step.dependency
  intro name
  rw [primary, dependency]
  obtain ⟨method, args, id⟩ := call
  unfold WriteCall.HalfApplied at half
  dsimp only at half
  have created : ∀ created kind, world.roster .dependency created ≠ none →
      (Roster.Change.ensure created kind).apply (world.roster .primary) name ≠ none →
      world.roster .dependency name ≠ none := by
    intro created kind inUse
    simp only [Roster.Change.apply]
    split
    · rename_i same
      exact fun _ => same ▸ inUse
    · exact mirrored name
  split at half
  · exact created _ _ half.2
  · exact created _ _ half.2
  · exact mirrored.erase _ name
  · exact half.elim

theorem mirrored_calls (sequence : List WriteCall) : (empty.calls sequence).Mirrored := by
  refine (@Along.calls (fun _ _ => True) (fun world => world.Quiet ∧ world.Mirrored) empty sequence
    (Along.of_forall (fun _ _ _ => trivial) empty) ⟨empty_quiet, fun _ => id⟩ ?_).2
  rintro world call ⟨quiet, mirrored⟩ _
  refine ⟨WriteCall.run_quiet quiet call, ?_⟩
  cases outcome : call.run world with
  | mk result after =>
      cases result with
      | ok value => exact mirrored.run_ok (WriteCall.run_ok quiet outcome)
      | error error =>
          rcases WriteCall.run_error quiet outcome with ⟨_, same, _⟩ | ⟨half, step⟩
          · intro name
            rw [(Unchanged.of_tables same).roster, (Unchanged.of_tables same).roster]
            exact mirrored name
          · exact mirrored.run_half half step

/-! ## Edges -/

theorem Quiet.balanced_calls {world : World} (quiet : world.Quiet)
    (balanced : ∀ graph, Balanced (world.graph graph).inst) {sequence : List WriteCall}
    (noLoops : Along (fun world call => ¬ call.SelfLinks world) world sequence)
    (graph : GraphName) : Balanced ((world.calls sequence).graph graph).inst := by
  induction sequence generalizing world with
  | nil => exact balanced graph
  | cons call rest ih =>
      refine ih (WriteCall.run_quiet quiet call) (fun graph => ?_) noLoops.2
      exact (WriteCall.run_passage quiet call graph).balanced noLoops.1 (balanced graph)

/-- After any calls none of which links a node to itself, a live node is among
the forward edges of another exactly when that one is among its reverse
edges. -/
theorem edges_symmetric (sequence : List WriteCall)
    (noLoops : Along (fun world call => ¬ call.SelfLinks world) empty sequence)
    (graph : GraphName) (name other : String) (node otherNode : Node)
    (live : (GraphDB.ofInstance ((empty.calls sequence).graph graph).inst).getNode name =
      some node)
    (otherLive : (GraphDB.ofInstance ((empty.calls sequence).graph graph).inst).getNode other =
      some otherNode) :
    other ∈ (node.neighbours .forward ((empty.calls sequence).graph graph).inst).map Node.name ↔
      name ∈ (otherNode.neighbours .reverse
        ((empty.calls sequence).graph graph).inst).map Node.name := by
  have committed := (empty_quiet.calls sequence).graph graph
  have balanced := empty_quiet.balanced_calls (fun graph => by
    cases graph with
    | primary => exact Balanced.empty
    | dependency => exact Balanced.empty) noLoops graph
  obtain ⟨_, rfl⟩ := GraphDB.getNode_eq_some committed live
  obtain ⟨_, rfl⟩ := GraphDB.getNode_eq_some committed otherLive
  rw [Node.mem_neighbours_loaded committed, Node.mem_neighbours_loaded committed]
  exact ⟨balanced.symmetric name .forward other, balanced.symmetric other .reverse name⟩

theorem edges_symmetric_smallStore :
    ∃ env cluster : Node,
      "e#c" ∈ (env.neighbours .forward (empty.calls smallStore).primary.inst).map Node.name ∧
      "e" ∈ (cluster.neighbours .reverse (empty.calls smallStore).primary.inst).map Node.name := by
  have noLoops : Along (fun world call => ¬ call.SelfLinks world) empty smallStore :=
    ⟨not_false, not_false, not_false, not_false, trivial⟩
  have envLive : ((GraphDB.ofInstance
      ((empty.calls smallStore).graph .primary).inst).getNode "e").isSome := by
    decide +kernel
  have clusterLive : ((GraphDB.ofInstance
      ((empty.calls smallStore).graph .primary).inst).getNode "e#c").isSome := by
    decide +kernel
  obtain ⟨env, isEnv⟩ := Option.isSome_iff_exists.mp envLive
  obtain ⟨cluster, isCluster⟩ := Option.isSome_iff_exists.mp clusterLive
  have symmetric := edges_symmetric smallStore noLoops .primary "e" "e#c" env cluster isEnv
    isCluster
  have forward : "e#c" ∈ (env.neighbours .forward
      (empty.calls smallStore).primary.inst).map Node.name := by
    have member : ∀ node, (GraphDB.ofInstance
        ((empty.calls smallStore).graph .primary).inst).getNode "e" = some node →
        "e#c" ∈ (node.neighbours .forward
          (empty.calls smallStore).primary.inst).map Node.name := by
      decide +kernel
    exact member env isEnv
  exact ⟨env, cluster, forward, symmetric.mp forward⟩

/-- A cluster is added to itself. -/
def selfLinked : List WriteCall :=
  [⟨.createEnv, ["e"], 1⟩, ⟨.addClusterToEnv, ["e", "c"], 2⟩,
    ⟨.addClusterToCluster, ["e", "c", "c"], 3⟩]

/-- The cluster knows the edge to itself as a reverse edge only. -/
theorem edges_asymmetric_selfLinked :
    ∃ node, (GraphDB.ofInstance (empty.calls selfLinked).primary.inst).getNode "e#c" =
        some node ∧
      "e#c" ∉ (node.neighbours .forward (empty.calls selfLinked).primary.inst).map Node.name ∧
      "e#c" ∈ (node.neighbours .reverse
        (empty.calls selfLinked).primary.inst).map Node.name := by
  have live : ((GraphDB.ofInstance
      (empty.calls selfLinked).primary.inst).getNode "e#c").isSome := by
    decide +kernel
  have edges : ∀ node, (GraphDB.ofInstance
      (empty.calls selfLinked).primary.inst).getNode "e#c" = some node →
      "e#c" ∉ (node.neighbours .forward (empty.calls selfLinked).primary.inst).map Node.name ∧
      "e#c" ∈ (node.neighbours .reverse
        (empty.calls selfLinked).primary.inst).map Node.name := by
    decide +kernel
  obtain ⟨node, isNode⟩ := Option.isSome_iff_exists.mp live
  exact ⟨node, isNode, edges node isNode⟩

end World

end Rangexx
