import Rangexx.RemoveHostGuard
import Rangexx.KeyLists

/-!
# Calls that change nothing

A write call that returns true is recorded with a new range version.  Only
`add_cluster_to_cluster`, which drops the result of `add_forward_edge`, is
recorded without having changed what the graphs show.
-/

namespace Rangexx

open StateProgram RangeApi Api

theorem Instance.eq_of_entries {inst other : GraphInstance}
    (records : inst.records.entries = other.records.entries)
    (changelist : inst.changelist = other.changelist)
    (pending : inst.pendingChanges.entries = other.pendingChanges.entries) : inst = other := by
  obtain ⟨_, _, _⟩ := inst
  obtain ⟨_, _, _⟩ := other
  cases AList.ext records
  cases AList.ext pending
  cases changelist
  rfl

namespace World

/-- Newly opened graphs show the same nodes, with the same types, edges and
tags. -/
structure SameGraphs (world after : World) : Prop where
  roster : ∀ graph, after.roster graph = world.roster graph
  view : ∀ graph name, (world.graph graph).inst.Live name →
    SameView (Node.loaded (after.graph graph).inst name) (after.graph graph).inst
      (Node.loaded (world.graph graph).inst name) (world.graph graph).inst

variable {world after : World} {graph : GraphName} {name : String}

theorem SameGraphs.of_same (primary : after.primary.inst = world.primary.inst)
    (dependency : after.dependency.inst = world.dependency.inst) : world.SameGraphs after := by
  have graphs : ∀ graph, (after.graph graph).inst = (world.graph graph).inst := by
    intro graph
    cases graph with
    | primary => exact primary
    | dependency => exact dependency
  constructor
  · intro graph
    rw [World.roster, graphs]
    rfl
  · intro graph name _
    rw [graphs]
    exact SameView.refl _ _

theorem SameGraphs.present (same : world.SameGraphs after) (quiet : world.Quiet)
    (quietAfter : after.Quiet) (live : (world.graph graph).inst.Live name)
    (side : Direction) (other : String) :
    ((after.graph graph).inst.readNode name).Present side other ↔
      ((world.graph graph).inst.readNode name).Present side other := by
  rw [← Node.mem_neighbours_loaded (quiet.graph graph) name,
    ← Node.mem_neighbours_loaded (quietAfter.graph graph) name]
  exact (same.view graph name live).edges side other

theorem SameGraphs.tagNow (same : world.SameGraphs after) (quiet : world.Quiet)
    (quietAfter : after.Quiet) (live : (world.graph graph).inst.Live name) (key : String) :
    ((after.graph graph).inst.readNode name).tagNow key =
      ((world.graph graph).inst.readNode name).tagNow key := by
  rw [← Node.lookup_tags_loaded (quiet.graph graph) name,
    ← Node.lookup_tags_loaded (quietAfter.graph graph) name]
  exact (same.view graph name live).tags key

/-! ## Calls on nodes -/

section Nodes

variable {change : GraphName → Roster.Change String NodeType} {effect : GraphName → Effect}
  {apart : GraphName → Prop} {type : NodeType}
  (step : CallStep world change effect apart after)

include step

theorem SameGraphs.apply_eq (same : world.SameGraphs after) (graph : GraphName) :
    (change graph).apply (world.roster graph) = world.roster graph :=
  (step.graphs graph).roster.symm.trans (same.roster graph)

theorem not_sameGraphs_of_created (creates : change .primary = .ensure name type)
    (unused : world.roster .primary name = none) : ¬ world.SameGraphs after := by
  intro same
  have kept := congrFun (same.apply_eq step .primary) name
  rw [creates, Roster.Change.apply_ensure_of_none unused, if_pos rfl, unused] at kept
  cases kept

theorem not_sameGraphs_of_erased (erases : change .primary = .erase name)
    (inUse : world.roster .primary name = some type) : ¬ world.SameGraphs after := by
  intro same
  have kept := congrFun (same.apply_eq step .primary) name
  rw [erases, inUse] at kept
  simp [Roster.Change.apply] at kept

end Nodes

/-! ## Calls on edges -/

/-- The end of the transaction of a call on one graph shows the edges that the
call left. -/
theorem present_closed {inst : GraphInstance} (request : Request) (quiet : world.Quiet)
    (edit : Edit (world.graph graph).inst inst) (touched : inst.Touched) (name : String) :
    (((world.closed (((world.opened graph).setGraph graph (.ofInstance inst)).appendTxn
      request).addNewRangeVersion graph).graph graph).inst.readNode name).Present =
      (inst.readNode name).Present := by
  have ended := edit.present_endTxn (quiet.graph graph) touched name
  cases graph with
  | primary => exact ended
  | dependency => exact ended

theorem not_sameGraphs_of_unlinks {direction : Direction} {node other : String}
    {request : Request} (quiet : world.Quiet) (quietAfter : after.Quiet)
    (unlinks : Unlinks world graph direction node other request after) :
    ¬ world.SameGraphs after := by
  intro same
  obtain ⟨live, removed, rfl⟩ := unlinks.removed
  have holds := Node.loaded_holds (world.graph graph).inst
  obtain ⟨side, target, before, gone⟩ := Node.removeEdge_loses direction
    (quiet.graph graph).wf (holds node) (holds other) removed
  have shown := present_closed request quiet
    ((Edit.refl (quiet.graph graph)).removeEdge direction (holds node) (holds other))
    (Node.touched_of_removeEdge _ _ _ _ removed) node
  have kept := (same.present quiet quietAfter live side target).mpr before
  exact gone ((congrFun (congrFun shown side) target).mp kept)

theorem not_sameGraphs_of_links {node other : String} {request : Request}
    (quiet : world.Quiet) (quietAfter : after.Quiet)
    (links : Links world graph node other request after) : ¬ world.SameGraphs after := by
  intro same
  obtain ⟨live, added, rfl⟩ := links.added
  have holds := Node.loaded_holds (world.graph graph).inst
  obtain ⟨-, side, target, absent, new⟩ := Node.addEdge_gains .forward
    (quiet.graph graph).wf (holds node) (holds other) added
  have shown := present_closed request quiet
    ((Edit.refl (quiet.graph graph)).addEdge .forward (holds node) (holds other))
    (Node.touched_of_addEdge _ _ _ _ added) node
  have kept := (congrFun (congrFun shown side) target).mpr new
  exact absent ((same.present quiet quietAfter live side target).mp kept)

theorem not_sameGraphs_of_attaches {parent : String} {type : NodeType} {added : Bool}
    {request : Request} (quiet : world.Quiet) (quietAfter : after.Quiet)
    (attaches : Attaches world parent name type added request after)
    (fresh : world.primary.inst.Live name → added = true) : ¬ world.SameGraphs after := by
  by_cases live : world.primary.inst.Live name
  · intro same
    have holds := Node.loaded_holds world.primary.inst
    obtain ⟨success, ended⟩ := attaches.of_live quiet live
    rw [fresh live] at success
    obtain ⟨-, side, target, absent, new⟩ := Node.addEdge_gains .forward quiet.primary.wf
      (holds parent) (holds name) success
    have shown := ((Edit.refl quiet.primary).addEdge .forward (holds parent)
      (holds name)).present_endTxn quiet.primary (Node.touched_of_addEdge _ _ _ _ success) parent
    have kept : ((after.graph .primary).inst.readNode parent).Present side target := by
      change (after.primary.inst.readNode parent).Present side target
      rw [ended]
      exact (congrFun (congrFun shown side) target).mpr new
    have parentLive : (world.graph .primary).inst.Live parent := attaches.1
    exact absent ((same.present quiet quietAfter parentLive side target).mp kept)
  · have unused : world.roster .primary name = none :=
      (WriteCall.roster_eq_none_iff quiet .primary name).mpr live
    exact not_sameGraphs_of_created (attaches.step quiet) rfl unused

/-! ## Calls on keys -/

theorem not_sameGraphs_of_keyStep {envName nodeName : String} {call : KeyCall}
    (quiet : world.Quiet) (quietAfter : after.Quiet)
    (step : KeyStep world envName nodeName call after) : ¬ world.SameGraphs after := by
  intro same
  obtain ⟨name, changed, -, live, changes, shown⟩ := step
  have wf := quiet.primary.wf name
  have kept : ∀ key, changed.tagNow key = (world.primary.inst.readNode name).tagNow key := by
    intro key
    rw [← shown key]
    have liveToo : (world.graph .primary).inst.Live name := live
    exact same.tagNow quiet quietAfter liveToo key
  cases call with
  | addNodeKeyValue key value id =>
      obtain ⟨absent, rfl⟩ := changes
      apply absent
      rw [← kept key, NodeInfo.updateTag_tagNow_same wf]
      simp [SlotList.mem_reserveAll]
  | removeNodeKeyValue key value id =>
      obtain ⟨present, rfl⟩ := changes
      rw [← kept key, NodeInfo.updateTag_tagNow_same wf] at present
      simp at present
  | removeKeyFromNode key id =>
      have removed := NodeInfo.deleteTag_tagNow wf changes key
      rw [if_pos rfl, kept key] at removed
      have listed := (NodeInfo.deleteTag_eq_none_iff wf).mpr removed
      rw [show (world.primary.inst.readNode name).deleteTag key = some changed from changes]
        at listed
      cases listed

/-! ## Edges that are shown -/

/-- The call adds an edge that is shown already. -/
def AddsShownEdge (world : World) (call : WriteCall) : Prop :=
  ∃ graph source target, call.effect world graph = .links source target ∧
    world.Edge graph source target

/-- A call that returns true changes one of the graphs.  A call that adds an
edge that is shown throws, and is not recorded. -/
def NeverSilent (world : World) (call : WriteCall) : Prop :=
  (∀ after, call.run world = (.ok true, after) → ¬ world.SameGraphs after) ∧
    (world.AddsShownEdge call → ∃ error after, call.run world = (.error error, after) ∧
      after.rangeChanges = world.rangeChanges ∧ after.txlog = world.txlog)

/-- The call adds an edge that is shown, and nothing refuses it.  The edge of a
node to itself, added once, is a reverse edge only. -/
def RepeatsEdge (world : World) (call : WriteCall) : Prop :=
  match call.method, call.args with
  | .addClusterToCluster, [env, parent, child] =>
      Linkable world (prefixedNodeName env parent) .cluster (prefixedNodeName env child)
          .cluster ∧
        world.Edge .primary (prefixedNodeName env parent) (prefixedNodeName env child)
  | .addNodeExtDependency, [env, node, otherEnv, other] =>
      prefixedNodeName env node = prefixedNodeName otherEnv other ∧
        (∃ type, world.roster .dependency (prefixedNodeName env node) = some type ∧
          type ≠ .environment ∧ type ≠ .unknown) ∧
        (world.dependency.inst.readNode (prefixedNodeName env node)).Present .reverse
          (prefixedNodeName env node) ∧
        ¬ (world.dependency.inst.readNode (prefixedNodeName env node)).Present .forward
          (prefixedNodeName env node)
  | _, _ => False

theorem not_edge_of_attaches {parent : String} {type : NodeType} {request : Request}
    (rooted : world.Rooted) (attaches : Attaches world parent name type true request after)
    (differ : parent ≠ name) : ¬ world.Edge .primary parent name := by
  intro shown
  have quiet := rooted.regular.quiet
  obtain ⟨_, _, -, isTarget, -⟩ := rooted.targets parent name shown
  apply attaches.absent quiet (quiet.live_of_roster isTarget).1
  rcases (quiet.edge_iff .primary parent name).mp shown with forward | reverse
  · exact forward
  · exact rooted.regular.paired name .reverse parent differ.symm reverse


/-- When an edge that is shown is added, it is the edge of a node to itself. -/
theorem reverse_of_links {node other : String} {request : Request} (quiet : world.Quiet)
    (paired : Paired (world.graph graph).inst)
    (links : Links world graph node other request after)
    (shown : world.Edge graph node other) :
    node = other ∧ ((world.graph graph).inst.readNode node).Present .reverse node := by
  have absent := links.absent quiet
  have reverse : ((world.graph graph).inst.readNode other).Present .reverse node :=
    ((quiet.edge_iff graph node other).mp shown).resolve_left absent
  have same : node = other := by
    by_contra differ
    exact absent (paired other .reverse node (Ne.symm differ) reverse)
  subst same
  exact ⟨rfl, reverse⟩

theorem run_paired (quiet : world.Quiet) (call : WriteCall) (graph : GraphName)
    (paired : Paired (world.graph graph).inst) :
    Paired ((call.run world).2.graph graph).inst := by
  cases outcome : call.run world with
  | mk result after =>
      cases result with
      | ok value => exact ((WriteCall.run_ok quiet outcome).graphs graph).wired.paired paired
      | error error =>
          rcases WriteCall.run_error quiet outcome with ⟨-, same, -⟩ | ⟨-, step⟩
          · dsimp only
            rw [inst_of_tables same]
            exact paired
          · cases graph with
            | primary => exact step.primary.wired.paired paired
            | dependency =>
                have unchanged : (after.graph .dependency).inst = world.dependency.inst :=
                  step.dependency
                dsimp only
                rw [unchanged]
                exact paired

theorem Quiet.paired_calls (quiet : world.Quiet) (graph : GraphName)
    (paired : Paired (world.graph graph).inst) (sequence : List WriteCall) :
    Paired ((world.calls sequence).graph graph).inst := by
  induction sequence generalizing world with
  | nil => exact paired
  | cons call rest ih =>
      exact ih (WriteCall.run_quiet quiet call) (run_paired quiet call graph paired)

theorem empty_paired (graph : GraphName) : Paired (empty.graph graph).inst := by
  cases graph with
  | primary => exact Paired.empty
  | dependency => exact Paired.empty

/-! ## Every call -/

section Calls

variable {call : WriteCall} {result : Bool} (quiet : world.Quiet)
  (returned : call.run world = (.ok result, after)) (heard : ¬ world.RepeatsEdge call)

include quiet returned heard

theorem not_sameGraphs_of_returned : ¬ world.SameGraphs after := by
  have quietAfter : after.Quiet := by
    have kept := WriteCall.run_quiet quiet call
    rw [returned] at kept
    exact kept
  obtain ⟨method, args, id⟩ := call
  unfold WriteCall.run at returned
  dsimp only at returned
  split at returned
  · obtain ⟨absent, -⟩ := inEachGraph_accepts (createEnvIn_spec _) quiet returned
    exact not_sameGraphs_of_created (inEachGraph_ok (createEnvIn_spec _) quiet returned) rfl
      ((WriteCall.roster_eq_none_iff quiet .primary _).mpr absent)
  · obtain ⟨isEnvironment, -⟩ := inEachGraph_accepts (removeEnvIn_spec _) quiet returned
    exact not_sameGraphs_of_erased (inEachGraph_ok (removeEnvIn_spec _) quiet returned) rfl
      isEnvironment
  · exact not_sameGraphs_of_attaches quiet quietAfter
      (addClusterToEnv_attaches quiet returned).1 fun _ => rfl
  · exact not_sameGraphs_of_unlinks quiet quietAfter
      (removeClusterFromEnv_unlinks quiet returned)
  · obtain ⟨⟨added, attaches⟩, linkable⟩ := addClusterToCluster_attaches quiet returned
    refine not_sameGraphs_of_attaches quiet quietAfter attaches fun live => ?_
    by_contra notAdded
    refine heard ⟨linkable, (quiet.edge_iff .primary _ _).mpr (Or.inl ?_)⟩
    by_contra absent
    have holds := Node.loaded_holds world.primary.inst
    have success := @Node.addEdge_of_absent _ (Node.loaded world.primary.inst _) _ .forward
      quiet.primary.wf (holds _) absent
    exact notAdded ((attaches.of_live quiet live).1.symm.trans success)
  · exact not_sameGraphs_of_unlinks quiet quietAfter
      (removeClusterFromCluster_unlinks quiet returned)
  · exact not_sameGraphs_of_erased (removeCluster_ok quiet returned) rfl
      (GraphDB.roster_eq_some quiet.primary (removeCluster_live quiet returned))
  · exact not_sameGraphs_of_attaches quiet quietAfter
      (addHostToCluster_attaches quiet returned).1 fun _ => rfl
  · exact not_sameGraphs_of_unlinks quiet quietAfter
      (removeHostFromCluster_unlinks quiet returned)
  · obtain ⟨absent, -⟩ := inEachGraph_accepts (addHostIn_spec _) quiet returned
    exact not_sameGraphs_of_created (inEachGraph_ok (addHostIn_spec _) quiet returned) rfl
      ((WriteCall.roster_eq_none_iff quiet .primary _).mpr absent)
  · exact not_sameGraphs_of_erased (removeHost_ok quiet returned) rfl
      (GraphDB.roster_eq_some quiet.primary (removeHost_live quiet returned))
  · exact not_sameGraphs_of_keyStep quiet quietAfter (addNodeKeyValue_changes quiet returned)
  · exact not_sameGraphs_of_keyStep quiet quietAfter (removeNodeKeyValue_changes quiet returned)
  · exact not_sameGraphs_of_keyStep quiet quietAfter (removeKeyFromNode_changes quiet returned)
  · exact not_sameGraphs_of_links quiet quietAfter (addNodeExtDependency_links quiet returned).1
  · exact not_sameGraphs_of_unlinks quiet quietAfter
      (removeNodeExtDependency_unlinks quiet returned)
  · simp at returned

theorem not_addsShownEdge_of_returned (rooted : world.Rooted)
    (paired : Paired world.dependency.inst) : ¬ world.AddsShownEdge call := by
  rintro ⟨graph, source, target, links, shown⟩
  obtain ⟨method, args, id⟩ := call
  unfold WriteCall.effect at links
  dsimp only at links
  split at links
  · obtain ⟨rfl, same⟩ := Effect.onlyIn_eq_links links
    obtain ⟨rfl, rfl⟩ := Effect.links.inj same
    obtain ⟨attaches, linkable⟩ := addClusterToEnv_attaches quiet returned
    exact not_edge_of_attaches rooted attaches (linkable.ne (by simp)) shown
  · obtain ⟨rfl, same⟩ := Effect.onlyIn_eq_links links
    obtain ⟨rfl, rfl⟩ := Effect.links.inj same
    obtain ⟨-, linkable⟩ := addClusterToCluster_attaches quiet returned
    exact heard ⟨linkable, shown⟩
  · obtain ⟨rfl, same⟩ := Effect.onlyIn_eq_links links
    obtain ⟨rfl, rfl⟩ := Effect.links.inj same
    obtain ⟨attaches, linkable, -⟩ := addHostToCluster_attaches quiet returned
    exact not_edge_of_attaches rooted attaches (linkable.ne (by simp)) shown
  · exact keyedEffect_ne_links _ _ _ _ _ (Effect.onlyIn_eq_links links).2
  · exact keyedEffect_ne_links _ _ _ _ _ (Effect.onlyIn_eq_links links).2
  · exact keyedEffect_ne_links _ _ _ _ _ (Effect.onlyIn_eq_links links).2
  · obtain ⟨rfl, same⟩ := Effect.onlyIn_eq_links links
    obtain ⟨rfl, rfl⟩ := Effect.links.inj same
    obtain ⟨adds, typed⟩ := addNodeExtDependency_links quiet returned
    obtain ⟨self, reverse⟩ := @reverse_of_links _ _ .dependency _ _ _ quiet paired adds shown
    have absent := adds.absent quiet
    rw [← self] at absent
    exact heard ⟨self, typed, reverse, absent⟩
  · simp [quietly] at links

end Calls

/-- A call that repeats an edge returns. -/
theorem RepeatsEdge.returns {call : WriteCall} (quiet : world.Quiet)
    (repeats : world.RepeatsEdge call) :
    world.AddsShownEdge call ∧ ∃ after, call.run world = (.ok true, after) := by
  obtain ⟨method, args, id⟩ := call
  unfold RepeatsEdge at repeats
  dsimp only at repeats
  split at repeats
  · obtain ⟨linkable, shown⟩ := repeats
    exact ⟨⟨.primary, _, _, rfl, shown⟩, addClusterToCluster_returns quiet linkable id⟩
  · obtain ⟨self, ⟨type, isType, notEnvironment, notUnknown⟩, reverse, absent⟩ := repeats
    have shown : world.Edge .dependency _ _ :=
      (quiet.edge_iff .dependency _ _).mpr (Or.inr reverse)
    obtain ⟨live, typed⟩ := @Quiet.live_of_roster _ quiet .dependency _ _ isType
    subst typed
    refine ⟨⟨.dependency, _, _, rfl, self ▸ shown⟩, ?_⟩
    exact addNodeExtDependency_returns quiet live (self ▸ live)
      (not_or.mpr ⟨notEnvironment, notUnknown⟩) (self ▸ absent) id
  · exact repeats.elim

/-- In every state the store can reach, a call is never silent exactly when it
does not repeat an edge. -/
theorem never_silent_iff (sequence : List WriteCall) (call : WriteCall) :
    (empty.calls sequence).NeverSilent call ↔ ¬ (empty.calls sequence).RepeatsEdge call := by
  have rooted := empty_rooted.calls sequence
  have paired := empty_quiet.paired_calls .dependency (empty_paired .dependency) sequence
  have quiet := rooted.regular.quiet
  constructor
  · rintro ⟨-, refused⟩ repeats
    obtain ⟨shown, after, returned⟩ := repeats.returns quiet
    obtain ⟨error, _, thrown, -⟩ := refused shown
    rw [returned] at thrown
    simp at thrown
  · intro heard
    refine ⟨fun after returned => not_sameGraphs_of_returned quiet returned heard, ?_⟩
    intro shown
    cases outcome : call.run (empty.calls sequence) with
    | mk result after =>
        cases result with
        | ok value =>
            exact absurd shown
              (not_addsShownEdge_of_returned quiet outcome heard rooted paired)
        | error error =>
            refine ⟨error, after, rfl, ?_⟩
            rcases WriteCall.run_error quiet outcome with ⟨-, same, -⟩ | ⟨-, step⟩
            · exact ⟨congrArg Tables.rangeChanges same, congrArg Tables.txlog same⟩
            · exact ⟨step.ranges, step.txlog⟩

/-- A cluster below another one. -/
def nestedClusters : List WriteCall :=
  [⟨.createEnv, ["e"], 1⟩, ⟨.addClusterToEnv, ["e", "a"], 2⟩,
    ⟨.addClusterToCluster, ["e", "a", "b"], 3⟩]

/-- The edge is added again: the call returns true and is recorded, and the
edges are what they were. -/
theorem silent_nestedClusters :
    ∃ after, (⟨.addClusterToCluster, ["e", "a", "b"], 4⟩ : WriteCall).run
        (empty.calls nestedClusters) = (.ok true, after) ∧
      (empty.calls nestedClusters).SameGraphs after ∧
      after.rangeChanges.currentVersion =
        (empty.calls nestedClusters).rangeChanges.currentVersion + 1 ∧
      after.txlog.length = (empty.calls nestedClusters).txlog.length + 1 ∧
      ¬ (empty.calls nestedClusters).NeverSilent
        ⟨.addClusterToCluster, ["e", "a", "b"], 4⟩ := by
  have returns : (empty.calls nestedClusters).Succeeds
      ⟨.addClusterToCluster, ["e", "a", "b"], 4⟩ := by
    decide +kernel
  have unchanged : (empty.calls nestedClusters).SameGraphs
      ((⟨.addClusterToCluster, ["e", "a", "b"], 4⟩ : WriteCall).run
        (empty.calls nestedClusters)).2 :=
    SameGraphs.of_same
      (Instance.eq_of_entries (by decide +kernel) (by decide +kernel) (by decide +kernel))
      (Instance.eq_of_entries (by decide +kernel) (by decide +kernel) (by decide +kernel))
  refine ⟨_, returns.run_eq, unchanged, by decide +kernel, by decide +kernel, ?_⟩
  rintro ⟨changes, -⟩
  exact changes _ returns.run_eq unchanged

end World

end Rangexx
