import Rangexx.GraphHistory
import Rangexx.NodeEdits

/-!
# Version switches that fail

`GraphDB::set_wanted_version` clears the map of node versions before it knows
whether it can serve the request, and it assigns the wanted version before it
checks the change history.  A graph that reads an earlier version needs the map
for every node that has changed since.
-/

namespace Rangexx

namespace GraphDB

/-- What a caller sees of a node: its edges in both directions and its tags. -/
def seen (graph : GraphDB) (name : String) :
    Option ((Direction → List String) × (String → Option (List String))) :=
  (graph.getNode name).map fun node =>
    (fun direction => node.edgeNames direction graph.inst,
      fun key => (node.tags graph.inst).lookup key)

/-- The same object over another state of the store. -/
def withInst (graph : GraphDB) (inst : GraphInstance) : GraphDB :=
  { graph with inst := inst }

/-- A call that left `after` of the object `graph` cannot be noticed later,
whatever the store holds by then. -/
structure Unnoticed (graph after : GraphDB) : Prop where
  wantedVersion : after.wantedVersion = graph.wantedVersion
  seen : ∀ later name, (after.withInst later).seen name = (graph.withInst later).seen name

/-- The call returned `false` or threw. -/
def SwitchFailed (result : Except GraphError Bool) : Prop :=
  result = .ok false ∨ ∃ found expected, result = .error (.databaseVersioning found expected)

/-- What a failing switch leaves of the object: a version that is too high is
refused with the map cleared, and an inconsistent history is found with the
wanted version changed as well. -/
theorem setWantedVersion_failed {graph after : GraphDB} {wanted : Option Nat}
    {result : Except GraphError Bool} (switched : graph.setWantedVersion wanted = (result, after))
    (failed : SwitchFailed result) :
    ∃ target, wanted = some target ∧ wanted ≠ graph.wantedVersion ∧
      (graph.version < target ∧ after = { graph with nodeVersionMap := ∅ } ∨
        target ≤ graph.version ∧
          after = { graph with nodeVersionMap := ∅, wantedVersion := wanted }) := by
  unfold setWantedVersion at switched
  unfold SwitchFailed at failed
  split at switched
  · obtain ⟨rfl, _⟩ := Prod.mk.inj switched
    simp at failed
  · rename_i differs
    split at switched
    · obtain ⟨rfl, _⟩ := Prod.mk.inj switched
      simp at failed
    · rename_i target
      refine ⟨target, rfl, differs, ?_⟩
      split at switched
      · rename_i le
        dsimp only at switched
        split at switched
        · obtain ⟨_, rfl⟩ := Prod.mk.inj switched
          exact Or.inr ⟨le, rfl⟩
        · split at switched
          · obtain ⟨rfl, _⟩ := Prod.mk.inj switched
            simp at failed
          · obtain ⟨rfl, _⟩ := Prod.mk.inj switched
            simp at failed
      · rename_i above
        obtain ⟨_, rfl⟩ := Prod.mk.inj switched
        exact Or.inl ⟨by omega, rfl⟩

/-- At the current version the map is not looked at. -/
theorem getNode_of_current {graph : GraphDB} (current : graph.wantedVersion = none)
    (map : AList fun _ : String => Nat) (name : String) :
    ({ graph with nodeVersionMap := map } : GraphDB).getNode name = graph.getNode name := by
  unfold getNode
  simp only [current, version, Option.getD_none, ne_eq, not_true_eq_false, if_false]

/-- The record of a node that has got its only edge, to itself, after
`listVersion` and that is live at `graphVersion`. -/
def linkedSince (name : String) (graphVersion listVersion : Nat) : NodeInfo :=
  { NodeInfo.default with
    listVersion := listVersion + 1
    forward := [⟨name, [listVersion + 1]⟩]
    graphVersions := [graphVersion] }

/-- A store that holds this record, one version later. -/
def storeSince (name : String) (graphVersion listVersion : Nat) : GraphInstance where
  records := (∅ : AList fun _ : RecordKey => NodeInfo).insert (.node, name)
    (linkedSince name graphVersion listVersion)
  changelist := ⟨graphVersion + 1, []⟩
  pendingChanges := ∅

theorem getNode_storeSince {graph : GraphDB} {name : String} {graphVersion listVersion : Nat}
    (isWanted : graph.wantedVersion = some graphVersion) :
    (graph.withInst (storeSince name graphVersion listVersion)).getNode name =
      some ⟨name, graph.nodeVersionMap.lookup name,
        some (linkedSince name graphVersion listVersion)⟩ := by
  have record : (storeSince name graphVersion listVersion).records.lookup (.node, name) =
      some (linkedSince name graphVersion listVersion) :=
    AList.lookup_insert _
  have read : (storeSince name graphVersion listVersion).readNode name =
      linkedSince name graphVersion listVersion := by
    have found : (storeSince name graphVersion listVersion).getRecord (.node, name) =
        some (linkedSince name graphVersion listVersion) := by
      unfold Instance.getRecord
      rw [show (storeSince name graphVersion listVersion).pendingChanges.lookup (.node, name) =
        none from AList.lookup_empty _]
      exact record
    rw [Instance.readNode, found, Option.getD_some]
  have version : (storeSince name graphVersion listVersion).version = graphVersion + 1 := rfl
  have live : AscendingScan.scan graphVersion
      (linkedSince name graphVersion listVersion).graphVersions = .equal := by
    simp [linkedSince, AscendingScan.scan, AscendingScan.walk]
  unfold getNode
  simp [withInst, record, read, isWanted, GraphDB.version, version, live]

/-- In such a store the map makes a difference. -/
theorem seen_storeSince {graph : GraphDB} {name : String} {graphVersion listVersion : Nat}
    (isWanted : graph.wantedVersion = some graphVersion)
    (noted : graph.nodeVersionMap.lookup name = some listVersion) :
    (({ graph with nodeVersionMap := ∅ } : GraphDB).withInst
        (storeSince name graphVersion listVersion)).seen name ≠
      (graph.withInst (storeSince name graphVersion listVersion)).seen name := by
  intro same
  unfold seen at same
  rw [getNode_storeSince isWanted,
    getNode_storeSince (show ({ graph with nodeVersionMap := ∅ } : GraphDB).wantedVersion =
      some graphVersion from isWanted)] at same
  have sameEdges := congrArg (Option.map fun view => view.1 .forward) same
  have notOlder : ¬ listVersion + 1 < listVersion := by omega
  simp [noted, notOlder, Node.edgeNames, Node.neighbours, Node.initInfo, NodeInfo.getEdges,
    NodeInfo.edges, NodeInfo.cmpVersion, linkedSince, AscendingScan.scan,
    AscendingScan.walk, List.filter] at sameEdges

/-- A switch that fails goes unnoticed exactly when it is refused for a version
above the current one while the object reads the current version or has noted
nothing. -/
theorem failedSwitch_unnoticed_iff {graph after : GraphDB} {wanted : Option Nat}
    {result : Except GraphError Bool} (switched : graph.setWantedVersion wanted = (result, after))
    (failed : SwitchFailed result) :
    Unnoticed graph after ↔
      (∃ target, wanted = some target ∧ graph.version < target) ∧
        (graph.wantedVersion = none ∨ graph.nodeVersionMap = ∅) := by
  obtain ⟨target, rfl, differs, ⟨above, rfl⟩ | ⟨le, rfl⟩⟩ :=
    setWantedVersion_failed switched failed
  · constructor
    · intro unnoticed
      refine ⟨⟨target, rfl, above⟩, ?_⟩
      by_contra! noted
      obtain ⟨wantedSome, mapFilled⟩ := noted
      obtain ⟨graphVersion, isWanted⟩ := Option.ne_none_iff_exists'.mp wantedSome
      have someEntry : ∃ name listVersion,
          graph.nodeVersionMap.lookup name = some listVersion := by
        by_contra! nothing
        apply mapFilled
        apply AList.ext
        refine List.eq_nil_iff_forall_not_mem.mpr ?_
        rintro ⟨name, listVersion⟩ member
        exact nothing name listVersion (AList.mem_lookup_iff.mpr member)
      obtain ⟨name, listVersion, isNoted⟩ := someEntry
      exact seen_storeSince isWanted isNoted
        (unnoticed.seen (storeSince name graphVersion listVersion) name)
    · rintro ⟨-, current | nothing⟩
      · refine ⟨rfl, fun later name => ?_⟩
        have unmapped : (graph.withInst later).wantedVersion = none := current
        unfold seen
        rw [show (({ graph with nodeVersionMap := ∅ } : GraphDB).withInst later).getNode name =
          (graph.withInst later).getNode name from getNode_of_current unmapped ∅ name]
        rfl
      · refine ⟨rfl, fun later name => ?_⟩
        rw [← nothing]
  · constructor
    · intro unnoticed
      exact absurd unnoticed.wantedVersion differs
    · rintro ⟨⟨other, same, above⟩, -⟩
      have : target = other := Option.some.inj same
      omega

/-- A node is created and gets a tag in the next transaction; then the graph is
set to its first version. -/
def hostAtFirst : GraphDB :=
  ((history [[.create "web1", .setType 0 .host],
    [.getNode "web1", .updateTag 0 "os" ["linux"]]]).setWantedVersion (some 1)).2

theorem setWantedVersion_tooHigh {graph : GraphDB} {target : Nat} (above : graph.version < target)
    (differs : some target ≠ graph.wantedVersion) :
    graph.setWantedVersion (some target) = (.ok false, { graph with nodeVersionMap := ∅ }) := by
  have notLe : ¬ target ≤ graph.version := by omega
  simp [setWantedVersion, differs, notLe]

/-- The request for version nine is refused, and from then on the node shows
the tag that it did not have at version one. -/
theorem refusedSwitch_noticed :
    ¬ ∀ (graph after : GraphDB) (wanted : Option Nat) (result : Except GraphError Bool),
      graph.setWantedVersion wanted = (result, after) → SwitchFailed result →
        Unnoticed graph after := by
  intro unnoticed
  have refused : hostAtFirst.setWantedVersion (some 9) =
      (.ok false, { hostAtFirst with nodeVersionMap := ∅ }) :=
    setWantedVersion_tooHigh (by decide) (by decide)
  have same := (unnoticed _ _ _ _ refused (Or.inl rfl)).seen hostAtFirst.inst "web1"
  have sameTags := congrArg (Option.map fun view => view.2 "os") same
  revert sameTags
  decide

/-- The same request is harmless once the graph reads the current version. -/
theorem failedSwitch_unnoticed_current :
    let current := (hostAtFirst.setWantedVersion none).2
    Unnoticed current { current with nodeVersionMap := ∅ } := by
  intro current
  have refused : current.setWantedVersion (some 9) =
      (.ok false, { current with nodeVersionMap := ∅ }) :=
    setWantedVersion_tooHigh (by decide) (by decide)
  exact (failedSwitch_unnoticed_iff refused (Or.inl rfl)).mpr ⟨⟨9, rfl, by decide⟩, Or.inl rfl⟩

end GraphDB

end Rangexx
