import Rangexx.Snapshot

/-!
# Reading an earlier range version

A range version is an index of the range changelist.  Its entry names the
version each graph had once the call that wrote the entry was done, so opening
the primary graph at a range version positions it at that graph version.  What
is read there is what the call left, unless a later call gave a stored name a
new meaning.
-/

namespace Rangexx

open StateProgram

/-! ## The range changelist -/

/-- The entry a call writes. -/
def World.versionEntry (world : World) (timestamp : Nat) : RangeChange where
  timestamp := timestamp
  items := [⟨.primary, world.primary.inst.changelist.currentVersion⟩,
    ⟨.dependency, world.dependency.inst.changelist.currentVersion⟩]

/-- The backwards scan ends with the wanted entry. -/
theorem seekRangeVersion_eq {front : List RangeChange} (nonempty : front ≠ [])
    (entry : RangeChange) (back : List RangeChange) (map : AList fun _ : GraphName => Nat) :
    ∃ later, seekRangeVersion front.length (front ++ entry :: back).reverse map =
      some (entry.items.foldl (fun map item => map.insert item.key item.version) later) := by
  have stops : ∀ map, seekRangeVersion front.length front.reverse map = some map := by
    intro map
    cases isFront : front.reverse with
    | nil => exact absurd (List.reverse_eq_nil_iff.mp isFront) nonempty
    | cons change rest =>
        have length : front.length = rest.length + 1 := by
          rw [← List.length_reverse, isFront, List.length_cons]
        rw [seekRangeVersion, if_neg (by omega)]
  rw [List.reverse_append, List.reverse_cons, List.append_assoc]
  generalize back.reverse = later
  induction later generalizing map with
  | nil =>
      refine ⟨map, ?_⟩
      rw [List.nil_append, List.singleton_append, seekRangeVersion,
        if_pos (by rw [List.length_reverse]), stops]
  | cons change rest ih =>
      rw [List.cons_append, seekRangeVersion, if_pos]
      · exact ih _
      · simp only [List.length_append, List.length_reverse]
        omega

namespace World

theorem lookup_versionEntry (world : World) (timestamp : Nat)
    (map : AList fun _ : GraphName => Nat) :
    ((world.versionEntry timestamp).items.foldl (fun map item =>
      map.insert item.key item.version) map).lookup .primary =
      some world.primary.inst.changelist.currentVersion := by
  simp only [versionEntry, List.foldl_cons, List.foldl_nil]
  rw [AList.lookup_insert_ne (by simp), AList.lookup_insert]

end World

namespace RangeApi

open Api

theorem setGraphVersion_apply {world : World} {name : GraphName} {version : Option Nat}
    {result : Bool} {graph : GraphDB}
    (isSet : (world.graph name).setWantedVersion version = (.ok result, graph)) :
    setGraphVersion name version world = (.ok (), world.setGraph name graph) := by
  unfold setGraphVersion
  rw [isSet]

/-- Setting a new graph to any version above zero does not throw. -/
theorem setWantedVersion_new {inst : GraphInstance} (committed : Committed inst) {version : Nat}
    (positive : 0 < version) :
    ∃ result graph, (GraphDB.ofInstance inst).setWantedVersion (some version) =
        (.ok result, graph) ∧ graph.inst = inst ∧ graph.Positioned := by
  by_cases le : version ≤ inst.changelist.currentVersion
  · obtain ⟨graph, isSet, sameInst, _, positioned⟩ := GraphDB.setWantedVersion_eq
      (show Committed (GraphDB.ofInstance inst).inst from committed)
      (GraphDB.ofInstance_positioned inst) positive le
    exact ⟨true, graph, isSet, sameInst, positioned⟩
  · refine ⟨false, { GraphDB.ofInstance inst with nodeVersionMap := ∅ }, ?_, rfl, ?_⟩
    · have later : ¬ version ≤ (GraphDB.ofInstance inst).version := by
        rw [show (GraphDB.ofInstance inst).version = _ from committed.version_eq]
        exact le
      unfold GraphDB.setWantedVersion
      rw [if_neg (by simp [GraphDB.ofInstance])]
      dsimp only
      rw [if_neg later]
    · exact GraphDB.ofInstance_positioned inst

/-- Opening the primary graph at a range version positions it at the version
the entry names. -/
theorem graphdb_at {world earlier : World} {front back : List RangeChange} {timestamp : Nat}
    (committed : Committed world.primary.inst) (nonempty : front ≠ [])
    (changes : world.rangeChanges.change = front ++ earlier.versionEntry timestamp :: back)
    (positive : 0 < earlier.primary.inst.changelist.currentVersion)
    (le : earlier.primary.inst.changelist.currentVersion ≤
      world.primary.inst.changelist.currentVersion) :
    ∃ opened, graphdb .primary (some front.length) world = (.ok (), opened) ∧
      opened.tables = world.tables ∧
      opened.primary.wantedVersion = some earlier.primary.inst.changelist.currentVersion ∧
      opened.primary.Positioned := by
  have indexPositive : 0 < front.length := List.length_pos_iff.mpr nonempty
  obtain ⟨_, first, firstSet, firstInst, firstPositioned⟩ :=
    setWantedVersion_new committed indexPositive
  have firstCommitted : Committed first.inst := by
    rw [firstInst]
    exact committed
  obtain ⟨second, secondSet, secondInst, isWanted, positioned⟩ :=
    GraphDB.setWantedVersion_eq firstCommitted firstPositioned positive
      (by rw [firstInst]; exact le)
  obtain ⟨later, sought⟩ := seekRangeVersion_eq nonempty (earlier.versionEntry timestamp) back
    world.graphWantedVersionMap
  rw [← changes] at sought
  let map := (earlier.versionEntry timestamp).items.foldl
    (fun map item => map.insert item.key item.version) later
  let opened : World := { world with primary := first, graphWantedVersionMap := map }
  have step₁ : setGraphVersion .primary (some front.length)
      { world with primary := .ofInstance world.primary.inst } =
      (.ok (), { world with primary := first }) := setGraphVersion_apply firstSet
  have step₂ : setBackendVersion front.length { world with primary := first } =
      (.ok (), opened) := by
    unfold setBackendVersion
    rw [show seekRangeVersion front.length world.rangeChanges.change.reverse
      world.graphWantedVersionMap = some map from sought]
  have step₃ : setGraphVersion .primary
      (some earlier.primary.inst.changelist.currentVersion) opened =
      (.ok (), { opened with primary := second }) := setGraphVersion_apply secondSet
  have sameTables : ({ opened with primary := second } : World).tables = world.tables := by
    unfold World.tables
    rw [secondInst.trans firstInst]
  refine ⟨{ opened with primary := second }, ?_, sameTables, isWanted, positioned⟩
  have wanted : opened.graphWantedVersionMap.lookup .primary =
      some earlier.primary.inst.changelist.currentVersion :=
    earlier.lookup_versionEntry timestamp later
  unfold graphdb
  rw [update_bind]
  dsimp only
  change (setGraphVersion .primary (some front.length) >>= _)
    { world with primary := .ofInstance world.primary.inst } = _
  rw [bind_of_ok step₁, bind_of_ok step₂, read_bind, wanted, step₃]

end RangeApi

/-- A graph positioned at the version of an earlier instance shows that
instance, unless a stored name got a new meaning since. -/
theorem Mirrors.of_past {earlier : GraphInstance} {graph : GraphDB}
    (earlierCommitted : Committed earlier) (committed : Committed graph.inst)
    (past : Past earlier graph.inst) (unrevived : Unrevived earlier graph.inst)
    (written : Written earlier) (positioned : graph.Positioned)
    (isWanted : graph.wantedVersion = some earlier.changelist.currentVersion)
    (positive : 0 < earlier.changelist.currentVersion) :
    Mirrors graph (GraphDB.ofInstance earlier) := by
  have found : ∀ name node, (GraphDB.ofInstance earlier).getNode name = some node →
      ∃ pastNode, graph.getNode name = some pastNode ∧
        pastNode.info = some (graph.inst.readNode name) ∧
        SameView pastNode graph.inst node earlier := by
    intro name node isFound
    obtain ⟨pastNode, pastFound, _, info, view⟩ := GraphDB.getNode_past
      (show Committed (GraphDB.ofInstance earlier).inst from earlierCommitted) rfl committed past
      positioned isWanted positive isFound
    exact ⟨pastNode, pastFound, info, view⟩
  constructor
  · funext name
    by_cases live : earlier.Live name
    · have isFound : (GraphDB.ofInstance earlier).getNode name =
          some (Node.loaded earlier name) := by
        rw [GraphDB.getNode_ofInstance earlierCommitted, if_pos live]
      obtain ⟨pastNode, pastFound, info, _⟩ := found name _ isFound
      rw [GraphDB.roster_eq_some earlierCommitted live, GraphDB.roster, pastFound, Option.map_some,
        Node.type, Node.initInfo, info, Option.getD_some,
        unrevived.types name (written name live)]
    · have missing : graph.getNode name = none := by
        rw [GraphDB.getNode_eq committed, isWanted, Option.getD_some, if_neg]
        exact fun member => live (unrevived.liveness name _ member (Nat.le_refl _))
      rw [GraphDB.roster_ofInstance earlierCommitted, if_neg live, GraphDB.roster, missing]
      rfl
  · intro name node isFound
    obtain ⟨pastNode, pastFound, _, view⟩ := found name node isFound
    exact ⟨pastNode, pastFound, view⟩

/-! ## Over a sequence of calls -/

namespace World

/-- The number of calls that return. -/
def successes : World → List WriteCall → Nat
  | _, [] => 0
  | world, call :: rest =>
      (if failed (call.run world).1 then 0 else 1) + successes (call.run world).2 rest

section Sequence

variable {world : World} (quiet : world.Quiet)

include quiet

theorem Quiet.past_calls (sequence : List WriteCall) (graph : GraphName) :
    Past (world.graph graph).inst ((world.calls sequence).graph graph).inst := by
  induction sequence generalizing world with
  | nil => exact Past.refl _
  | cons call rest ih =>
      exact (WriteCall.run_passage quiet call graph).past.trans
        (ih (WriteCall.run_quiet quiet call))

theorem Quiet.unrevived_calls {sequence : List WriteCall}
    (fresh : Along (fun world call => ¬ call.Revives world) world sequence) :
    Unrevived world.primary.inst (world.calls sequence).primary.inst := by
  induction sequence generalizing world with
  | nil => exact Unrevived.refl _
  | cons call rest ih =>
      have passage := WriteCall.run_passage quiet call .primary
      exact Unrevived.trans passage.past (passage.unrevived ⟨rfl, fresh.1⟩)
        (ih (WriteCall.run_quiet quiet call) fresh.2)

theorem Quiet.written_calls (written : ∀ graph, Written (world.graph graph).inst)
    (sequence : List WriteCall) (graph : GraphName) :
    Written ((world.calls sequence).graph graph).inst := by
  induction sequence generalizing world with
  | nil => exact written graph
  | cons call rest ih =>
      exact ih (WriteCall.run_quiet quiet call) fun graph =>
        (WriteCall.run_passage quiet call graph).written (written graph)

/-- A call writes an entry to the range changelist exactly when it returns. -/
theorem Quiet.ranges_run (call : WriteCall) :
    (call.run world).2.rangeChanges.change = world.rangeChanges.change ++
      if failed (call.run world).1 then []
      else [(call.run world).2.versionEntry world.now] := by
  cases outcome : call.run world with
  | mk result after =>
      cases result with
      | ok value =>
          have recorded := (WriteCall.run_ok quiet outcome).recorded
          exact congrArg ChangeList.change recorded
      | error error =>
          have same : after.rangeChanges = world.rangeChanges := by
            rcases WriteCall.run_error quiet outcome with ⟨_, same, _⟩ | ⟨_, step⟩
            · exact congrArg Tables.rangeChanges same
            · exact step.ranges
          simp [failed, same]

theorem Quiet.ranges_calls (sequence : List WriteCall) :
    ∃ added, (world.calls sequence).rangeChanges.change = world.rangeChanges.change ++ added ∧
      added.length = world.successes sequence := by
  induction sequence generalizing world with
  | nil => exact ⟨[], (List.append_nil _).symm, rfl⟩
  | cons call rest ih =>
      obtain ⟨added, changes, length⟩ := ih (WriteCall.run_quiet quiet call)
      rw [quiet.ranges_run call, List.append_assoc] at changes
      refine ⟨_, changes, ?_⟩
      rw [List.length_append, length, successes]
      split
      · simp
      · simp

end Sequence

theorem empty_written (graph : GraphName) : Written (empty.graph graph).inst := by
  intro name live
  cases graph <;> simp [empty, Instance.Live, GraphDB.ofInstance, World.graph, Instance.empty,
    Instance.readNode, Instance.getRecord, NodeInfo.default] at live

/-- Before the first version nothing is live. -/
theorem not_live_of_version_zero (sequence : List WriteCall) (graph : GraphName)
    (zero : ((empty.calls sequence).graph graph).inst.changelist.currentVersion = 0)
    (name : String) : ¬ ((empty.calls sequence).graph graph).inst.Live name := by
  have past := empty_quiet.past_calls sequence graph
  have emptyVersion : (empty.graph graph).inst.changelist.currentVersion = 0 := by
    cases graph <;> rfl
  have emptyRecord : (empty.graph graph).inst.readNode name = NodeInfo.default := by
    cases graph <;> rfl
  unfold Instance.Live
  rw [past.unchanged (zero.trans emptyVersion.symm) name, emptyRecord]
  simp [NodeInfo.default]

/-- The primary graph has a version as soon as the dependency graph has one or
a call has returned. -/
theorem primary_started (sequence : List WriteCall)
    (started : 0 < (empty.calls sequence).dependency.inst.changelist.currentVersion ∨
      (empty.calls sequence).rangeChanges.change ≠ []) :
    0 < (empty.calls sequence).primary.inst.changelist.currentVersion := by
  induction sequence using List.reverseRecOn with
  | nil =>
      rcases started with positive | nonempty
      · exact absurd positive (Nat.lt_irrefl 0)
      · exact absurd rfl nonempty
  | append_singleton front call ih =>
      have quiet := empty_quiet.calls front
      rw [calls_append] at started ⊢
      change 0 < (call.run (empty.calls front)).2.dependency.inst.changelist.currentVersion ∨
        (call.run (empty.calls front)).2.rangeChanges.change ≠ [] at started
      change 0 < (call.run (empty.calls front)).2.primary.inst.changelist.currentVersion
      have grows : (empty.calls front).primary.inst.changelist.currentVersion ≤
          (call.run (empty.calls front)).2.primary.inst.changelist.currentVersion :=
        (WriteCall.run_passage quiet call .primary).past.version
      cases outcome : call.run (empty.calls front) with
      | mk result after =>
          rw [outcome] at started grows
          cases result with
          | ok value =>
              rcases (WriteCall.run_ok quiet outcome).grounded with ⟨graph, name, live⟩ | positive
              · have version : 0 < ((empty.calls front).graph
                    graph).inst.changelist.currentVersion := by
                  rw [Nat.pos_iff_ne_zero]
                  exact fun zero => not_live_of_version_zero front graph zero name live
                cases graph with
                | primary => exact Nat.lt_of_lt_of_le version grows
                | dependency => exact Nat.lt_of_lt_of_le (ih (Or.inl version)) grows
              · exact positive
          | error error =>
              rcases WriteCall.run_error quiet outcome with ⟨_, same, _⟩ | ⟨_, step⟩
              · have dependency : after.dependency.inst = _ := congrArg Tables.dependency same
                have ranges : after.rangeChanges = _ := congrArg Tables.rangeChanges same
                dsimp only at started
                rw [dependency, ranges] at started
                exact Nat.lt_of_lt_of_le (ih started) grows
              · have advanced := step.advanced
                dsimp only
                omega

theorem ranges_of_returns {before : List WriteCall} {call : WriteCall}
    (returns : (empty.calls before).Returns call) :
    (empty.calls (before ++ [call])).rangeChanges.change =
      (empty.calls before).rangeChanges.change ++
        [(empty.calls (before ++ [call])).versionEntry (empty.calls before).now] := by
  have entry := (empty_quiet.calls before).ranges_run call
  unfold Returns at returns
  rw [returns] at entry
  rw [calls_append]
  exact entry

theorem started_of_returns {before : List WriteCall} {call : WriteCall}
    (returns : (empty.calls before).Returns call) :
    0 < (empty.calls (before ++ [call])).primary.inst.changelist.currentVersion :=
  primary_started _ (Or.inr (by rw [ranges_of_returns returns]; simp))

theorem calls_cons_after (before after : List WriteCall) (call : WriteCall) :
    empty.calls (before ++ call :: after) = (empty.calls (before ++ [call])).calls after := by
  rw [← calls_append, List.append_assoc, List.singleton_append]

/-- Opening the primary graph at the index of a call that returned shows the
graph as that call left it. -/
theorem graphdb_mirrors (before after : List WriteCall) (call : WriteCall)
    (returns : (empty.calls before).Returns call) (positive : 1 ≤ empty.successes before)
    (fresh : Along (fun world call => ¬ call.Revives world) (empty.calls (before ++ [call]))
      after) {world : World}
    (same : world.tables = (empty.calls (before ++ call :: after)).tables) :
    ∃ opened, RangeApi.graphdb .primary (some (empty.successes before)) world =
        (.ok (), opened) ∧ opened.tables = world.tables ∧
      opened.primary.wantedVersion =
        some (empty.calls (before ++ [call])).primary.inst.changelist.currentVersion ∧
      opened.primary.Positioned ∧
      Mirrors opened.primary (.ofInstance (empty.calls (before ++ [call])).primary.inst) := by
  rw [calls_cons_after] at same
  have sameInst : world.primary.inst =
      ((empty.calls (before ++ [call])).calls after).primary.inst :=
    congrArg Tables.primary same
  have sameRanges : world.rangeChanges =
      ((empty.calls (before ++ [call])).calls after).rangeChanges :=
    congrArg Tables.rangeChanges same
  have quiet := empty_quiet.calls (before ++ [call])
  obtain ⟨front, frontChanges, length⟩ := empty_quiet.ranges_calls before
  have isFront : (empty.calls before).rangeChanges.change = front := frontChanges
  have recorded := ranges_of_returns returns
  rw [isFront] at recorded
  obtain ⟨back, backChanges, _⟩ := quiet.ranges_calls after
  rw [← sameRanges, recorded, List.append_assoc, List.singleton_append] at backChanges
  have nonempty : front ≠ [] := by
    intro nothing
    rw [nothing, List.length_nil] at length
    omega
  have version := started_of_returns returns
  have committed : Committed world.primary.inst := by
    rw [sameInst]
    exact (quiet.calls after).primary
  have past : Past (empty.calls (before ++ [call])).primary.inst world.primary.inst := by
    rw [sameInst]
    exact quiet.past_calls after .primary
  have unrevived : Unrevived (empty.calls (before ++ [call])).primary.inst
      world.primary.inst := by
    rw [sameInst]
    exact quiet.unrevived_calls fresh
  obtain ⟨opened, opens, sameTables, isWanted, positioned⟩ := RangeApi.graphdb_at
    committed nonempty backChanges version past.version
  have openedInst : opened.primary.inst = world.primary.inst :=
    congrArg Tables.primary sameTables
  rw [← openedInst] at committed past unrevived
  rw [← length]
  have written := empty_quiet.written_calls empty_written (before ++ [call]) .primary
  exact ⟨opened, opens, sameTables, isWanted, positioned, Mirrors.of_past quiet.primary committed
    past unrevived written positioned isWanted version⟩

section Reads

open RangeApi

/-- The reads of an earlier version, made after the whole sequence, give what
they gave as reads of the current version right after the call whose entry the
version is, unless a later call created a node under a name that was stored
but not live. -/
theorem reads_past (before after : List WriteCall) (call : WriteCall)
    (returns : (empty.calls before).Returns call) (positive : 1 ≤ empty.successes before)
    (fresh : Along (fun world call => ¬ call.Revives world) (empty.calls (before ++ [call]))
      after) :
    (∀ envName nodeName type, Answers
      (simpleExpand envName nodeName (some (empty.successes before)) type
        (empty.calls (before ++ call :: after))).1
      (simpleExpand envName nodeName none type (empty.calls (before ++ [call]))).1) ∧
    (∀ envName nodeName, Answers
      (getKeys envName nodeName (some (empty.successes before))
        (empty.calls (before ++ call :: after))).1
      (getKeys envName nodeName none (empty.calls (before ++ [call]))).1) ∧
    (∀ envName nodeName key, Answers
      (fetchKey envName nodeName key (some (empty.successes before))
        (empty.calls (before ++ call :: after))).1
      (fetchKey envName nodeName key none (empty.calls (before ++ [call]))).1) ∧
    ∀ envName nodeName, Answers
      (getClusters envName nodeName (some (empty.successes before))
        (empty.calls (before ++ call :: after))).1
      (getClusters envName nodeName none (empty.calls (before ++ [call]))).1 := by
  obtain ⟨opened, opens, _, _, _, mirrors⟩ :=
    graphdb_mirrors before after call returns positive fresh rfl
  have current := graphdb_none .primary (empty.calls (before ++ [call]))
  refine ⟨?_, ?_, ?_, ?_⟩
  · intro envName nodeName type
    rw [simpleExpand_eq, answering_apply opens, simpleExpand_eq, answering_apply current]
    exact (expansion_repeats mirrors envName nodeName type).answers
  · intro envName nodeName
    rw [getKeys_eq, answering_apply opens, getKeys_eq, answering_apply current]
    exact (keys_repeats mirrors envName nodeName).answers
  · intro envName nodeName key
    rw [fetchKey_eq, answering_apply opens, fetchKey_eq, answering_apply current]
    exact (keyValues_repeats mirrors envName nodeName key).answers
  · intro envName nodeName
    rw [getClusters_eq, answering_apply opens, getClusters_eq, answering_apply current]
    exact (parents_repeats mirrors envName nodeName).answers

theorem reads_past_clusterAdded :
    ∃ result, (simpleExpand "e" "" (some 1) .unknown (empty.calls
        [⟨.createEnv, ["e"], 1⟩, ⟨.addClusterToEnv, ["e", "c"], 2⟩,
          ⟨.removeClusterFromEnv, ["e", "c"], 3⟩])).1 = .ok result ∧ "c" ∈ result := by
  have reads := reads_past [⟨.createEnv, ["e"], 1⟩]
    [⟨.removeClusterFromEnv, ["e", "c"], 3⟩] ⟨.addClusterToEnv, ["e", "c"], 2⟩
    (by unfold Returns; decide +kernel) (by decide +kernel) ⟨fun revives => revives.1, trivial⟩
  have earlier : (simpleExpand "e" "" none .unknown (empty.calls
      [⟨.createEnv, ["e"], 1⟩, ⟨.addClusterToEnv, ["e", "c"], 2⟩])).1 = .ok ["c"] := by
    decide +kernel
  have index : empty.successes [⟨.createEnv, ["e"], 1⟩] = 1 := by
    decide +kernel
  rw [index] at reads
  obtain ⟨result, returned, same⟩ := reads.1 "e" "" .unknown _ earlier
  exact ⟨result, returned, (same "c").mpr (by simp)⟩

/-- A cluster is removed, and a host of the same name gets a key. -/
def nameReused : List WriteCall :=
  [⟨.createEnv, ["e"], 1⟩, ⟨.addClusterToEnv, ["e", "x"], 2⟩, ⟨.removeCluster, ["e", "x"], 3⟩,
    ⟨.addHost, ["x"], 4⟩, ⟨.addNodeKeyValue, ["", "x", "k", "v"], 5⟩]

/-- After the cluster is created again, the keys of the version before are
those of the cluster and not those of the host. -/
theorem reads_past_nameReused :
    Along Returns empty (nameReused ++ [⟨.addClusterToEnv, ["e", "x"], 6⟩]) ∧
      (getKeys "e" "x" none (empty.calls nameReused)).1 = .ok ["k"] ∧
      (getKeys "e" "x" (some 4)
        (empty.calls (nameReused ++ [⟨.addClusterToEnv, ["e", "x"], 6⟩]))).1 = .ok [] := by
  refine ⟨⟨?_, ?_, ?_, ?_, ?_, ?_, trivial⟩, ?_, ?_⟩
  all_goals
    try unfold Returns
    decide +kernel

end Reads

end World

end Rangexx
