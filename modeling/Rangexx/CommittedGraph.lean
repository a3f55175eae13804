import Mathlib.Data.List.Induction
import Rangexx.WorkingSet

/-!
# Committed graphs and their past

`Committed` is the invariant of an instance between transactions.  Its last
field is what historical reads rest on: the newest changelist entry lists every
live node with the list version it was committed at.  `Past` relates a
committed instance to a later one, and `getNode_past` reads an earlier
version back from the later instance.
-/

namespace Rangexx

open AscendingScan

structure Committed (inst : GraphInstance) : Prop where
  pending : inst.pendingChanges = ∅
  size : inst.changelist.change.length = inst.changelist.currentVersion
  nodup : ∀ entry ∈ inst.changelist.change, (entry.map ChangeItem.key).Nodup
  wf : ∀ name, (inst.readNode name).WF
  graphVersions : ∀ name, ∀ graphVersion ∈ (inst.readNode name).graphVersions,
    graphVersion ≤ inst.changelist.currentVersion
  listed : ∀ name, 0 < inst.changelist.currentVersion →
    inst.changelist.currentVersion ∈ (inst.readNode name).graphVersions →
    ∃ entry, inst.changelist.change.getLast? = some entry ∧
      ⟨(.node, name), (inst.readNode name).listVersion⟩ ∈ entry

/-- `later` was reached from `earlier` by committed transactions. -/
structure Past (earlier later : GraphInstance) : Prop where
  version : earlier.changelist.currentVersion ≤ later.changelist.currentVersion
  changes : earlier.changelist.change <+: later.changelist.change
  records : ∀ name, (earlier.readNode name).Extends (later.readNode name)
  stored : ∀ name, (earlier.records.lookup (.node, name)).isSome →
    (later.records.lookup (.node, name)).isSome
  unchanged : later.changelist.currentVersion = earlier.changelist.currentVersion →
    ∀ name, later.readNode name = earlier.readNode name

/-- No node became live at a version that was committed before. -/
def LivenessKept (earlier later : GraphInstance) : Prop :=
  ∀ name, ∀ graphVersion ∈ (later.readNode name).graphVersions,
    graphVersion ≤ earlier.changelist.currentVersion →
      graphVersion ∈ (earlier.readNode name).graphVersions

theorem Past.refl (inst : GraphInstance) : Past inst inst where
  version := Nat.le_refl _
  changes := List.prefix_rfl
  records := fun _ => NodeInfo.Extends.refl _
  stored := fun _ present => present
  unchanged := fun _ _ => rfl

theorem Past.trans {first second third : GraphInstance} (one : Past first second)
    (two : Past second third) : Past first third where
  version := Nat.le_trans one.version two.version
  changes := one.changes.trans two.changes
  records := fun name => (one.records name).trans (two.records name)
  stored := fun name present => two.stored name (one.stored name present)
  unchanged := by
    intro same name
    have := one.version
    have := two.version
    rw [two.unchanged (by omega) name, one.unchanged (by omega) name]

theorem LivenessKept.refl (inst : GraphInstance) : LivenessKept inst inst :=
  fun _ _ member _ => member

theorem LivenessKept.trans {first second third : GraphInstance}
    (version : first.changelist.currentVersion ≤ second.changelist.currentVersion)
    (one : LivenessKept first second) (two : LivenessKept second third) :
    LivenessKept first third := by
  intro name graphVersion member le
  exact one name graphVersion (two name graphVersion member (Nat.le_trans le version)) le

theorem Committed.empty : Committed Instance.empty where
  pending := rfl
  size := rfl
  nodup := by simp [Instance.empty]
  wf := fun name => NodeInfo.default_wf
  graphVersions := by
    intro name graphVersion member
    have nothing : (Instance.empty : GraphInstance).readNode name = NodeInfo.default := rfl
    rw [nothing] at member
    simp [NodeInfo.default] at member
  listed := by
    intro name positive
    simp [Instance.empty] at positive

section Commit

variable {base inst : GraphInstance} {floor : Nat}

theorem Committed.readNode_eq (committed : Committed inst) (name : String) :
    inst.readNode name = (inst.records.lookup (.node, name)).getD NodeInfo.default := by
  simp [Instance.readNode, Instance.getRecord, committed.pending]

theorem Committed.version_eq (committed : Committed inst) :
    inst.version = inst.changelist.currentVersion :=
  Instance.version_of_not_pending ((Instance.pending_eq_zero_iff inst).mpr committed.pending)

/-- A transaction starts with everything derived from itself. -/
theorem Committed.working (committed : Committed base) (floor : Nat) :
    Working base (Derived base floor) base where
  changelist := rfl
  good := fun name =>
    ⟨committed.wf name, NodeInfo.Extends.refl _, fun _ member => Or.inl member⟩
  objectVersion := by
    intro name change found
    rw [committed.pending] at found
    simp at found
  untouched := fun _ _ => rfl
  stored := fun _ present => present

@[simp]
theorem readNode_commit (inst : GraphInstance) (name : String) :
    inst.commit.readNode name = inst.readNode name := by
  unfold Instance.readNode
  rw [Instance.getRecord_commit]

theorem Working.readNode_of_not_pending {Good : String → NodeInfo → Prop}
    (committed : Committed base) (working : Working base Good inst) {name : String}
    (notPending : inst.pendingChanges.lookup (.node, name) = none) :
    inst.readNode name = base.readNode name := by
  rw [committed.readNode_eq, ← working.untouched name notPending]
  simp [Instance.readNode, Instance.getRecord, notPending]

private theorem nodup_pendingItems (inst : GraphInstance) :
    (inst.pendingItems.map ChangeItem.key).Nodup := by
  have nodup : (inst.pendingChanges.entries.map Sigma.fst).Nodup :=
    inst.pendingChanges.nodupKeys
  have items : inst.pendingItems.map ChangeItem.key =
      (inst.pendingChanges.entries.map Sigma.fst).filter fun key => key.1 = .node := by
    unfold Instance.pendingItems
    generalize inst.pendingChanges.entries = entries
    induction entries with
    | nil => rfl
    | cons entry rest ih =>
        by_cases isNode : entry.1.1 = .node
        · simp [isNode, ih]
        · simp [isNode, ih]
  rw [items]
  exact nodup.filter _

theorem Working.commit_committed (committed : Committed base)
    (working : Working base (Derived base floor) inst) : Committed inst.commit := by
  have listVersions := working.objectVersion
  constructor
  · exact Instance.pendingChanges_commit inst
  · rw [Instance.changelist_commit, working.changelist]
    split
    · exact committed.size
    · simp [committed.size]
  · intro entry member
    rw [Instance.changelist_commit, working.changelist] at member
    split at member
    · exact committed.nodup entry member
    · rcases List.mem_append.mp member with old | new
      · exact committed.nodup entry old
      · rw [List.mem_singleton.mp new]
        exact nodup_pendingItems inst
  · intro name
    rw [readNode_commit]
    exact (working.good name).wf
  · intro name graphVersion member
    rw [readNode_commit] at member
    rw [Instance.changelist_commit, working.changelist]
    split
    · rename_i noItems
      have notPending := (Instance.pendingItems_eq_nil_iff inst).mp noItems name
      rw [working.readNode_of_not_pending committed notPending] at member
      exact committed.graphVersions name graphVersion member
    · rcases (working.good name).graphVersions graphVersion member with old | ⟨_, le⟩
      · exact Nat.le_succ_of_le (committed.graphVersions name graphVersion old)
      · exact le
  · intro name positive live
    rw [readNode_commit] at live ⊢
    rw [Instance.changelist_commit, working.changelist] at live positive ⊢
    split at live
    · rename_i noItems
      rw [if_pos noItems] at positive ⊢
      have notPending := (Instance.pendingItems_eq_nil_iff inst).mp noItems name
      rw [working.readNode_of_not_pending committed notPending] at live ⊢
      exact committed.listed name positive live
    · rename_i someItems
      rw [if_neg someItems]
      -- A node live at the new version must have been written in this transaction.
      cases found : inst.pendingChanges.lookup (.node, name) with
      | none =>
          rw [working.readNode_of_not_pending committed found] at live
          have impossible := committed.graphVersions name _ live
          dsimp only at impossible
          omega
      | some change =>
          refine ⟨inst.pendingItems, by simp, ?_⟩
          rw [Instance.mem_pendingItems]
          refine ⟨name, change, found, ?_⟩
          have record : inst.readNode name = change.data := by
            simp [Instance.readNode, Instance.getRecord, found]
          rw [record, listVersions name change found]

theorem Working.commit_past (committed : Committed base) (working : Working base (Derived base floor) inst) :
    Past base inst.commit := by
  constructor
  · rw [Instance.changelist_commit, working.changelist]
    split
    · exact Nat.le_refl _
    · simp
  · rw [Instance.changelist_commit, working.changelist]
    split
    · exact List.prefix_rfl
    · exact List.prefix_append _ _
  · intro name
    rw [readNode_commit]
    exact (working.good name).extended
  · intro name present
    rw [Instance.lookup_records_commit, Instance.getRecord]
    cases found : inst.pendingChanges.lookup (.node, name) with
    | none =>
        rw [← working.untouched name found] at present
        exact present
    | some change => rfl
  · intro same name
    rw [Instance.changelist_commit, working.changelist] at same
    split at same
    · rename_i noItems
      rw [readNode_commit]
      exact working.readNode_of_not_pending committed
        ((Instance.pendingItems_eq_nil_iff inst).mp noItems name)
    · simp at same

theorem Working.commit_livenessKept
    (working : Working base (Derived base (base.changelist.currentVersion + 1)) inst) :
    LivenessKept base inst.commit := by
  intro name graphVersion member le
  rw [readNode_commit] at member
  rcases (working.good name).graphVersions graphVersion member with old | ⟨above, _⟩
  · exact old
  · omega

end Commit

/-! ## The end of a graph transaction -/

section EndTxn

variable {base inst : GraphInstance} {floor : Nat}

theorem GraphDB.updateVersion_working (name : String)
    (floorLe : floor ≤ base.changelist.currentVersion + 1)
    (working : Working base (Derived base floor) inst) (changed : 0 < inst.pending) :
    Working base (Derived base floor) (updateVersion inst name) ∧ 0 < (updateVersion inst name).pending := by
  have version := working.version_of_pending changed
  have added := Node.addGraphVersion_working working (Node.Sound.createNode name)
    fun _ derived => derived.recordVersion (by rw [version]; exact floorLe) working.version_le
  unfold updateVersion
  exact ⟨(Node.commit_working added.1 added.2).1, Instance.pending_writeRecord_pos _ _ _ _⟩

theorem GraphDB.updateVersions_working {graph : GraphDB} (priorVersion : Nat)
    (floorLe : floor ≤ base.changelist.currentVersion + 1)
    (working : Working base (Derived base floor) graph.inst) (changed : 0 < graph.inst.pending) :
    Working base (Derived base floor) (graph.updateVersions priorVersion).inst := by
  unfold updateVersions
  dsimp only
  generalize graph.nodesRequiringUpdate priorVersion = names
  generalize graph.inst = inst at working changed
  induction names generalizing inst with
  | nil => exact working
  | cons name rest ih =>
      have step := updateVersion_working name floorLe working changed
      exact ih _ step.1 step.2

/-- A transaction that ends normally commits a working set. -/
theorem GraphDB.endTxn_working {graph : GraphDB} (committed : Committed base)
    (floorLe : floor ≤ base.changelist.currentVersion + 1)
    (working : Working base (Derived base floor) graph.inst) :
    ∃ inst, Working base (Derived base floor) inst ∧ (graph.endTxn base.version false).inst = inst.commit := by
  unfold endTxn
  by_cases changed : base.version < graph.version
  · have pending : 0 < graph.inst.pending := by
      by_contra nothing
      have same : graph.version = base.version := by
        rw [version, Instance.version_of_not_pending (show graph.inst.pending = 0 by omega),
          working.changelist, committed.version_eq]
      omega
    exact ⟨_, updateVersions_working base.version floorLe working pending, by simp [changed]⟩
  · exact ⟨_, working, by simp [changed]⟩

end EndTxn

/-! ## Reading an earlier version -/

namespace GraphDB

/-- The version an entry lists for a node. -/
def entryVersion (name : String) (entry : List (ChangeItem RecordKey)) : Option Nat :=
  (entry.find? fun item => item.key = (.node, name)).map ChangeItem.version

/-- The version the first of some entries that lists the node gives it. -/
def listedVersion (name : String) (entries : List (List (ChangeItem RecordKey))) :
    Option Nat :=
  entries.findSome? (entryVersion name)

theorem entryVersion_eq_some {name : String} {version : Nat}
    {entry : List (ChangeItem RecordKey)} (nodup : (entry.map ChangeItem.key).Nodup)
    (member : ⟨(.node, name), version⟩ ∈ entry) : entryVersion name entry = some version := by
  unfold entryVersion
  cases found : entry.find? fun item => item.key = (.node, name) with
  | none =>
      have absent := List.find?_eq_none.mp found _ member
      simp at absent
  | some item =>
      have sameKey : item.key = (.node, name) := by simpa using List.find?_some found
      have same : item = ⟨(.node, name), version⟩ :=
        List.inj_on_of_nodup_map nodup (List.mem_of_find?_eq_some found) member sameKey
      rw [same]
      rfl

private theorem lookup_noteEntry {entry : List (ChangeItem RecordKey)}
    (nodup : (entry.map ChangeItem.key).Nodup) (map : AList fun _ : String => Nat)
    (name : String) :
    (noteEntry map entry).lookup name = (entryVersion name entry).or (map.lookup name) := by
  unfold noteEntry entryVersion
  induction entry generalizing map with
  | nil => rfl
  | cons item rest ih =>
      have ⟨absent, restNodup⟩ := List.nodup_cons.mp nodup
      rw [List.foldl_cons, ih restNodup, List.find?_cons]
      by_cases same : item.key = (.node, name)
      · have restNone : rest.find? (fun item => item.key = (.node, name)) = none := by
          rw [List.find?_eq_none]
          intro other member
          simp only [decide_eq_true_eq]
          intro otherKey
          apply absent
          rw [same, ← otherKey]
          exact List.mem_map_of_mem member
        simp [same, restNone]
      · simp only [same, decide_false]
        split
        · rename_i isNode
          have otherName : name ≠ item.key.2 := fun sameName =>
            same (Prod.ext isNode sameName.symm)
          rw [AList.lookup_insert_ne otherName]
        · rfl

private theorem seekVersion_of_lt {wanted version : Nat} (later : version < wanted)
    (entries : List (List (ChangeItem RecordKey))) (map : AList fun _ : String => Nat) :
    seekVersion wanted version entries map = some map := by
  have notReached : ¬ wanted ≤ version := by omega
  cases entries with
  | nil => rw [seekVersion, if_neg notReached]
  | cons entry rest => rw [seekVersion, if_neg notReached]

/-- The backwards scan ends with the wanted entry, so the map holds what the
first entry from there on lists. -/
theorem seekVersion_eq {wanted : Nat} (positive : 0 < wanted)
    {history : List (List (ChangeItem RecordKey))}
    (nodup : ∀ entry ∈ history, (entry.map ChangeItem.key).Nodup)
    (inHistory : wanted ≤ history.length) (map : AList fun _ : String => Nat) :
    ∃ found, seekVersion wanted history.length history.reverse map = some found ∧
      ∀ name, found.lookup name =
        (listedVersion name (history.drop (wanted - 1))).or (map.lookup name) := by
  induction history using List.reverseRecOn generalizing map with
  | nil => simp at inHistory; omega
  | append_singleton front last ih =>
      have lastNodup := nodup last (by simp)
      rw [List.reverse_append, List.length_append]
      simp only [List.reverse_cons, List.reverse_nil, List.nil_append, List.singleton_append,
        List.length_cons, List.length_nil]
      rw [seekVersion, if_pos (by simpa using inHistory)]
      simp only [Nat.zero_add, Nat.add_sub_cancel]
      by_cases earlier : wanted ≤ front.length
      · obtain ⟨found, sought, lookups⟩ := ih (fun entry member => nodup entry (by simp [member]))
          earlier (noteEntry map last)
        refine ⟨found, sought, ?_⟩
        intro name
        rw [lookups name, lookup_noteEntry lastNodup, List.drop_append_of_le_length (by omega)]
        simp [listedVersion, List.findSome?_append, Option.or_assoc]
      · have newest : wanted - 1 = front.length := by
          simp only [List.length_append, List.length_cons, List.length_nil] at inHistory
          omega
        refine ⟨_, seekVersion_of_lt (by omega) _ _, ?_⟩
        intro name
        rw [lookup_noteEntry lastNodup, newest]
        simp [listedVersion]

/-- The version map of a graph set to a version holds what the entries from
that version on list first. -/
def Positioned (graph : GraphDB) : Prop :=
  ∀ wanted, graph.wantedVersion = some wanted → ∀ name,
    graph.nodeVersionMap.lookup name =
      listedVersion name (graph.inst.changelist.change.drop (wanted - 1))

theorem ofInstance_positioned (inst : GraphInstance) : (ofInstance inst).Positioned := by
  intro wanted isWanted
  simp [ofInstance] at isWanted

theorem setWantedVersion_eq {graph : GraphDB} {wanted : Nat}
    (committed : Committed graph.inst) (positioned : graph.Positioned) (positive : 0 < wanted)
    (le : wanted ≤ graph.inst.changelist.currentVersion) :
    ∃ after, graph.setWantedVersion (some wanted) = (.ok true, after) ∧
      after.inst = graph.inst ∧ after.wantedVersion = some wanted ∧ after.Positioned := by
  unfold setWantedVersion
  by_cases same : some wanted = graph.wantedVersion
  · rw [if_pos same]
    exact ⟨graph, rfl, rfl, same.symm, positioned⟩
  · rw [if_neg same]
    have version : graph.version = graph.inst.changelist.change.length := by
      rw [GraphDB.version, committed.version_eq, committed.size]
    obtain ⟨found, sought, lookups⟩ := seekVersion_eq positive committed.nodup
      (by rw [committed.size]; exact le) (∅ : AList fun _ : String => Nat)
    rw [← committed.size, ← version] at le
    rw [← version] at sought
    have sizeOk : ¬ graph.inst.getChangeHistory.length ≠ graph.version := by
      rw [version]
      exact not_not.mpr rfl
    change seekVersion wanted graph.version graph.inst.getChangeHistory.reverse ∅ =
      some found at sought
    refine ⟨{ graph with wantedVersion := some wanted, nodeVersionMap := found }, ?_, rfl, rfl, ?_⟩
    · dsimp only
      rw [if_pos le, if_neg sizeOk, sought]
    · intro asked isAsked name
      simp only [Option.some.injEq] at isAsked
      subst isAsked
      rw [lookups name]
      simp

/-- Between transactions `get_node` finds the nodes that carry the version the
graph is set to. -/
theorem getNode_eq {graph : GraphDB} (committed : Committed graph.inst) (name : String) :
    graph.getNode name =
      if graph.wantedVersion.getD graph.version ∈ (graph.inst.readNode name).graphVersions then
        some ⟨name,
          if graph.wantedVersion.getD graph.version ≠ graph.version then
            graph.nodeVersionMap.lookup name else none,
          some (graph.inst.readNode name)⟩
      else none := by
  unfold getNode
  have ascending := (committed.wf name).graphVersions
  cases found : graph.inst.records.lookup (.node, name) with
  | none =>
      have nothing : graph.inst.readNode name = NodeInfo.default := by
        rw [committed.readNode_eq, found]
        rfl
      rw [nothing]
      simp [NodeInfo.default]
  | some record =>
      by_cases live : graph.wantedVersion.getD graph.version ∈
          (graph.inst.readNode name).graphVersions
      · rw [if_pos live]
        simp only
        rw [if_pos ((scan_eq_equal_iff ascending).mpr live)]
      · rw [if_neg live]
        simp only
        rw [if_neg fun found => live ((scan_eq_equal_iff ascending).mp found)]

end GraphDB

/-! ## What a node object shows -/

/-- Two node objects show the same edges and the same tags. -/
structure SameView (node : Node) (inst : GraphInstance) (other : Node)
    (otherInst : GraphInstance) : Prop where
  edges : ∀ direction name,
    name ∈ (node.neighbours direction inst).map Node.name ↔
      name ∈ (other.neighbours direction otherInst).map Node.name
  tags : ∀ key, (node.tags inst).lookup key = (other.tags otherInst).lookup key

theorem Node.mem_neighbours {node : Node} {inst : GraphInstance}
    (wf : (node.initInfo inst).WF) (direction : Direction) (name : String) :
    name ∈ (node.neighbours direction inst).map Node.name ↔
      EdgeAt ((node.initInfo inst).edges direction)
        ((node.initInfo inst).cmpVersion node.wantedVersion) name := by
  rw [← NodeInfo.mem_getEdges wf]
  simp [Node.neighbours]

theorem Node.lookup_tags {node : Node} {inst : GraphInstance}
    (wf : (node.initInfo inst).WF) (key : String) :
    (node.tags inst).lookup key =
      tagAt (node.initInfo inst).tags
        ((node.initInfo inst).cmpVersion node.wantedVersion) key :=
  NodeInfo.lookup_tagTable wf node.wantedVersion key

/-- A later record read at the list version of an earlier one shows what the
earlier one showed. -/
theorem SameView.of_extends {node other : Node} {inst otherInst : GraphInstance}
    (wf : (node.initInfo inst).WF) (otherWF : (other.initInfo otherInst).WF)
    (extended : (other.initInfo otherInst).Extends (node.initInfo inst))
    (current : other.wantedVersion = none)
    (wanted : (node.initInfo inst).cmpVersion node.wantedVersion =
      (other.initInfo otherInst).listVersion) :
    SameView node inst other otherInst := by
  have otherVersion : (other.initInfo otherInst).cmpVersion other.wantedVersion =
      (other.initInfo otherInst).listVersion := by
    rw [current]
    rfl
  constructor
  · intro direction name
    rw [Node.mem_neighbours wf, Node.mem_neighbours otherWF, wanted, otherVersion]
    exact extended.pastEdges direction _ name (Nat.le_refl _)
  · intro key
    rw [Node.lookup_tags wf, Node.lookup_tags otherWF, wanted, otherVersion]
    exact extended.pastTags _ key (Nat.le_refl _)

namespace GraphDB

/-- What `get_node` returns between transactions, for the current version. -/
theorem getNode_current {graph : GraphDB} (committed : Committed graph.inst)
    (current : graph.wantedVersion = none) (name : String) :
    graph.getNode name =
      if graph.inst.changelist.currentVersion ∈ (graph.inst.readNode name).graphVersions then
        some ⟨name, none, some (graph.inst.readNode name)⟩
      else none := by
  rw [getNode_eq committed, current]
  simp [GraphDB.version, committed.version_eq]

/-- The entries from an earlier version on list a node that was live there
with the list version it had. -/
theorem listedVersion_past {earlier later : GraphInstance} (committed : Committed earlier)
    (past : Past earlier later) (positive : 0 < earlier.changelist.currentVersion)
    {name : String}
    (live : earlier.changelist.currentVersion ∈ (earlier.readNode name).graphVersions) :
    listedVersion name (later.changelist.change.drop (earlier.changelist.currentVersion - 1)) =
      some (earlier.readNode name).listVersion := by
  obtain ⟨entry, isLast, listed⟩ := committed.listed name positive live
  obtain ⟨front, split⟩ := List.getLast?_eq_some_iff.mp isLast
  obtain ⟨added, later_eq⟩ := past.changes
  have frontLength : earlier.changelist.currentVersion - 1 = front.length := by
    rw [← committed.size, split]
    simp
  rw [← later_eq, split, frontLength, List.append_assoc, List.drop_left]
  have nodup := committed.nodup entry (by rw [split]; simp)
  simp [listedVersion, entryVersion_eq_some nodup listed]

/-- A graph set to the version of an earlier committed one finds every node
that was live there, and the node shows what it showed then. -/
theorem getNode_past {earlier graph : GraphDB}
    (earlierCommitted : Committed earlier.inst) (current : earlier.wantedVersion = none)
    (committed : Committed graph.inst) (past : Past earlier.inst graph.inst)
    (positioned : graph.Positioned)
    (isWanted : graph.wantedVersion = some earlier.inst.changelist.currentVersion)
    (positive : 0 < earlier.inst.changelist.currentVersion) {name : String} {earlierNode : Node}
    (live : earlier.getNode name = some earlierNode) :
    ∃ node, graph.getNode name = some node ∧ node.name = name ∧
      node.info = some (graph.inst.readNode name) ∧
      SameView node graph.inst earlierNode earlier.inst := by
  have liveThen : earlier.inst.changelist.currentVersion ∈
      (earlier.inst.readNode name).graphVersions ∧
        earlierNode = ⟨name, none, some (earlier.inst.readNode name)⟩ := by
    rw [getNode_current earlierCommitted current] at live
    split at live
    · rename_i member
      exact ⟨member, by simpa using live.symm⟩
    · simp at live
  obtain ⟨member, rfl⟩ := liveThen
  have extended := past.records name
  have memberNow : earlier.inst.changelist.currentVersion ∈
      (graph.inst.readNode name).graphVersions := extended.graphVersions.subset member
  have version : graph.version = graph.inst.changelist.currentVersion := committed.version_eq
  rw [getNode_eq committed, isWanted, Option.getD_some, if_pos memberNow]
  refine ⟨_, rfl, rfl, rfl, ?_⟩
  refine SameView.of_extends ?_ ?_ ?_ rfl ?_
  · exact committed.wf name
  · exact earlierCommitted.wf name
  · exact extended
  by_cases same : earlier.inst.changelist.currentVersion = graph.version
  · have unchanged := past.unchanged (by rw [← version, same]) name
    rw [if_neg (not_not.mpr same)]
    exact congrArg NodeInfo.listVersion unchanged
  · rw [if_pos same]
    rw [positioned _ isWanted name, listedVersion_past earlierCommitted past positive member]
    rfl

end GraphDB

end Rangexx
