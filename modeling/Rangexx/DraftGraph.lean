import Rangexx.GraphHistory
import Rangexx.Roster

/-!
# The draft of the next version

While a transaction is open, the version it is going to commit can already be
read off: a node will be live when its record carries the committed version or
a higher one and it is not among the removed nodes.  `Draft` says this for the
records of a graph whose transaction started at `base`, and `endTxn_draft` that
the end of the transaction makes it true.
-/

namespace Rangexx

open AscendingScan

/-- Whether a node is live in a committed instance. -/
def Instance.Live (inst : GraphInstance) (name : String) : Prop :=
  inst.changelist.currentVersion ∈ (inst.readNode name).graphVersions

instance (inst : GraphInstance) (name : String) : Decidable (inst.Live name) :=
  inferInstanceAs (Decidable (_ ∈ _))

/-- Every live node was written at least once. -/
def Written (inst : GraphInstance) : Prop :=
  ∀ name, inst.Live name → (inst.readNode name).listVersion ≠ 0

/-- The nodes `get_node` finds, with their types. -/
def GraphDB.roster (graph : GraphDB) : Roster String NodeType := fun name =>
  (graph.getNode name).map fun node => node.type graph.inst

/-- The object `get_node` returns for a live node of the current version. -/
def Node.loaded (inst : GraphInstance) (name : String) : Node :=
  ⟨name, none, some (inst.readNode name)⟩

section Loaded

variable {inst : GraphInstance} (committed : Committed inst) (name : String)

include committed

theorem Node.mem_neighbours_loaded (direction : Direction) (other : String) :
    other ∈ ((loaded inst name).neighbours direction inst).map Node.name ↔
      (inst.readNode name).Present direction other := by
  have wf : ((loaded inst name).initInfo inst).WF := committed.wf name
  exact mem_neighbours wf direction other

theorem Node.lookup_tags_loaded (key : String) :
    ((loaded inst name).tags inst).lookup key = (inst.readNode name).tagNow key := by
  have wf : ((loaded inst name).initInfo inst).WF := committed.wf name
  exact lookup_tags wf key

end Loaded

namespace GraphDB

theorem getNode_ofInstance {inst : GraphInstance} (committed : Committed inst) (name : String) :
    (ofInstance inst).getNode name =
      if inst.Live name then some (Node.loaded inst name) else none :=
  getNode_current committed rfl name

theorem roster_ofInstance {inst : GraphInstance} (committed : Committed inst) (name : String) :
    (ofInstance inst).roster name =
      if inst.Live name then some (inst.readNode name).nodeType else none := by
  unfold roster
  rw [getNode_ofInstance committed]
  split
  · rfl
  · rfl

theorem hasVersionOrHigher_iff {version : Nat} {graphVersions : List Nat}
    (ascending : Ascending graphVersions) :
    hasVersionOrHigher version graphVersions = true ↔
      ∃ graphVersion ∈ graphVersions, version ≤ graphVersion := by
  unfold hasVersionOrHigher
  induction graphVersions using List.reverseRecOn with
  | nil => simp
  | append_singleton front last ih =>
      simp only [List.reverse_append, List.reverse_cons, List.reverse_nil, List.nil_append,
        List.singleton_append, decide_eq_true_eq]
      constructor
      · intro reached
        exact ⟨last, by simp, reached⟩
      · rintro ⟨graphVersion, member, reached⟩
        exact Nat.le_trans reached (ascending.le_getLast (by simp) member)

theorem hasVersionOrHigher_committed {inst : GraphInstance} (committed : Committed inst)
    (name : String) :
    hasVersionOrHigher inst.changelist.currentVersion (inst.readNode name).graphVersions =
      true ↔ inst.Live name := by
  rw [hasVersionOrHigher_iff (committed.wf name).graphVersions]
  constructor
  · rintro ⟨graphVersion, member, reached⟩
    have same : graphVersion = inst.changelist.currentVersion :=
      Nat.le_antisymm (committed.graphVersions name graphVersion member) reached
    rw [same] at member
    exact member
  · intro live
    exact ⟨_, live, Nat.le_refl _⟩

end GraphDB

/-! ## Recording a version -/

/-- What `add_graph_version` makes of a record. -/
def NodeInfo.recordVersion (info : NodeInfo) (version : Nat) : NodeInfo :=
  if info.graphVersions.any fun graphVersion => version ≤ graphVersion then info
  else { info with graphVersions := info.graphVersions ++ [version] }

@[simp]
theorem NodeInfo.recordVersion_nodeType (info : NodeInfo) (version : Nat) :
    (info.recordVersion version).nodeType = info.nodeType := by
  unfold recordVersion
  split
  · rfl
  · rfl

@[simp]
theorem NodeInfo.recordVersion_listVersion (info : NodeInfo) (version : Nat) :
    (info.recordVersion version).listVersion = info.listVersion := by
  unfold recordVersion
  split
  · rfl
  · rfl

@[simp]
theorem NodeInfo.recordVersion_present (info : NodeInfo) (version : Nat) :
    (info.recordVersion version).Present = info.Present := by
  unfold recordVersion
  split
  · rfl
  · funext direction other
    cases direction <;> rfl

@[simp]
theorem NodeInfo.recordVersion_tagNow (info : NodeInfo) (version : Nat) (key : String) :
    (info.recordVersion version).tagNow key = info.tagNow key := by
  unfold recordVersion
  split
  · rfl
  · rfl

theorem NodeInfo.recordVersion_idem (info : NodeInfo) (version : Nat) :
    (info.recordVersion version).recordVersion version = info.recordVersion version := by
  unfold recordVersion
  split
  · rfl
  · rw [if_pos (by simp)]

/-- A version above all recorded ones but perhaps itself is recorded. -/
theorem NodeInfo.mem_recordVersion {info : NodeInfo} {version : Nat}
    (bounded : ∀ graphVersion ∈ info.graphVersions, graphVersion ≤ version) :
    version ∈ (info.recordVersion version).graphVersions := by
  unfold recordVersion
  split
  · rename_i recorded
    obtain ⟨graphVersion, member, reached⟩ := List.any_eq_true.mp recorded
    have same : graphVersion = version :=
      Nat.le_antisymm (bounded graphVersion member) (by simpa using reached)
    rw [← same]
    exact member
  · simp

/-- A node record is among the pending changes. -/
def Instance.Touched (inst : GraphInstance) : Prop :=
  inst.pendingItems ≠ []

theorem Instance.touched_iff {inst : GraphInstance} :
    inst.Touched ↔ ∃ name, (inst.pendingChanges.lookup (.node, name)).isSome := by
  unfold Touched
  rw [Ne, Instance.pendingItems_eq_nil_iff]
  simp [Option.isSome_iff_ne_none]

theorem Instance.Touched.pending_pos {inst : GraphInstance} (touched : inst.Touched) :
    0 < inst.pending := by
  obtain ⟨name, isSome⟩ := touched_iff.mp touched
  rw [Nat.pos_iff_ne_zero, Ne, Instance.pending_eq_zero_iff]
  intro nothing
  rw [nothing] at isSome
  simp at isSome

theorem Instance.touched_writeRecord (inst : GraphInstance) (name : String)
    (objectVersion : Nat) (info : NodeInfo) :
    (inst.writeRecord (.node, name) objectVersion info).Touched := by
  rw [touched_iff]
  refine ⟨name, ?_⟩
  rw [Instance.lookup_pending_writeRecord]
  simp

theorem Node.addGraphVersion_createNode (name : String) (version : Nat) (inst : GraphInstance) :
    (Node.createNode name).addGraphVersion version inst =
      (⟨name, none, some ((inst.readNode name).recordVersion version)⟩,
        ((Node.createNode name).addGraphVersion version inst).2) := by
  unfold Node.addGraphVersion NodeInfo.recordVersion
  dsimp only [Node.createNode, Node.initInfo, Option.getD_none]
  split
  · rfl
  · rfl

theorem Node.readNode_addGraphVersion (node : Node) (version : Nat) (inst : GraphInstance)
    (name : String) :
    (node.addGraphVersion version inst).2.readNode name = inst.readNode name := by
  unfold Node.addGraphVersion
  dsimp only
  split
  · rfl
  · rw [readNode_flush, readNode_writeRecord_nodeMeta]

theorem Node.changelist_addGraphVersion (node : Node) (version : Nat) (inst : GraphInstance) :
    (node.addGraphVersion version inst).2.changelist = inst.changelist := by
  unfold Node.addGraphVersion
  dsimp only
  split
  · rfl
  · rfl

namespace GraphDB

theorem updateVersion_eq (inst : GraphInstance) (name : String) :
    updateVersion inst name =
      (((Node.createNode name).addGraphVersion inst.version inst).2).writeRecord (.node, name)
        ((inst.readNode name).recordVersion inst.version).listVersion
        ((inst.readNode name).recordVersion inst.version) := by
  unfold updateVersion
  rw [Node.addGraphVersion_createNode]
  rfl

theorem readNode_updateVersion (inst : GraphInstance) (name other : String) :
    (updateVersion inst name).readNode other =
      if other = name then (inst.readNode name).recordVersion inst.version
      else inst.readNode other := by
  rw [updateVersion_eq, readNode_writeRecord_node, Node.readNode_addGraphVersion]

theorem changelist_updateVersion (inst : GraphInstance) (name : String) :
    (updateVersion inst name).changelist = inst.changelist := by
  rw [updateVersion_eq, Instance.changelist_writeRecord, Node.changelist_addGraphVersion]

theorem touched_updateVersion (inst : GraphInstance) (name : String) :
    (updateVersion inst name).Touched := by
  rw [updateVersion_eq]
  exact Instance.touched_writeRecord _ _ _ _

theorem touched_foldl_updateVersion {inst : GraphInstance} (touched : inst.Touched)
    (names : List String) : (names.foldl updateVersion inst).Touched := by
  induction names generalizing inst with
  | nil => exact touched
  | cons name rest ih => exact ih (touched_updateVersion inst name)

/-- Recording the new version in a list of nodes changes nothing else. -/
theorem readNode_foldl_updateVersion {inst : GraphInstance} (changed : 0 < inst.pending)
    (names : List String) (other : String) :
    (names.foldl updateVersion inst).readNode other =
      if other ∈ names then
        (inst.readNode other).recordVersion (inst.changelist.currentVersion + 1)
      else inst.readNode other := by
  have version := Instance.version_of_pending changed
  induction names generalizing inst with
  | nil => simp
  | cons name rest ih =>
      have stillChanged := (touched_updateVersion inst name).pending_pos
      rw [List.foldl_cons, ih stillChanged (Instance.version_of_pending stillChanged),
        changelist_updateVersion, readNode_updateVersion, version]
      by_cases same : other = name
      · subst same
        simp [NodeInfo.recordVersion_idem]
      · simp [same]

end GraphDB

/-! ## Drafts -/

/-- A record of a transaction that is going to leave the nodes `live`, with
the types `types`. -/
structure Drafted (base : GraphInstance) (floor : Nat) (live : String → Prop)
    (types : String → NodeType) (name : String) (info : NodeInfo) : Prop where
  derived : Derived base floor name info
  type : info.nodeType = types name
  written : Written base → live name → info.listVersion ≠ 0
  live : GraphDB.hasVersionOrHigher base.changelist.currentVersion info.graphVersions = true ↔
    live name

section Drafts

variable {base : GraphInstance} {floor : Nat} {live : String → Prop}
  {types : String → NodeType}

theorem Drafted.advance {name : String} {info changed : NodeInfo}
    {present : Direction → String → Prop} (drafted : Drafted base floor live types name info)
    (advance : info.Advance changed present) (sameType : changed.nodeType = info.nodeType) :
    Drafted base floor live types name changed where
  derived := drafted.derived.advance advance
  type := sameType.trans drafted.type
  live := by
    rw [advance.graphVersions]
    exact drafted.live
  written := by
    intro _ _
    rw [advance.listVersion]
    exact Nat.succ_ne_zero _

theorem Drafted.edgeClosed (base : GraphInstance) (floor : Nat) (live : String → Prop)
    (types : String → NodeType) : EdgeClosed (Drafted base floor live types) where
  addEdge := fun _ _ _ _ _ drafted added =>
    drafted.advance (NodeInfo.addEdge_advance drafted.derived.wf added)
      (NodeInfo.addEdge_nodeType added)
  removeEdge := fun _ _ _ _ _ drafted removed =>
    drafted.advance (NodeInfo.removeEdge_advance drafted.derived.wf removed)
      (NodeInfo.removeEdge_nodeType removed)

theorem Drafted.keeps_updateTag (key : String) (values : List String) :
    KeepsGood (Drafted base floor live types) fun info => some (info.updateTag key values) := by
  intro name info changed drafted updated
  simp only [Option.some.injEq] at updated
  rw [← updated]
  exact drafted.advance (NodeInfo.updateTag_advance drafted.derived.wf key values) rfl

theorem Drafted.keeps_deleteTag (key : String) :
    KeepsGood (Drafted base floor live types) fun info => info.deleteTag key :=
  fun _ _ _ drafted deleted =>
    drafted.advance (NodeInfo.deleteTag_advance drafted.derived.wf deleted)
      (NodeInfo.deleteTag_nodeType deleted)

/-- An instance during a transaction, with the nodes it is going to leave. -/
structure Draft (base : GraphInstance) (floor : Nat) (live : String → Prop)
    (types : String → NodeType) (inst : GraphInstance) : Prop where
  working : Working base (Drafted base floor live types) inst
  stored : ∀ name, live name → (inst.records.lookup (.node, name)).isSome

theorem Committed.draft (committed : Committed base) (floor : Nat) :
    Draft base floor base.Live (fun name => (base.readNode name).nodeType) base where
  working :=
    { changelist := rfl
      good := fun name =>
        ⟨(committed.working floor).good name, rfl, fun written => written name,
          GraphDB.hasVersionOrHigher_committed committed name⟩
      objectVersion := (committed.working floor).objectVersion
      untouched := fun _ _ => rfl
      stored := fun _ present => present }
  stored := by
    intro name isLive
    cases found : base.records.lookup (.node, name) with
    | none =>
        unfold Instance.Live at isLive
        rw [committed.readNode_eq, found] at isLive
        simp [NodeInfo.default] at isLive
    | some info => rfl

/-- What the end of a transaction makes of a draft. -/
structure Published (base : GraphInstance) (floor : Nat) (live : String → Prop)
    (types : String → NodeType) (removed : List String) (draft after : GraphInstance) :
    Prop where
  committed : Committed after
  past : Past base after
  version : after.changelist.currentVersion = base.changelist.currentVersion + 1
  live : ∀ name, after.Live name ↔ live name ∧ name ∉ removed
  types : ∀ name, (after.readNode name).nodeType = types name
  present : ∀ name, (after.readNode name).Present = (draft.readNode name).Present
  tags : ∀ name key, (after.readNode name).tagNow key = (draft.readNode name).tagNow key
  kept : floor = base.changelist.currentVersion + 1 → LivenessKept base after
  written : Written base → Written after

theorem GraphDB.mem_cursorNames {inst : GraphInstance} {name : String} :
    name ∈ cursorNames inst ↔ (inst.records.lookup (.node, name)).isSome := by
  rw [AList.lookup_isSome]
  unfold cursorNames
  rw [List.mem_filterMap]
  constructor
  · rintro ⟨key, member, isNode⟩
    split at isNode
    · rename_i nodeKey
      have same : key = (.node, name) := Prod.ext nodeKey (by simpa using isNode)
      rw [← same]
      exact AList.mem_keys.mpr member
    · simp at isNode
  · intro member
    exact ⟨(.node, name), AList.mem_keys.mp member, by simp⟩

/-- The nodes that the end of a transaction lists again are those that will be
live. -/
theorem GraphDB.mem_nodesRequiringUpdate {graph : GraphDB} (committed : Committed base)
    (draft : Draft base floor live types graph.inst) (name : String) :
    name ∈ graph.nodesRequiringUpdate base.version ↔ live name ∧ name ∉ graph.removedNodes := by
  have drafted := draft.working.good name
  unfold nodesRequiringUpdate
  rw [List.mem_filter, mem_cursorNames, Bool.and_eq_true, committed.version_eq,
    drafted.live, decide_eq_true_eq]
  exact ⟨fun wanted => wanted.2, fun wanted => ⟨draft.stored name wanted.1, wanted⟩⟩

/-- Whether the next version is recorded in the record that is written for a
node. -/
theorem GraphDB.next_mem_graphVersions {graph : GraphDB} (committed : Committed base)
    (draft : Draft base floor live types graph.inst)
    (removedOld : ∀ name ∈ graph.removedNodes,
      ∀ graphVersion ∈ (graph.inst.readNode name).graphVersions,
        graphVersion ≤ base.changelist.currentVersion) (name : String) :
    base.changelist.currentVersion + 1 ∈
        (if name ∈ graph.nodesRequiringUpdate base.version then
          (graph.inst.readNode name).recordVersion (base.changelist.currentVersion + 1)
        else graph.inst.readNode name).graphVersions ↔
      live name ∧ name ∉ graph.removedNodes := by
  have drafted := draft.working.good name
  have requires := mem_nodesRequiringUpdate committed draft name
  split
  · rename_i needed
    refine ⟨fun _ => requires.mp needed, fun _ => NodeInfo.mem_recordVersion ?_⟩
    intro graphVersion member
    rcases drafted.derived.graphVersions graphVersion member with old | ⟨_, le⟩
    · exact Nat.le_succ_of_le (committed.graphVersions name graphVersion old)
    · exact le
  · rename_i notNeeded
    refine ⟨fun member => ?_, fun wanted => absurd (requires.mpr wanted) notNeeded⟩
    -- A version that is already recorded keeps the node live unless it is removed.
    have isLive : live name := drafted.live.mp
      ((hasVersionOrHigher_iff drafted.derived.wf.graphVersions).mpr
        ⟨_, member, Nat.le_succ _⟩)
    refine ⟨isLive, fun removed => ?_⟩
    have old := removedOld name removed _ member
    omega

/-- The records at the end of a transaction that changed something. -/
theorem GraphDB.readNode_endTxn {graph : GraphDB} (touched : graph.inst.Touched)
    {startVersion : Nat} (advanced : startVersion < graph.version) (name : String) :
    (graph.endTxn startVersion false).inst.readNode name =
      if name ∈ graph.nodesRequiringUpdate startVersion then
        (graph.inst.readNode name).recordVersion (graph.inst.changelist.currentVersion + 1)
      else graph.inst.readNode name := by
  have ended : (graph.endTxn startVersion false).inst =
      (graph.updateVersions startVersion).inst.commit := by
    simp [endTxn, advanced]
  rw [ended, readNode_commit]
  exact readNode_foldl_updateVersion touched.pending_pos _ name

theorem GraphDB.tagNow_endTxn {graph : GraphDB} (touched : graph.inst.Touched)
    {startVersion : Nat} (advanced : startVersion < graph.version) (name key : String) :
    ((graph.endTxn startVersion false).inst.readNode name).tagNow key =
      (graph.inst.readNode name).tagNow key := by
  rw [readNode_endTxn touched advanced]
  split
  · exact NodeInfo.recordVersion_tagNow _ _ _
  · rfl

theorem GraphDB.present_endTxn {graph : GraphDB} (touched : graph.inst.Touched)
    {startVersion : Nat} (advanced : startVersion < graph.version) (name : String) :
    ((graph.endTxn startVersion false).inst.readNode name).Present =
      (graph.inst.readNode name).Present := by
  rw [readNode_endTxn touched advanced]
  split
  · exact NodeInfo.recordVersion_present _ _
  · rfl

theorem GraphDB.endTxn_draft {graph : GraphDB} (committed : Committed base)
    (floorLe : floor ≤ base.changelist.currentVersion + 1)
    (draft : Draft base floor live types graph.inst) (touched : graph.inst.Touched)
    (removedOld : ∀ name ∈ graph.removedNodes,
      ∀ graphVersion ∈ (graph.inst.readNode name).graphVersions,
        graphVersion ≤ base.changelist.currentVersion) :
    Published base floor live types graph.removedNodes graph.inst
      (graph.endTxn base.version false).inst := by
  have derived := draft.working.mono fun _ _ (drafted : Drafted _ _ _ _ _ _) => drafted.derived
  have versionNow : graph.version = base.changelist.currentVersion + 1 :=
    draft.working.version_of_pending touched.pending_pos
  have advanced : base.version < graph.version := by
    rw [versionNow, committed.version_eq]
    omega
  have updated := updateVersions_working base.version floorLe derived touched.pending_pos
  have ended : (graph.endTxn base.version false).inst =
      (graph.updateVersions base.version).inst.commit := by
    simp [endTxn, advanced]
  have stillTouched : (graph.updateVersions base.version).inst.Touched :=
    touched_foldl_updateVersion touched _
  have newVersion : (graph.updateVersions base.version).inst.commit.changelist.currentVersion =
      base.changelist.currentVersion + 1 := by
    rw [Instance.changelist_commit, if_neg stillTouched, updated.changelist]
  have record : ∀ name, (graph.updateVersions base.version).inst.commit.readNode name =
      if name ∈ graph.nodesRequiringUpdate base.version then
        (graph.inst.readNode name).recordVersion (base.changelist.currentVersion + 1)
      else graph.inst.readNode name := by
    intro name
    rw [← ended, readNode_endTxn touched advanced, draft.working.changelist]
  have liveAfter : ∀ name,
      (graph.updateVersions base.version).inst.commit.Live name ↔
        live name ∧ name ∉ graph.removedNodes := by
    intro name
    unfold Instance.Live
    rw [newVersion, record]
    exact next_mem_graphVersions committed draft removedOld name
  rw [ended]
  refine ⟨updated.commit_committed committed, updated.commit_past committed, newVersion,
    liveAfter, ?_, ?_, ?_, ?_, ?_⟩
  · intro name
    rw [record]
    split
    · rw [NodeInfo.recordVersion_nodeType]
      exact (draft.working.good name).type
    · exact (draft.working.good name).type
  · intro name
    rw [record]
    split
    · exact NodeInfo.recordVersion_present _ _
    · rfl
  · intro name key
    rw [← ended]
    exact tagNow_endTxn touched advanced name key
  · intro atTop
    rw [atTop] at updated
    exact updated.commit_livenessKept
  · intro written name isLive
    have drafted := (draft.working.good name).written written ((liveAfter name).mp isLive).1
    rw [record]
    split
    · rw [NodeInfo.recordVersion_listVersion]
      exact drafted
    · exact drafted

/-- Nothing is pending at the end of the transaction. -/
theorem GraphDB.endTxn_closed {graph : GraphDB} (closed : graph.inst.pendingChanges = ∅)
    (startVersion : Nat) (same : startVersion = graph.version) (uncaught : Bool) :
    (graph.endTxn startVersion uncaught).inst = graph.inst := by
  have nothing := (Instance.pending_eq_zero_iff graph.inst).mpr closed
  unfold endTxn
  rw [if_neg (by omega)]
  cases uncaught with
  | false => simp [Instance.commit, nothing]
  | true =>
      simp only [Instance.abort, if_true]
      rw [← closed]

theorem GraphDB.endTxn_unchanged {graph : GraphDB} (committed : Committed graph.inst)
    (startVersion : Nat) (same : startVersion = graph.version) (uncaught : Bool) :
    (graph.endTxn startVersion uncaught).inst = graph.inst :=
  endTxn_closed committed.pending startVersion same uncaught

end Drafts

end Rangexx
