import Rangexx.GraphDB

/-!
# The working set of a transaction

While a transaction is open, records are copied into node objects, changed
there and written back, possibly through several objects for one node.  What
survives all of this is a property `Good` of every record and every object: a
function of a node object that preserves it keeps the whole working set good,
whatever order the objects write in.

The property used most is `Derived`, relative to the committed instance `base`
at which the transaction started: the committed past is still readable in the
record, and the only new graph versions lie between `floor` and the version
the transaction is about to commit.
-/

namespace Rangexx

open AscendingScan

/-- What holds of an instance throughout a transaction that started at
`base`. -/
structure Working (base : GraphInstance) (Good : String → NodeInfo → Prop)
    (inst : GraphInstance) : Prop where
  changelist : inst.changelist = base.changelist
  good : ∀ name, Good name (inst.readNode name)
  objectVersion : ∀ name change, inst.pendingChanges.lookup (.node, name) = some change →
    change.objectVersion = change.data.listVersion
  untouched : ∀ name, inst.pendingChanges.lookup (.node, name) = none →
    inst.records.lookup (.node, name) = base.records.lookup (.node, name)
  stored : ∀ name, (base.records.lookup (.node, name)).isSome →
    (inst.records.lookup (.node, name)).isSome

/-- A node object whose copy is good. -/
def Node.Sound (Good : String → NodeInfo → Prop) (node : Node) : Prop :=
  ∀ info, node.info = some info → Good node.name info

/-- A change of records that keeps them good. -/
def KeepsGood (Good : String → NodeInfo → Prop) (update : NodeInfo → Option NodeInfo) : Prop :=
  ∀ name info changed, Good name info → update info = some changed → Good name changed

/-- Adding and removing edges keeps records good. -/
structure EdgeClosed (Good : String → NodeInfo → Prop) : Prop where
  addEdge : ∀ direction other, KeepsGood Good fun info => info.addEdge direction other
  removeEdge : ∀ direction other, KeepsGood Good fun info => info.removeEdge direction other

/-! ## Reading and writing records -/

theorem readNode_writeRecord_node (inst : GraphInstance) (name other : String)
    (objectVersion : Nat) (info : NodeInfo) :
    (inst.writeRecord (.node, name) objectVersion info).readNode other =
      if other = name then info else inst.readNode other := by
  unfold Instance.readNode
  rw [Instance.getRecord_writeRecord]
  by_cases same : other = name
  · simp [same]
  · simp [same]

@[simp]
theorem readNode_writeRecord_nodeMeta (inst : GraphInstance) (name other : String)
    (objectVersion : Nat) (info : NodeInfo) :
    (inst.writeRecord (.nodeMeta, name) objectVersion info).readNode other =
      inst.readNode other := by
  unfold Instance.readNode
  rw [Instance.getRecord_writeRecord]
  simp

@[simp]
theorem readNode_flush (inst : GraphInstance) (name : String) :
    inst.flush.readNode name = inst.readNode name := by
  unfold Instance.readNode
  rw [Instance.getRecord_flush]

section Transaction

variable {base inst : GraphInstance} {Good : String → NodeInfo → Prop} {node : Node}

theorem Node.Sound.createNode (name : String) : (Node.createNode name).Sound Good := by
  intro info loaded
  simp [Node.createNode] at loaded

theorem Node.Sound.of_info {info : NodeInfo} {wanted : Option Nat} {name : String}
    (good : Good name info) : (⟨name, wanted, some info⟩ : Node).Sound Good := by
  intro loadedInfo loaded
  simp only [Option.some.injEq] at loaded
  rw [← loaded]
  exact good

theorem Working.writeNode {name : String} {info : NodeInfo}
    (working : Working base Good inst) (good : Good name info) :
    Working base Good (inst.writeRecord (.node, name) info.listVersion info) where
  changelist := working.changelist
  good := by
    intro other
    rw [readNode_writeRecord_node]
    split
    · rename_i same
      rw [same]
      exact good
    · exact working.good other
  objectVersion := by
    intro other change found
    rw [Instance.lookup_pending_writeRecord] at found
    split at found
    · simp only [Option.some.injEq] at found
      rw [← found]
    · exact working.objectVersion other change found
  untouched := by
    intro other notPending
    rw [Instance.lookup_pending_writeRecord] at notPending
    split at notPending
    · simp at notPending
    · exact working.untouched other notPending
  stored := working.stored

theorem Working.writeMeta (working : Working base Good inst) (name : String)
    (objectVersion : Nat) (info : NodeInfo) :
    Working base Good (inst.writeRecord (.nodeMeta, name) objectVersion info) where
  changelist := working.changelist
  good := by
    intro other
    rw [readNode_writeRecord_nodeMeta]
    exact working.good other
  objectVersion := by
    intro other change found
    rw [Instance.lookup_pending_writeRecord, if_neg (by simp)] at found
    exact working.objectVersion other change found
  untouched := by
    intro other notPending
    rw [Instance.lookup_pending_writeRecord, if_neg (by simp)] at notPending
    exact working.untouched other notPending
  stored := working.stored

theorem Working.flush (working : Working base Good inst) : Working base Good inst.flush where
  changelist := working.changelist
  good := by
    intro name
    rw [readNode_flush]
    exact working.good name
  objectVersion := working.objectVersion
  untouched := by
    intro name notPending
    rw [Instance.pendingChanges_flush] at notPending
    rw [Instance.lookup_records_flush, Instance.getRecord, notPending]
    exact working.untouched name notPending
  stored := by
    intro name present
    rw [Instance.lookup_records_flush, Instance.getRecord]
    cases inst.pendingChanges.lookup (.node, name) with
    | none => exact working.stored name present
    | some change => rfl

/-- The property may be weakened. -/
theorem Working.mono {Weaker : String → NodeInfo → Prop} (working : Working base Good inst)
    (weaker : ∀ name info, Good name info → Weaker name info) : Working base Weaker inst where
  changelist := working.changelist
  good := fun name => weaker name _ (working.good name)
  objectVersion := working.objectVersion
  untouched := working.untouched
  stored := working.stored

/-- A property of instances that reading and writing good records through node
objects keeps. -/
structure RecordClosed (Good : String → NodeInfo → Prop) (Keeps : GraphInstance → Prop) :
    Prop where
  readNode : ∀ inst name, Keeps inst → Good name (inst.readNode name)
  writeNode : ∀ inst name info, Keeps inst → Good name info →
    Keeps (inst.writeRecord (.node, name) info.listVersion info)
  writeMeta : ∀ inst name info, Keeps inst → Good name info →
    Keeps (inst.writeRecord (.nodeMeta, name) info.listVersion info)
  flush : ∀ inst, Keeps inst → Keeps inst.flush

theorem Working.closed (base : GraphInstance) (Good : String → NodeInfo → Prop) :
    RecordClosed Good (Working base Good) where
  readNode := fun _ name working => working.good name
  writeNode := fun _ _ _ working good => working.writeNode good
  writeMeta := fun _ name info working _ => working.writeMeta name info.listVersion info
  flush := fun _ working => working.flush

end Transaction

/-! ## Changes through node objects -/

@[simp]
theorem Node.change_name (node : Node) (update : NodeInfo → Option NodeInfo)
    (inst : GraphInstance) : (node.change update inst).2.1.name = node.name := by
  cases updated : update (node.initInfo inst) with
  | none => rw [Node.change_of_none updated]
  | some changed => rw [Node.change_of_some updated]

section Objects

variable {Good : String → NodeInfo → Prop} {Keeps : GraphInstance → Prop}
  {inst : GraphInstance} {node : Node}

theorem Node.neighbours_sound {direction : Direction} {neighbour : Node}
    (member : neighbour ∈ node.neighbours direction inst) : neighbour.Sound Good := by
  obtain ⟨name, _, rfl⟩ := List.mem_map.mp member
  intro info loaded
  simp at loaded

variable (records : RecordClosed Good Keeps)

include records

theorem Node.Sound.initInfo_kept (holds : Keeps inst) (sound : node.Sound Good) :
    Good node.name (node.initInfo inst) := by
  unfold Node.initInfo
  cases loaded : node.info with
  | none => exact records.readNode inst node.name holds
  | some info => exact sound info loaded

theorem Node.commit_kept (holds : Keeps inst) (sound : node.Sound Good) :
    Keeps (node.commit inst).2 ∧ (node.commit inst).1.Sound Good := by
  have good := sound.initInfo_kept records holds
  exact ⟨records.writeNode inst node.name _ holds good, Node.Sound.of_info good⟩

theorem Node.change_kept {update : NodeInfo → Option NodeInfo} (keeps : KeepsGood Good update)
    (holds : Keeps inst) (sound : node.Sound Good) :
    Keeps (node.change update inst).2.2 ∧ (node.change update inst).2.1.Sound Good := by
  have good := sound.initInfo_kept records holds
  cases updated : update (node.initInfo inst) with
  | none =>
      rw [Node.change_of_none updated]
      exact ⟨holds, Node.Sound.of_info good⟩
  | some changed =>
      have changedGood := keeps node.name _ changed good updated
      rw [Node.change_of_some updated]
      exact ⟨records.writeNode inst node.name changed holds changedGood,
        Node.Sound.of_info changedGood⟩

/-- `add_graph_version` keeps the property when recording the version keeps the
record good. -/
theorem Node.addGraphVersion_kept {version : Nat} (holds : Keeps inst) (sound : node.Sound Good)
    (recorded : ∀ info, Good node.name info →
      (∀ graphVersion ∈ info.graphVersions, graphVersion < version) →
      Good node.name { info with graphVersions := info.graphVersions ++ [version] }) :
    Keeps (node.addGraphVersion version inst).2 ∧
      (node.addGraphVersion version inst).1.Sound Good := by
  have good := sound.initInfo_kept records holds
  unfold Node.addGraphVersion
  dsimp only
  split
  · exact ⟨holds, Node.Sound.of_info good⟩
  · rename_i noneAbove
    have versioned := recorded _ good fun graphVersion member => by
      by_contra notBelow
      apply noneAbove
      rw [List.any_eq_true]
      exact ⟨graphVersion, member, by simpa using notBelow⟩
    exact ⟨records.flush _ (records.writeMeta inst node.name _ holds versioned),
      Node.Sound.of_info versioned⟩

section Edges

variable (closed : EdgeClosed Good)

include closed

theorem Node.removeEdge_kept {other : Node} (direction : Direction) (holds : Keeps inst)
    (sound : node.Sound Good) (otherSound : other.Sound Good) :
    Keeps (node.removeEdge direction other inst).2.2.2 ∧
      (node.removeEdge direction other inst).2.1.Sound Good ∧
      (node.removeEdge direction other inst).2.2.1.Sound Good := by
  have half := Node.change_kept records (closed.removeEdge direction other.name) holds sound
  change Keeps (node.removeHalfEdge direction other.name inst).2.2 ∧
    (node.removeHalfEdge direction other.name inst).2.1.Sound Good at half
  unfold Node.removeEdge
  generalize node.removeHalfEdge direction other.name inst = result at half ⊢
  obtain ⟨success, changed, changedInst⟩ := result
  cases success with
  | false => exact ⟨half.1, half.2, otherSound⟩
  | true =>
      have back := Node.change_kept records
        (closed.removeEdge direction.opposite changed.name) half.1 otherSound
      exact ⟨back.1, half.2, back.2⟩

theorem Node.addSelfLoop_kept (holds : Keeps inst) (sound : node.Sound Good) :
    Keeps (node.addSelfLoop inst).2 ∧ (node.addSelfLoop inst).1.Sound Good := by
  have half := Node.change_kept records (closed.addEdge .forward node.name) holds sound
  change Keeps (node.addHalfEdge .forward node.name inst).2.2 ∧
    (node.addHalfEdge .forward node.name inst).2.1.Sound Good at half
  unfold Node.addSelfLoop
  generalize node.addHalfEdge .forward node.name inst = result at half ⊢
  obtain ⟨success, changed, changedInst⟩ := result
  cases success with
  | false => exact half
  | true => exact Node.change_kept records (closed.addEdge .reverse changed.name) half.1 half.2

theorem Node.removeAllEdges_kept (direction : Direction) (holds : Keeps inst)
    (sound : node.Sound Good) :
    Keeps (node.removeAllEdges direction inst).2 ∧
      (node.removeAllEdges direction inst).1.Sound Good := by
  unfold Node.removeAllEdges
  have fresh : ∀ neighbour ∈ node.neighbours direction inst, neighbour.Sound Good :=
    fun _ member => Node.neighbours_sound member
  generalize node.neighbours direction inst = affected at fresh
  induction affected generalizing node inst with
  | nil => exact ⟨holds, sound⟩
  | cons neighbour rest ih =>
      have step := Node.removeEdge_kept records closed direction holds sound
        (fresh neighbour (by simp))
      exact ih step.1 step.2.1 fun other member => fresh other (by simp [member])

theorem Node.detach_kept {version : Nat} {removed : Node} {after : GraphInstance}
    (holds : Keeps inst) (sound : node.Sound Good)
    (detached : node.detach version inst = some (removed, after)) :
    Keeps after ∧ removed.Sound Good := by
  unfold Node.detach at detached
  dsimp only at detached
  split at detached
  · simp at detached
  · have loadedSound : ({ node with info := some (node.initInfo inst) } : Node).Sound Good :=
      Node.Sound.of_info (sound.initInfo_kept records holds)
    have looped := Node.addSelfLoop_kept records closed holds loadedSound
    have reversed := Node.removeAllEdges_kept records closed .reverse looped.1 looped.2
    have forwarded := Node.removeAllEdges_kept records closed .forward reversed.1 reversed.2
    simp only [Option.some.injEq] at detached
    rw [detached] at forwarded
    exact forwarded

end Edges

end Objects

section Transaction

variable {base inst : GraphInstance} {Good : String → NodeInfo → Prop} {node : Node}

theorem Node.Sound.initInfo (working : Working base Good inst) (sound : node.Sound Good) :
    Good node.name (node.initInfo inst) :=
  sound.initInfo_kept (Working.closed base Good) working

theorem Node.commit_working (working : Working base Good inst) (sound : node.Sound Good) :
    Working base Good (node.commit inst).2 ∧ (node.commit inst).1.Sound Good :=
  Node.commit_kept (Working.closed base Good) working sound

theorem Node.change_working {update : NodeInfo → Option NodeInfo}
    (keeps : KeepsGood Good update) (working : Working base Good inst)
    (sound : node.Sound Good) :
    Working base Good (node.change update inst).2.2 ∧
      (node.change update inst).2.1.Sound Good :=
  Node.change_kept (Working.closed base Good) keeps working sound

section Edges

variable (closed : EdgeClosed Good)

include closed

theorem Node.addHalfEdge_working (direction : Direction) (other : String)
    (working : Working base Good inst) (sound : node.Sound Good) :
    Working base Good (node.addHalfEdge direction other inst).2.2 ∧
      (node.addHalfEdge direction other inst).2.1.Sound Good :=
  Node.change_working (closed.addEdge direction other) working sound

theorem Node.removeHalfEdge_working (direction : Direction) (other : String)
    (working : Working base Good inst) (sound : node.Sound Good) :
    Working base Good (node.removeHalfEdge direction other inst).2.2 ∧
      (node.removeHalfEdge direction other inst).2.1.Sound Good :=
  Node.change_working (closed.removeEdge direction other) working sound

theorem Node.addEdge_working {other : Node} (direction : Direction)
    (working : Working base Good inst) (sound : node.Sound Good) (otherSound : other.Sound Good) :
    Working base Good (node.addEdge direction other inst).2.2.2 ∧
      (node.addEdge direction other inst).2.1.Sound Good ∧
      (node.addEdge direction other inst).2.2.1.Sound Good := by
  have half := Node.addHalfEdge_working closed direction other.name working sound
  unfold Node.addEdge
  generalize node.addHalfEdge direction other.name inst = result at half ⊢
  obtain ⟨success, changed, changedInst⟩ := result
  cases success with
  | false => exact ⟨half.1, half.2, otherSound⟩
  | true =>
      have back := Node.addHalfEdge_working closed direction.opposite changed.name half.1
        otherSound
      exact ⟨back.1, half.2, back.2⟩

theorem Node.removeEdge_working {other : Node} (direction : Direction)
    (working : Working base Good inst) (sound : node.Sound Good) (otherSound : other.Sound Good) :
    Working base Good (node.removeEdge direction other inst).2.2.2 ∧
      (node.removeEdge direction other inst).2.1.Sound Good ∧
      (node.removeEdge direction other inst).2.2.1.Sound Good :=
  Node.removeEdge_kept (Working.closed base Good) closed direction working sound otherSound

theorem Node.addSelfLoop_working (working : Working base Good inst) (sound : node.Sound Good) :
    Working base Good (node.addSelfLoop inst).2 ∧ (node.addSelfLoop inst).1.Sound Good :=
  Node.addSelfLoop_kept (Working.closed base Good) closed working sound

theorem Node.removeAllEdges_working (direction : Direction)
    (working : Working base Good inst) (sound : node.Sound Good) :
    Working base Good (node.removeAllEdges direction inst).2 ∧
      (node.removeAllEdges direction inst).1.Sound Good :=
  Node.removeAllEdges_kept (Working.closed base Good) closed direction working sound

theorem Node.detach_working {version : Nat} {removed : Node} {after : GraphInstance}
    (working : Working base Good inst) (sound : node.Sound Good)
    (detached : node.detach version inst = some (removed, after)) :
    Working base Good after ∧ removed.Sound Good :=
  Node.detach_kept (Working.closed base Good) closed working sound detached

end Edges

/-- `add_graph_version` keeps the working set good when recording the version
does. -/
theorem Node.addGraphVersion_working {version : Nat}
    (working : Working base Good inst) (sound : node.Sound Good)
    (records : ∀ info, Good node.name info →
      (∀ graphVersion ∈ info.graphVersions, graphVersion < version) →
      Good node.name { info with graphVersions := info.graphVersions ++ [version] }) :
    Working base Good (node.addGraphVersion version inst).2 ∧
      (node.addGraphVersion version inst).1.Sound Good :=
  Node.addGraphVersion_kept (Working.closed base Good) working sound records

theorem Working.version_le (working : Working base Good inst) :
    inst.version ≤ base.changelist.currentVersion + 1 := by
  unfold Instance.version
  rw [working.changelist]
  split <;> omega

theorem Working.le_version (working : Working base Good inst) :
    base.changelist.currentVersion ≤ inst.version := by
  unfold Instance.version
  rw [working.changelist]
  omega

theorem Working.version_of_pending (working : Working base Good inst)
    (changed : 0 < inst.pending) : inst.version = base.changelist.currentVersion + 1 := by
  rw [Instance.version_of_pending changed, working.changelist]

end Transaction

/-! ## Records derived from the committed ones -/

/-- A content the record of a node may have during a transaction. -/
structure Derived (base : GraphInstance) (floor : Nat) (name : String) (info : NodeInfo) :
    Prop where
  wf : info.WF
  extended : (base.readNode name).Extends info
  graphVersions : ∀ graphVersion ∈ info.graphVersions,
    graphVersion ∈ (base.readNode name).graphVersions ∨
      (floor ≤ graphVersion ∧ graphVersion ≤ base.changelist.currentVersion + 1)

section Derivation

variable {base : GraphInstance} {floor : Nat} {name : String} {info : NodeInfo}

theorem Derived.advance {changed : NodeInfo} {present : Direction → String → Prop}
    (derived : Derived base floor name info) (advance : info.Advance changed present) :
    Derived base floor name changed where
  wf := advance.wf
  extended := derived.extended.trans advance.extends
  graphVersions := by
    intro graphVersion member
    rw [advance.graphVersions] at member
    exact derived.graphVersions graphVersion member

theorem Derived.recordVersion {version : Nat} (derived : Derived base floor name info)
    (above : floor ≤ version) (below : version ≤ base.changelist.currentVersion + 1)
    (newest : ∀ graphVersion ∈ info.graphVersions, graphVersion < version) :
    Derived base floor name { info with graphVersions := info.graphVersions ++ [version] } where
  wf :=
    { edges := derived.wf.edges
      tags := derived.wf.tags
      graphVersions := derived.wf.graphVersions.append_singleton newest }
  extended :=
    { listVersion := derived.extended.listVersion
      graphVersions := derived.extended.graphVersions.trans (List.prefix_append _ _)
      pastEdges := derived.extended.pastEdges
      pastTags := derived.extended.pastTags }
  graphVersions := by
    intro graphVersion member
    rcases List.mem_append.mp member with old | new
    · exact derived.graphVersions graphVersion old
    · rw [List.mem_singleton.mp new]
      exact Or.inr ⟨above, below⟩

theorem Derived.edgeClosed (base : GraphInstance) (floor : Nat) :
    EdgeClosed (Derived base floor) where
  addEdge := fun _ _ _ _ _ derived added =>
    derived.advance (NodeInfo.addEdge_advance derived.wf added)
  removeEdge := fun _ _ _ _ _ derived removed =>
    derived.advance (NodeInfo.removeEdge_advance derived.wf removed)

theorem Derived.keeps_updateTag (key : String) (values : List String) :
    KeepsGood (Derived base floor) fun info => some (info.updateTag key values) := by
  intro name info changed derived updated
  simp only [Option.some.injEq] at updated
  rw [← updated]
  exact derived.advance (NodeInfo.updateTag_advance derived.wf key values)

theorem Derived.keeps_deleteTag (key : String) :
    KeepsGood (Derived base floor) fun info => info.deleteTag key :=
  fun _ _ _ derived deleted => derived.advance (NodeInfo.deleteTag_advance derived.wf deleted)

theorem Derived.keeps_setType (type : NodeType) :
    KeepsGood (Derived base floor) fun info => some (info.setType type) := by
  intro name info changed derived updated
  simp only [Option.some.injEq] at updated
  rw [← updated]
  exact derived.advance (NodeInfo.setType_advance derived.wf type)

end Derivation

end Rangexx
