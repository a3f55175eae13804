import Rangexx.DraftGraph

/-!
# Operations on drafts

What the operations of the write calls do to a draft.  Liveness and types follow
from the working set alone, whatever the node objects hold.  How the edges
change is said for objects that hold the current record of their node.
-/

namespace Rangexx

open AscendingScan

/-- Every record has the stronger property. -/
theorem Working.strengthen {base inst : GraphInstance} {Good Stronger : String → NodeInfo → Prop}
    (working : Working base Good inst) (stronger : ∀ name, Stronger name (inst.readNode name)) :
    Working base Stronger inst where
  changelist := working.changelist
  good := stronger
  objectVersion := working.objectVersion
  untouched := working.untouched
  stored := working.stored

section Creation

variable {base : GraphInstance} {floor : Nat}

theorem Node.addGraphVersion_of_below {node : Node} {version : Nat} {inst : GraphInstance}
    (below : ∀ graphVersion ∈ (node.initInfo inst).graphVersions, graphVersion < version) :
    node.addGraphVersion version inst =
      ({ node with info := some { node.initInfo inst with
          graphVersions := (node.initInfo inst).graphVersions ++ [version] } },
        (inst.writeRecord (.nodeMeta, node.name) (node.initInfo inst).listVersion
          { node.initInfo inst with
            graphVersions := (node.initInfo inst).graphVersions ++ [version] }).flush) := by
  have noneAbove : ¬ ((node.initInfo inst).graphVersions.any fun graphVersion =>
      version ≤ graphVersion) = true := by
    rw [List.any_eq_true]
    rintro ⟨graphVersion, member, above⟩
    have := below graphVersion member
    simp only [decide_eq_true_eq] at above
    omega
  unfold addGraphVersion
  dsimp only
  rw [if_neg noneAbove]

theorem Node.addGraphVersion_loaded {inst : GraphInstance} {name : String} {version : Nat}
    (sameRecords : ∀ other, inst.readNode other = base.readNode other)
    (present : (inst.getRecord (.node, name)).isSome)
    (below : ∀ graphVersion ∈ (base.readNode name).graphVersions, graphVersion < version) :
    ∃ after,
      (Node.loaded base name).addGraphVersion version inst =
        (⟨name, none, some { base.readNode name with
          graphVersions := (base.readNode name).graphVersions ++ [version] }⟩, after) ∧
      (∀ other, after.readNode other = base.readNode other) ∧
      (after.records.lookup (.node, name)).isSome := by
  refine ⟨_, Node.addGraphVersion_of_below below, ?_, ?_⟩
  · intro other
    rw [readNode_flush, readNode_writeRecord_nodeMeta]
    exact sameRecords other
  · rw [Instance.lookup_records_flush, Instance.getRecord_writeRecord, if_neg (by simp)]
    exact present

namespace GraphDB

theorem create_of_live (committed : Committed base) {name : String} (live : base.Live name) :
    (ofInstance base).create name = (none, ofInstance base) := by
  have reached : hasVersionOrHigher (ofInstance base).version
      ((Node.createNode name).initInfo (ofInstance base).inst).graphVersions = true := by
    rw [show (ofInstance base).version = _ from committed.version_eq]
    exact (hasVersionOrHigher_committed committed name).mpr live
  unfold create
  dsimp only
  rw [if_pos reached]

/-- A new object holds the version it was created for; the node record gets it
with the next write. -/
theorem create_of_absent (committed : Committed base) {name : String}
    (absent : ¬ base.Live name) :
    ∃ inst version,
      (ofInstance base).create name =
        (some ⟨name, none, some { base.readNode name with
          graphVersions := (base.readNode name).graphVersions ++ [version] }⟩,
          ofInstance inst) ∧
      base.changelist.currentVersion ≤ version ∧
      (∀ other, inst.readNode other = base.readNode other) ∧
      (inst.records.lookup (.node, name)).isSome := by
  have notReached : ¬ hasVersionOrHigher (ofInstance base).version
      ((Node.createNode name).initInfo (ofInstance base).inst).graphVersions = true := by
    rw [show (ofInstance base).version = _ from committed.version_eq]
    exact mt (hasVersionOrHigher_committed committed name).mp absent
  have below : ∀ graphVersion ∈ (base.readNode name).graphVersions,
      graphVersion < base.changelist.currentVersion := by
    intro graphVersion member
    rcases Nat.lt_or_eq_of_le (committed.graphVersions name graphVersion member) with lt | same
    · exact lt
    · rw [same] at member
      exact absurd member absent
  unfold create
  dsimp only
  rw [if_neg notReached]
  by_cases unwritten : ((Node.createNode name).initInfo (ofInstance base).inst).listVersion = 0
  · let start := base.writeRecord (.node, name) (base.readNode name).listVersion
      (base.readNode name)
    have version : start.version = base.changelist.currentVersion + 1 :=
      Instance.version_of_pending (Instance.pending_writeRecord_pos _ _ _ _)
    have sameRecords : ∀ other, start.readNode other = base.readNode other := by
      intro other
      rw [readNode_writeRecord_node]
      split
      · rename_i same
        rw [same]
      · rfl
    obtain ⟨after, added, records, stored⟩ := Node.addGraphVersion_loaded
      sameRecords
      (by simp [start, Instance.getRecord_writeRecord])
      fun graphVersion member => Nat.lt_succ_of_lt (below graphVersion member)
    refine ⟨after, base.changelist.currentVersion + 1, ?_, Nat.le_succ _, records, stored⟩
    rw [if_pos unwritten]
    change (some ((Node.loaded base name).addGraphVersion start.version start).1,
      ofInstance ((Node.loaded base name).addGraphVersion start.version start).2) = _
    rw [version, added]
  · have present : (base.getRecord (.node, name)).isSome := by
      rw [Option.isSome_iff_ne_none]
      intro missing
      apply unwritten
      change (base.readNode name).listVersion = 0
      rw [Instance.readNode, missing]
      rfl
    obtain ⟨after, added, records, stored⟩ :=
      Node.addGraphVersion_loaded (fun _ => rfl) present below
    refine ⟨after, base.changelist.currentVersion, ?_, Nat.le_refl _, records, stored⟩
    rw [if_neg unwritten]
    change (some ((Node.loaded base name).addGraphVersion base.version base).1,
      ofInstance ((Node.loaded base name).addGraphVersion base.version base).2) = _
    rw [committed.version_eq, added]

/-- A graph in which one node was created, or created again, with a type. -/
structure CreatedNode (base : GraphInstance) (floor : Nat) (name : String) (type : NodeType)
    (inst : GraphInstance) : Prop where
  draft : Draft base floor (fun other => other = name ∨ base.Live other)
    (fun other => if other = name then type else (base.readNode other).nodeType) inst
  touched : inst.Touched
  present : ∀ other, (inst.readNode other).Present = (base.readNode other).Present
  tags : ∀ other key, (inst.readNode other).tagNow key = (base.readNode other).tagNow key
  others : ∀ other, other ≠ name → inst.readNode other = base.readNode other

theorem setType_create (committed : Committed base) {name : String}
    (absent : ¬ base.Live name) (type : NodeType) :
    ∃ node graph inst, (ofInstance base).create name = (some node, graph) ∧
      graph.setType node type = (Node.loaded inst name, ofInstance inst) ∧
      ∀ floor, (floor ≤ base.changelist.currentVersion ∨
        floor = base.changelist.currentVersion + 1 ∧ (base.readNode name).listVersion = 0) →
        CreatedNode base floor name type inst := by
  obtain ⟨inst, version, created, reached, records, stored⟩ :=
    create_of_absent committed absent
  let info := ({ base.readNode name with
    graphVersions := (base.readNode name).graphVersions ++ [version] } : NodeInfo).setType type
  have written : ∀ other, (inst.writeRecord (.node, name) info.listVersion info).readNode other =
      if other = name then info else base.readNode other := by
    intro other
    rw [readNode_writeRecord_node, records]
  have loaded : (inst.writeRecord (.node, name) info.listVersion info).readNode name = info := by
    rw [written, if_pos rfl]
  refine ⟨_, _, inst.writeRecord (.node, name) info.listVersion info, created, ?_, ?_⟩
  · rw [Node.loaded, loaded]
    rfl
  intro floor floorOk
  have started : Working base (Derived base floor) (ofInstance base).inst :=
    committed.working floor
  have derived := create_working name started
    (floorOk.imp_right fun fresh => ⟨fresh.1, fun recreates => recreates.2.1 fresh.2⟩)
  rw [created] at derived
  have typed : Working base (Derived base floor)
      (inst.writeRecord (.node, name) info.listVersion info) :=
    (Node.change_working (Derived.keeps_setType type) derived.1 (derived.2.1 _ rfl)).1
  refine ⟨⟨typed.strengthen ?_, ?_⟩, Instance.touched_writeRecord _ _ _ _, ?_, ?_, ?_⟩
  · intro other
    have good := typed.good other
    refine ⟨good, ?_, ?_, ?_⟩
    · rw [written]
      split
      · rfl
      · rfl
    · intro isWritten live
      rw [written]
      split
      · exact Nat.succ_ne_zero _
      · rename_i differs
        exact isWritten other (live.resolve_left differs)
    · rw [written]
      split
      · rename_i same
        rw [hasVersionOrHigher_iff (by
          have wf := good.wf.graphVersions
          rw [written, if_pos same] at wf
          exact wf)]
        exact ⟨fun _ => Or.inl same, fun _ => ⟨version, List.mem_append_right _ (by simp), reached⟩⟩
      · rename_i differs
        rw [hasVersionOrHigher_committed committed]
        simp [differs]
  · rintro other (rfl | live)
    · exact stored
    · exact typed.stored other ((committed.draft floor).stored other live)
  · intro other
    rw [written]
    split
    · rename_i same
      rw [same]
      funext direction target
      have advance := NodeInfo.setType_advance
        ((derived.2.1 _ rfl).initInfo derived.1).wf type
      have kept := propext (advance.present direction target)
      cases direction <;> exact kept
    · rfl
  · intro other key
    rw [written]
    split
    · rename_i same
      rw [same]
      exact NodeInfo.setType_tagNow ((derived.2.1 _ rfl).initInfo derived.1).wf type key
    · rfl
  · intro other differs
    rw [written, if_neg differs]

end GraphDB

end Creation

/-! ## Half-edges -/

/-- An object that holds the current record of its node. -/
def Node.Holds (inst : GraphInstance) (node : Node) : Prop :=
  node.info = some (inst.readNode node.name)

theorem Node.loaded_holds (inst : GraphInstance) (name : String) :
    (Node.loaded inst name).Holds inst :=
  rfl

theorem Node.Holds.initInfo {inst : GraphInstance} {node : Node} (holds : node.Holds inst) :
    node.initInfo inst = inst.readNode node.name := by
  rw [Node.initInfo, holds, Option.getD_some]

theorem Node.Holds.sound {base inst : GraphInstance} {Good : String → NodeInfo → Prop}
    {node : Node} (holds : node.Holds inst) (working : Working base Good inst) :
    node.Sound Good := by
  intro info loaded
  rw [holds, Option.some.injEq] at loaded
  rw [← loaded]
  exact working.good node.name

section Frame

variable (node : Node) (update : NodeInfo → Option NodeInfo) (inst : GraphInstance)

theorem Node.readNode_change_ne {name : String} (differs : name ≠ node.name) :
    (node.change update inst).2.2.readNode name = inst.readNode name := by
  cases updated : update (node.initInfo inst) with
  | none => rw [Node.change_of_none updated]
  | some changed => rw [Node.change_of_some updated, readNode_writeRecord_node, if_neg differs]

theorem Node.records_change : (node.change update inst).2.2.records = inst.records := by
  cases updated : update (node.initInfo inst) with
  | none => rw [Node.change_of_none updated]
  | some changed =>
      rw [Node.change_of_some updated]
      rfl

variable {node update inst}

theorem Node.change_of_false (failed : (node.change update inst).1 = false) :
    (node.change update inst).2.2 = inst := by
  cases updated : update (node.initInfo inst) with
  | none => rw [Node.change_of_none updated]
  | some changed =>
      rw [Node.change_of_some updated] at failed
      simp at failed

theorem Node.touched_of_true (succeeded : (node.change update inst).1 = true) :
    (node.change update inst).2.2.Touched := by
  cases updated : update (node.initInfo inst) with
  | none =>
      rw [Node.change_of_none updated] at succeeded
      simp at succeeded
  | some changed =>
      rw [Node.change_of_some updated]
      exact Instance.touched_writeRecord _ _ _ _

theorem Node.touched_change (touched : inst.Touched) :
    (node.change update inst).2.2.Touched := by
  cases result : (node.change update inst).1 with
  | false =>
      rw [Node.change_of_false result]
      exact touched
  | true => exact Node.touched_of_true result

end Frame

theorem Node.addHalfEdge_cases {node : Node} {inst : GraphInstance}
    (wf : (node.initInfo inst).WF) (direction : Direction) (other : String) :
    ((node.initInfo inst).Present direction other ∧
      node.addHalfEdge direction other inst =
        (false, { node with info := some (node.initInfo inst) }, inst)) ∨
    ∃ changed, ¬ (node.initInfo inst).Present direction other ∧
      (node.initInfo inst).Advance changed (fun side name =>
        (node.initInfo inst).Present side name ∨ (side = direction ∧ name = other)) ∧
      node.addHalfEdge direction other inst =
        (true, { node with info := some changed },
          inst.writeRecord (.node, node.name) changed.listVersion changed) := by
  cases updated : (node.initInfo inst).addEdge direction other with
  | none =>
      left
      exact ⟨(NodeInfo.addEdge_eq_none_iff wf direction other).mp updated,
        Node.change_of_none updated⟩
  | some changed =>
      right
      refine ⟨changed, ?_, NodeInfo.addEdge_advance wf updated, Node.change_of_some updated⟩
      intro present
      rw [(NodeInfo.addEdge_eq_none_iff wf direction other).mpr present] at updated
      simp at updated

theorem Node.removeHalfEdge_cases {node : Node} {inst : GraphInstance}
    (wf : (node.initInfo inst).WF) (direction : Direction) (other : String) :
    (¬ (node.initInfo inst).Present direction other ∧
      node.removeHalfEdge direction other inst =
        (false, { node with info := some (node.initInfo inst) }, inst)) ∨
    ∃ changed, (node.initInfo inst).Present direction other ∧
      (node.initInfo inst).Advance changed (fun side name =>
        (node.initInfo inst).Present side name ∧ ¬ (side = direction ∧ name = other)) ∧
      node.removeHalfEdge direction other inst =
        (true, { node with info := some changed },
          inst.writeRecord (.node, node.name) changed.listVersion changed) := by
  cases updated : (node.initInfo inst).removeEdge direction other with
  | none =>
      left
      exact ⟨(NodeInfo.removeEdge_eq_none_iff wf direction other).mp updated,
        Node.change_of_none updated⟩
  | some changed =>
      right
      refine ⟨changed, ?_, NodeInfo.removeEdge_advance wf updated, Node.change_of_some updated⟩
      by_contra absent
      rw [(NodeInfo.removeEdge_eq_none_iff wf direction other).mpr absent] at updated
      simp at updated

theorem Node.addHalfEdge_present {node : Node} {inst : GraphInstance}
    (record : node.initInfo inst = inst.readNode node.name) (wf : (inst.readNode node.name).WF)
    (direction : Direction) (other name : String) (side : Direction) (target : String) :
    ((node.addHalfEdge direction other inst).2.2.readNode name).Present side target ↔
      (inst.readNode name).Present side target ∨
        (name = node.name ∧ side = direction ∧ target = other) := by
  rw [← record] at wf
  rcases Node.addHalfEdge_cases wf direction other with ⟨present, result⟩ |
    ⟨changed, _, advance, result⟩
  · rw [result]
    rw [record] at present
    refine ⟨Or.inl, ?_⟩
    rintro (old | ⟨rfl, rfl, rfl⟩)
    · exact old
    · exact present
  · rw [result, readNode_writeRecord_node]
    split
    · rename_i same
      rw [advance.present, record, same]
      simp
    · rename_i differs
      simp [differs]

theorem Node.removeHalfEdge_present {node : Node} {inst : GraphInstance}
    (record : node.initInfo inst = inst.readNode node.name) (wf : (inst.readNode node.name).WF)
    (direction : Direction) (other name : String) (side : Direction) (target : String) :
    ((node.removeHalfEdge direction other inst).2.2.readNode name).Present side target ↔
      (inst.readNode name).Present side target ∧
        ¬ (name = node.name ∧ side = direction ∧ target = other) := by
  rw [← record] at wf
  rcases Node.removeHalfEdge_cases wf direction other with ⟨absent, result⟩ |
    ⟨changed, _, advance, result⟩
  · rw [result]
    rw [record] at absent
    refine ⟨fun old => ⟨old, ?_⟩, And.left⟩
    rintro ⟨rfl, rfl, rfl⟩
    exact absent old
  · rw [result, readNode_writeRecord_node]
    split
    · rename_i same
      rw [advance.present, record, same]
      simp
    · rename_i differs
      simp [differs]

/-! ## Edges between two nodes -/

section Edges

variable {node other : Node} {inst : GraphInstance} (direction : Direction)

theorem Node.addEdge_of_false (failed : (node.addEdge direction other inst).1 = false) :
    (node.addEdge direction other inst).2.2.2 = inst := by
  unfold Node.addEdge at failed ⊢
  have half : (node.addHalfEdge direction other.name inst).1 = false →
      (node.addHalfEdge direction other.name inst).2.2 = inst := Node.change_of_false
  generalize node.addHalfEdge direction other.name inst = result at half failed ⊢
  obtain ⟨success, changed, changedInst⟩ := result
  cases success with
  | false => exact half rfl
  | true => simp at failed

theorem Node.addEdge_of_true (succeeded : (node.addEdge direction other inst).1 = true) :
    (node.addHalfEdge direction other.name inst).1 = true ∧
      (node.addEdge direction other inst).2.2.2 =
        (other.addHalfEdge direction.opposite node.name
          (node.addHalfEdge direction other.name inst).2.2).2.2 := by
  have sameName : (node.addHalfEdge direction other.name inst).2.1.name = node.name :=
    Node.change_name _ _ _
  unfold Node.addEdge at succeeded ⊢
  generalize node.addHalfEdge direction other.name inst = result at succeeded sameName ⊢
  obtain ⟨success, changed, changedInst⟩ := result
  cases success with
  | false => simp at succeeded
  | true =>
      dsimp only at sameName
      rw [← sameName]
      exact ⟨rfl, rfl⟩

theorem Node.removeEdge_of_false (failed : (node.removeEdge direction other inst).1 = false) :
    (node.removeEdge direction other inst).2.2.2 = inst := by
  unfold Node.removeEdge at failed ⊢
  have half : (node.removeHalfEdge direction other.name inst).1 = false →
      (node.removeHalfEdge direction other.name inst).2.2 = inst := Node.change_of_false
  generalize node.removeHalfEdge direction other.name inst = result at half failed ⊢
  obtain ⟨success, changed, changedInst⟩ := result
  cases success with
  | false => exact half rfl
  | true => simp at failed

theorem Node.removeEdge_of_true (succeeded : (node.removeEdge direction other inst).1 = true) :
    (node.removeHalfEdge direction other.name inst).1 = true ∧
      (node.removeEdge direction other inst).2.1 =
        (node.removeHalfEdge direction other.name inst).2.1 ∧
      (node.removeEdge direction other inst).2.2.2 =
        (other.removeHalfEdge direction.opposite node.name
          (node.removeHalfEdge direction other.name inst).2.2).2.2 := by
  have sameName : (node.removeHalfEdge direction other.name inst).2.1.name = node.name :=
    Node.change_name _ _ _
  unfold Node.removeEdge at succeeded ⊢
  generalize node.removeHalfEdge direction other.name inst = result at succeeded sameName ⊢
  obtain ⟨success, changed, changedInst⟩ := result
  cases success with
  | false => simp at succeeded
  | true =>
      dsimp only at sameName
      rw [← sameName]
      exact ⟨rfl, rfl, rfl⟩

/-- Both half-edges of an added edge, when its ends are two nodes. -/
theorem Node.addEdge_present (wf : ∀ name, (inst.readNode name).WF) (holds : node.Holds inst)
    (otherHolds : other.Holds inst) (differ : node.name ≠ other.name)
    (succeeded : (node.addEdge direction other inst).1 = true) (name : String)
    (side : Direction) (target : String) :
    ((node.addEdge direction other inst).2.2.2.readNode name).Present side target ↔
      (inst.readNode name).Present side target ∨
        (name = node.name ∧ side = direction ∧ target = other.name) ∨
        (name = other.name ∧ side = direction.opposite ∧ target = node.name) := by
  obtain ⟨_, result⟩ := Node.addEdge_of_true direction succeeded
  have sameRecord : (node.addHalfEdge direction other.name inst).2.2.readNode other.name =
      inst.readNode other.name := Node.readNode_change_ne _ _ _ differ.symm
  have otherRecord : other.initInfo (node.addHalfEdge direction other.name inst).2.2 =
      (node.addHalfEdge direction other.name inst).2.2.readNode other.name := by
    rw [sameRecord, Node.initInfo, otherHolds, Option.getD_some]
  rw [result, Node.addHalfEdge_present otherRecord (by rw [sameRecord]; exact wf _),
    Node.addHalfEdge_present holds.initInfo (wf _), or_assoc]

theorem Node.removeEdge_present (wf : ∀ name, (inst.readNode name).WF)
    (holds : node.Holds inst) (otherHolds : other.Holds inst)
    (differ : node.name ≠ other.name)
    (succeeded : (node.removeEdge direction other inst).1 = true) (name : String)
    (side : Direction) (target : String) :
    ((node.removeEdge direction other inst).2.2.2.readNode name).Present side target ↔
      ((inst.readNode name).Present side target ∧
        ¬ (name = node.name ∧ side = direction ∧ target = other.name)) ∧
        ¬ (name = other.name ∧ side = direction.opposite ∧ target = node.name) := by
  obtain ⟨_, _, result⟩ := Node.removeEdge_of_true direction succeeded
  have sameRecord : (node.removeHalfEdge direction other.name inst).2.2.readNode other.name =
      inst.readNode other.name := Node.readNode_change_ne _ _ _ differ.symm
  have otherRecord : other.initInfo (node.removeHalfEdge direction other.name inst).2.2 =
      (node.removeHalfEdge direction other.name inst).2.2.readNode other.name := by
    rw [sameRecord, Node.initInfo, otherHolds, Option.getD_some]
  rw [result, Node.removeHalfEdge_present otherRecord (by rw [sameRecord]; exact wf _),
    Node.removeHalfEdge_present holds.initInfo (wf _)]

end Edges

/-- Every edge is known at both ends and no node is its own neighbour. -/
structure Balanced (inst : GraphInstance) : Prop where
  symmetric : ∀ name direction other, (inst.readNode name).Present direction other →
    (inst.readNode other).Present direction.opposite name
  loopFree : ∀ name direction, ¬ (inst.readNode name).Present direction name

@[simp]
theorem Direction.opposite_opposite (direction : Direction) :
    direction.opposite.opposite = direction := by
  cases direction <;> rfl

theorem Balanced.empty : Balanced Instance.empty where
  symmetric := by
    intro name direction other present
    exact absurd present (by cases direction <;> exact edgeAt_nil _ _)
  loopFree := by
    intro name direction
    cases direction <;> exact edgeAt_nil _ _

/-- `Balanced` only looks at the edges. -/
theorem Balanced.of_present {inst after : GraphInstance} (balanced : Balanced inst)
    (same : ∀ name, (after.readNode name).Present = (inst.readNode name).Present) :
    Balanced after where
  symmetric := by
    intro name direction other
    rw [same, same]
    exact balanced.symmetric name direction other
  loopFree := by
    intro name direction
    rw [same]
    exact balanced.loopFree name direction

section Balance

variable {node other : Node} {inst : GraphInstance} (direction : Direction)

theorem Balanced.addEdge (balanced : Balanced inst) (wf : ∀ name, (inst.readNode name).WF)
    (holds : node.Holds inst) (otherHolds : other.Holds inst)
    (differ : node.name ≠ other.name) :
    Balanced (node.addEdge direction other inst).2.2.2 := by
  cases success : (node.addEdge direction other inst).1 with
  | false =>
      rw [Node.addEdge_of_false direction success]
      exact balanced
  | true =>
      have present := Node.addEdge_present direction wf holds otherHolds differ success
      constructor
      · intro name side target
        rw [present, present]
        rintro (old | ⟨rfl, rfl, rfl⟩ | ⟨rfl, rfl, rfl⟩)
        · exact Or.inl (balanced.symmetric name side target old)
        · simp
        · simp
      · intro name side
        rw [present]
        rintro (old | ⟨rfl, _, same⟩ | ⟨rfl, _, same⟩)
        · exact balanced.loopFree name side old
        · exact differ same
        · exact differ same.symm

theorem Balanced.removeEdge (balanced : Balanced inst) (wf : ∀ name, (inst.readNode name).WF)
    (holds : node.Holds inst) (otherHolds : other.Holds inst) :
    Balanced (node.removeEdge direction other inst).2.2.2 := by
  cases success : (node.removeEdge direction other inst).1 with
  | false =>
      rw [Node.removeEdge_of_false direction success]
      exact balanced
  | true =>
      -- There is no loop to remove, so the ends are two nodes.
      have differ : node.name ≠ other.name := by
        intro same
        have half := (Node.removeEdge_of_true direction success).1
        have nodeWF : (node.initInfo inst).WF := by
          rw [holds.initInfo]
          exact wf _
        rcases Node.removeHalfEdge_cases nodeWF direction other.name with ⟨_, result⟩ |
          ⟨_, isPresent, _⟩
        · rw [result] at half
          simp at half
        · rw [holds.initInfo, ← same] at isPresent
          exact balanced.loopFree _ _ isPresent
      have present := Node.removeEdge_present direction wf holds otherHolds differ success
      constructor
      · intro name side target
        rw [present, present]
        rintro ⟨⟨old, notForward⟩, notBack⟩
        refine ⟨⟨balanced.symmetric name side target old, ?_⟩, ?_⟩
        · rintro ⟨rfl, rfl, rfl⟩
          exact notBack ⟨rfl, by simp, rfl⟩
        · rintro ⟨rfl, sameSide, rfl⟩
          refine notForward ⟨rfl, ?_, rfl⟩
          rw [← Direction.opposite_opposite side, sameSide, Direction.opposite_opposite]
      · intro name side
        rw [present]
        rintro ⟨⟨old, _⟩, _⟩
        exact balanced.loopFree name side old

end Balance

end Rangexx
