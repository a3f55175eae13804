import Rangexx.CallParts
import Rangexx.NodeEdits
import Rangexx.TransactionLiveness

/-!
# Removals are complete and local

The effect of `remove` and of the end of its transaction, as other node objects
show it.  Only the symmetry of the edges between live nodes is assumed.
-/

namespace Rangexx

namespace GraphDB

/-- Every edge between live nodes is shown at both ends. -/
def SymmetricEdges (graph : GraphDB) : Prop :=
  ∀ name other object otherObject direction, graph.getNode name = some object →
    graph.getNode other = some otherObject →
    other ∈ object.edgeNames direction graph.inst →
    name ∈ otherObject.edgeNames direction.opposite graph.inst

theorem mem_cursorNames_of_getNode {graph : GraphDB} {name : String} {object : Node}
    (found : graph.getNode name = some object) : name ∈ cursorNames graph.inst := by
  rw [mem_cursorNames]
  unfold getNode at found
  split at found
  · simp at found
  · rename_i stored
    rw [stored]
    rfl

/-- Only the names that a cursor finds are looked at. -/
instance (graph : GraphDB) : Decidable graph.SymmetricEdges :=
  decidable_of_iff
    (∀ name ∈ cursorNames graph.inst, ∀ other ∈ cursorNames graph.inst,
      ∀ object ∈ graph.getNode name, ∀ otherObject ∈ graph.getNode other,
        ∀ direction ∈ [Direction.forward, Direction.reverse],
          other ∈ object.edgeNames direction graph.inst →
          name ∈ otherObject.edgeNames direction.opposite graph.inst) (by
    constructor
    · intro symmetric name other object otherObject direction found foundOther
      exact symmetric name (mem_cursorNames_of_getNode found) other
        (mem_cursorNames_of_getNode foundOther) object found otherObject foundOther direction
        (by cases direction <;> simp)
    · intro symmetric name _ other _ object found otherObject foundOther direction _
      exact symmetric name other object otherObject direction found foundOther)

/-- The node as it is found in two graphs: it has lost its edges with the
removed node and nothing else. -/
structure KeptBeside (removed : String) (graph after : GraphDB) (object left : Node) : Prop where
  edges : ∀ direction target, target ∈ left.edgeNames direction after.inst ↔
    target ∈ object.edgeNames direction graph.inst ∧ target ≠ removed
  tags : ∀ key, (left.tags after.inst).lookup key = (object.tags graph.inst).lookup key

section Objects

variable {graph : GraphDB} (settled : graph.Settled) {name : String}

include settled

theorem Settled.getNode_eq : graph.getNode name =
    if graph.inst.Live name then some (Node.loaded graph.inst name) else none :=
  getNode_current settled.committed settled.wanted name

theorem Settled.getNode_eq_some_iff {object : Node} : graph.getNode name = some object ↔
    graph.inst.Live name ∧ object = Node.loaded graph.inst name := by
  rw [settled.getNode_eq]
  split
  · rename_i live
    simp [live, eq_comm]
  · rename_i notLive
    simp [notLive]

theorem Settled.mem_edgeNames (direction : Direction) (other : String) :
    other ∈ (Node.loaded graph.inst name).edgeNames direction graph.inst ↔
      (graph.inst.readNode name).Present direction other :=
  Node.mem_neighbours_loaded settled.committed name direction other

theorem Settled.lookup_tags (key : String) :
    ((Node.loaded graph.inst name).tags graph.inst).lookup key =
      (graph.inst.readNode name).tagNow key :=
  Node.lookup_tags_loaded settled.committed name key

end Objects

/-- The instance that a removal leaves to the end of its transaction. -/
theorem Settled.remove_published {graph : GraphDB} (settled : graph.Settled)
    (noneRemoved : graph.removedNodes = []) {name : String} (live : graph.inst.Live name) :
    ∃ draft, Published graph.inst graph.inst.changelist.currentVersion graph.inst.Live
        (fun name => (graph.inst.readNode name).nodeType) [name] draft
        (graph.transaction [.getNode name, .remove 0]).inst ∧
      (∀ other key, (draft.readNode other).tagNow key = (graph.inst.readNode other).tagNow key) ∧
      (∀ side target, ¬ (draft.readNode name).Present side target) ∧
      ∀ other side target, other ≠ name → ((draft.readNode other).Present side target ↔
        (graph.inst.readNode other).Present side target ∧
          ¬ (target = name ∧ (graph.inst.readNode name).Present side.opposite other)) := by
  have committed := settled.committed
  obtain ⟨removed, inst, detached, result⟩ := RangeApi.detach_loaded committed live
  have edit := result.edit graph.inst.changelist.currentVersion
  have holds := Node.loaded_holds graph.inst name
  obtain ⟨_, _, touched, _, own, others⟩ := Node.detach_edges
    (fun _ _ drafted => drafted.derived.wf) (Drafted.edgeClosed _ _ _ _)
    (Edit.refl committed graph.inst.changelist.currentVersion)
    (holds.sound (Edit.refl committed graph.inst.changelist.currentVersion)) rfl detached
  rw [holds.initInfo] at others
  have draft : Draft graph.inst graph.inst.changelist.currentVersion graph.inst.Live
      (fun name => (graph.inst.readNode name).nodeType) inst :=
    ⟨edit, fun other isLive => edit.stored other ((committed.draft 0).stored other isLive)⟩
  have removedOld : ∀ gone ∈ [name], ∀ graphVersion ∈ (inst.readNode gone).graphVersions,
      graphVersion ≤ graph.inst.changelist.currentVersion := by
    intro gone _ graphVersion member
    have good := (result.edit (graph.inst.changelist.currentVersion + 2)).good gone
    rcases good.derived.graphVersions graphVersion member with old | ⟨above, le⟩
    · exact committed.graphVersions gone graphVersion old
    · omega
  have ended : (graph.transaction [.getNode name, .remove 0]).inst =
      (({ graph with inst := inst, removedNodes := [name] } : GraphDB).endTxn
        graph.inst.version false).inst := by
    have obtained : (⟨graph, []⟩ : OpenTxn).apply (.getNode name) =
        ⟨graph, [Node.loaded graph.inst name]⟩ := by
      simp [OpenTxn.apply, settled.getNode_eq, live]
    have isRemoved : (⟨graph, [Node.loaded graph.inst name]⟩ : OpenTxn).apply (.remove 0) =
        ⟨{ graph with inst := inst, removedNodes := [name] }, [removed]⟩ := by
      have sameDetach : (Node.loaded graph.inst name).detach graph.version graph.inst =
          some (removed, inst) := detached
      simp [OpenTxn.apply, GraphDB.remove, sameDetach, noneRemoved, result.sameName]
    change (([TxnOp.getNode name, .remove 0].foldl OpenTxn.apply ⟨graph, []⟩).graph.endTxn
      graph.version false).inst = _
    rw [List.foldl_cons, obtained, List.foldl_cons, isRemoved]
    rfl
  rw [ended]
  have published := @endTxn_draft _ _ _ _
    { graph with inst := inst, removedNodes := [name] } committed (Nat.le_succ _) draft touched
    removedOld
  refine ⟨inst, published, ?_, own, others⟩
  intro other key
  exact (result.tagsKept.good other).tags key

/-- The node is gone with all its edges, and nothing else has changed. -/
structure RemovedFrom (name : String) (graph after : GraphDB) : Prop where
  notFound : after.getNode name = none
  noEdges : ∀ direction, (Node.createNode name).edgeNames direction after.inst = []
  notLinked : ∀ other left, after.getNode other = some left →
    ∀ direction, name ∉ left.edgeNames direction after.inst
  kept : ∀ other object, other ≠ name → graph.getNode other = some object →
    ∃ left, after.getNode other = some left ∧ KeptBeside name graph after object left
  noneNew : ∀ other left, after.getNode other = some left → (graph.getNode other).isSome

/-- The records of `after` are those of `graph` without the removed node. -/
theorem Settled.removedFrom {graph after : GraphDB} (settled : graph.Settled)
    (settledAfter : after.Settled) {name : String}
    (live : ∀ other, after.inst.Live other ↔ graph.inst.Live other ∧ other ≠ name)
    (own : ∀ side target, ¬ (after.inst.readNode name).Present side target)
    (others : ∀ other side target, graph.inst.Live other → other ≠ name →
      ((after.inst.readNode other).Present side target ↔
        (graph.inst.readNode other).Present side target ∧ target ≠ name))
    (tags : ∀ other key, (after.inst.readNode other).tagNow key =
      (graph.inst.readNode other).tagNow key) : RemovedFrom name graph after where
  notFound := by
    rw [settledAfter.getNode_eq, if_neg fun still => ((live name).mp still).2 rfl]
  noEdges direction := by
    refine List.eq_nil_iff_forall_not_mem.mpr fun other member => ?_
    have wf : ((Node.createNode name).initInfo after.inst).WF := settledAfter.committed.wf name
    exact own direction other ((Node.mem_neighbours wf direction other).mp member)
  notLinked := by
    intro other left found direction member
    obtain ⟨otherLive, rfl⟩ := settledAfter.getNode_eq_some_iff.mp found
    obtain ⟨wasLive, notSame⟩ := (live other).mp otherLive
    have present := (settledAfter.mem_edgeNames direction name).mp member
    exact ((others other direction name wasLive notSame).mp present).2 rfl
  kept := by
    intro other object notSame found
    obtain ⟨wasLive, rfl⟩ := settled.getNode_eq_some_iff.mp found
    refine ⟨_, settledAfter.getNode_eq_some_iff.mpr ⟨(live other).mpr ⟨wasLive, notSame⟩, rfl⟩,
      ?_, ?_⟩
    · intro direction target
      rw [settledAfter.mem_edgeNames, settled.mem_edgeNames]
      exact others other direction target wasLive notSame
    · intro key
      rw [settledAfter.lookup_tags, settled.lookup_tags, tags]
  noneNew := by
    intro other left found
    obtain ⟨otherLive, rfl⟩ := settledAfter.getNode_eq_some_iff.mp found
    rw [settled.getNode_eq, if_pos ((live other).mp otherLive).1]
    rfl

/-- Two hosts with edges both ways, one of them with an edge to itself. -/
def linkedHosts : List (List TxnOp) :=
  [[.create "h", .create "k", .updateTag 1 "os" ["linux"], .addEdge .forward 0 1 true,
    .addEdge .forward 1 0 true, .addEdge .forward 0 0 true]]

end GraphDB

end Rangexx
