import Rangexx.NodeRemoval

/-!
# Inside an open transaction

What the operations of a graph transaction do, one at a time and from any state
of it.  All of them but `create` only write node records.  `create` puts its
node on record and flushes.
-/

namespace Rangexx

open AscendingScan

/-! ## Operations that only write node records -/

/-- Writing a node record keeps the property. -/
def WriteClosed (Keeps : GraphInstance → Prop) : Prop :=
  ∀ inst name objectVersion info, Keeps inst →
    Keeps (inst.writeRecord (.node, name) objectVersion info)

theorem OpenTxn.call_keeps {Keeps : GraphInstance → Prop} (txn : OpenTxn) (node : Nat)
    {function : Node → GraphInstance → Bool × Node × GraphInstance}
    (keeps : ∀ object inst, Keeps inst → Keeps (function object inst).2.2)
    (holds : Keeps txn.graph.inst) : Keeps (txn.call node function).2.graph.inst := by
  unfold OpenTxn.call
  split
  · exact holds
  · exact keeps _ _ holds

theorem OpenTxn.callBoth_keeps {Keeps : GraphInstance → Prop} (txn : OpenTxn)
    (direction : Direction) (node other : Nat) (updateOther : Bool)
    {function : Direction → String → Node → GraphInstance → Bool × Node × GraphInstance}
    (keeps : ∀ direction name object inst, Keeps inst →
      Keeps (function direction name object inst).2.2) (holds : Keeps txn.graph.inst) :
    Keeps (txn.callBoth direction node other updateOther function).graph.inst := by
  unfold OpenTxn.callBoth
  split
  · rename_i object otherObject _ _
    have first := txn.call_keeps node (keeps direction otherObject.name) holds
    split
    · rename_i after result
      rw [result] at first
      exact first
    · rename_i after result
      rw [result] at first
      split
      · exact OpenTxn.call_keeps after other (keeps direction.opposite object.name) first
      · exact first
  · exact holds

section Writes

variable {Keeps : GraphInstance → Prop} {inst : GraphInstance} (closed : WriteClosed Keeps)

include closed

theorem Node.change_closed (node : Node) (update : NodeInfo → Option NodeInfo)
    (holds : Keeps inst) : Keeps (node.change update inst).2.2 := by
  cases updated : update (node.initInfo inst) with
  | none =>
      rw [Node.change_of_none updated]
      exact holds
  | some changed =>
      rw [Node.change_of_some updated]
      exact closed inst _ _ _ holds

theorem Node.removeEdge_closed (node : Node) (direction : Direction) (other : Node)
    (holds : Keeps inst) : Keeps (node.removeEdge direction other inst).2.2.2 := by
  have first : Keeps (node.removeHalfEdge direction other.name inst).2.2 :=
    node.change_closed closed _ holds
  unfold Node.removeEdge
  generalize node.removeHalfEdge direction other.name inst = result at first ⊢
  obtain ⟨success, changed, changedInst⟩ := result
  cases success with
  | false => exact first
  | true => exact other.change_closed closed _ first

theorem Node.addSelfLoop_closed (node : Node) (holds : Keeps inst) :
    Keeps (node.addSelfLoop inst).2 := by
  have first : Keeps (node.addHalfEdge .forward node.name inst).2.2 :=
    node.change_closed closed _ holds
  unfold Node.addSelfLoop
  generalize node.addHalfEdge .forward node.name inst = result at first ⊢
  obtain ⟨success, changed, changedInst⟩ := result
  cases success with
  | false => exact first
  | true => exact changed.change_closed closed _ first

theorem Node.removeAllEdges_closed (node : Node) (direction : Direction) (holds : Keeps inst) :
    Keeps (node.removeAllEdges direction inst).2 := by
  unfold Node.removeAllEdges
  generalize node.neighbours direction inst = affected
  induction affected generalizing node inst with
  | nil => exact holds
  | cons neighbour rest ih => exact ih _ (node.removeEdge_closed closed direction neighbour holds)

theorem Node.detach_closed {node removed : Node} {version : Nat} {after : GraphInstance}
    (detached : node.detach version inst = some (removed, after)) (holds : Keeps inst) :
    Keeps after := by
  unfold Node.detach at detached
  dsimp only at detached
  split at detached
  · simp at detached
  · rw [Option.some.injEq] at detached
    have looped := Node.addSelfLoop_closed closed
      { node with info := some (node.initInfo inst) } holds
    generalize ({ node with info := some (node.initInfo inst) } : Node).addSelfLoop inst =
      first at looped detached
    have reversed := Node.removeAllEdges_closed closed first.1 .reverse looped
    generalize first.1.removeAllEdges .reverse first.2 = second at reversed detached
    have forwarded := Node.removeAllEdges_closed closed second.1 .forward reversed
    rw [detached] at forwarded
    exact forwarded

theorem GraphDB.remove_closed (graph : GraphDB) (object : Node) (holds : Keeps graph.inst) :
    Keeps (graph.remove object).2.inst := by
  unfold GraphDB.remove
  cases detached : object.detach graph.version graph.inst with
  | none => exact holds
  | some result => exact Node.detach_closed closed detached holds

/-- What the writes of node records keep, every operation but `create` keeps. -/
theorem OpenTxn.apply_closed {op : TxnOp} (txn : OpenTxn) (notCreate : ∀ name, op ≠ .create name)
    (holds : Keeps txn.graph.inst) : Keeps (txn.apply op).graph.inst := by
  cases op with
  | getNode name =>
      simp only [OpenTxn.apply]
      split
      · exact holds
      · exact holds
  | create name => exact absurd rfl (notCreate name)
  | remove node =>
      simp only [OpenTxn.apply]
      split
      · exact holds
      · rename_i object found
        have removed := txn.graph.remove_closed closed object holds
        split
        · rename_i graph result
          rw [result] at removed
          exact removed
        · rename_i after graph result
          rw [result] at removed
          exact removed
  | neighbours direction node =>
      simp only [OpenTxn.apply]
      split
      · exact holds
      · exact holds
  | addEdge direction node other updateOther =>
      exact txn.callBoth_keeps direction node other updateOther
        (fun _ _ object _ holds => object.change_closed closed _ holds) holds
  | removeEdge direction node other updateOther =>
      exact txn.callBoth_keeps direction node other updateOther
        (fun _ _ object _ holds => object.change_closed closed _ holds) holds
  | updateTag node key values =>
      exact txn.call_keeps node
        (fun object _ holds => object.change_closed closed _ holds) holds
  | deleteTag node key =>
      exact txn.call_keeps node
        (fun object _ holds => object.change_closed closed _ holds) holds
  | setType node type =>
      exact txn.call_keeps node
        (fun object _ holds => object.change_closed closed _ holds) holds

end Writes

/-- The stored records and the changelist are as in `start`. -/
def Instance.SameStore (start inst : GraphInstance) : Prop :=
  inst.records = start.records ∧ inst.changelist = start.changelist

theorem sameStore_closed (start : GraphInstance) : WriteClosed start.SameStore :=
  fun _ _ _ _ same => same

theorem pending_closed : WriteClosed fun inst : GraphInstance => 0 < inst.pending :=
  fun inst name objectVersion info _ =>
    inst.pending_writeRecord_pos (.node, name) objectVersion info

/-! ## Creation -/

namespace GraphDB

/-- The instance in which `create` records the version of its node. -/
def prepared (graph : GraphDB) (name : String) : GraphInstance :=
  if (graph.inst.readNode name).listVersion = 0 then
    ((Node.loaded graph.inst name).commit graph.inst).2
  else graph.inst

theorem create_eq (graph : GraphDB) (name : String) :
    graph.create name =
      if hasVersionOrHigher graph.version (graph.inst.readNode name).graphVersions then
        (none, graph)
      else
        (some ((Node.loaded graph.inst name).addGraphVersion (graph.prepared name).version
            (graph.prepared name)).1,
          { graph with inst := ((Node.loaded graph.inst name).addGraphVersion
              (graph.prepared name).version (graph.prepared name)).2 }) := by
  unfold create prepared
  dsimp only [Node.createNode, Node.initInfo, Option.getD_none]
  split
  · rfl
  · split
    · rfl
    · rfl

theorem create_eq_none_iff (graph : GraphDB) (name : String) :
    (graph.create name).1 = none ↔
      hasVersionOrHigher graph.version (graph.inst.readNode name).graphVersions = true := by
  rw [create_eq]
  split
  · rename_i listed
    simp [listed]
  · rename_i unlisted
    simp [unlisted]

theorem readNode_prepared (graph : GraphDB) (name other : String) :
    (graph.prepared name).readNode other = graph.inst.readNode other := by
  unfold prepared
  split
  · change (graph.inst.writeRecord (.node, name) _ (graph.inst.readNode name)).readNode other = _
    rw [readNode_writeRecord_node]
    split
    · rename_i same
      rw [same]
    · rfl
  · rfl

theorem version_le_prepared (graph : GraphDB) (name : String) :
    graph.version ≤ (graph.prepared name).version := by
  unfold prepared
  split
  · change graph.inst.version ≤
      (graph.inst.writeRecord (.node, name) _ (graph.inst.readNode name)).version
    rw [Instance.version_of_pending (Instance.pending_writeRecord_pos _ _ _ _),
      Instance.changelist_writeRecord]
    unfold Instance.version
    split <;> omega
  · exact Nat.le_refl _

/-- The node is on record by the time it is flushed. -/
theorem getRecord_prepared (graph : GraphDB) (name : String) :
    ((graph.prepared name).getRecord (.node, name)).isSome := by
  unfold prepared
  split
  · change ((graph.inst.writeRecord (.node, name) _ _).getRecord (.node, name)).isSome
    rw [Instance.getRecord_writeRecord, if_pos rfl]
    rfl
  · rename_i written
    rw [Option.isSome_iff_ne_none]
    intro missing
    apply written
    rw [Instance.readNode, missing]
    rfl

/-- The object that `create` returns, and the instance it leaves: the new
version is in the object and in the `NODE_META` record, and everything is
flushed. -/
theorem create_of_unlisted {graph : GraphDB} {name : String}
    (below : ∀ graphVersion ∈ (graph.inst.readNode name).graphVersions,
      graphVersion < (graph.prepared name).version)
    (unlisted : hasVersionOrHigher graph.version
      (graph.inst.readNode name).graphVersions = false) :
    let recorded : NodeInfo := { graph.inst.readNode name with
      graphVersions := (graph.inst.readNode name).graphVersions ++
        [(graph.prepared name).version] }
    graph.create name =
      (some ⟨name, none, some recorded⟩,
        { graph with inst := ((graph.prepared name).writeRecord (.nodeMeta, name)
            recorded.listVersion recorded).flush }) := by
  intro recorded
  have holds : (Node.loaded graph.inst name).initInfo (graph.prepared name) =
      graph.inst.readNode name := rfl
  rw [create_eq, if_neg (by simp [unlisted]),
    Node.addGraphVersion_of_below (by rw [holds]; exact below), holds]
  rfl

end GraphDB

theorem Instance.SameStore.of_prepared {start : GraphInstance} {graph : GraphDB}
    (same : start.SameStore graph.inst) (name : String) :
    start.SameStore (graph.prepared name) := by
  unfold GraphDB.prepared
  split
  · exact same
  · exact same

/-! ## Handles on nodes -/

/-- The two objects read the same node at the same version. -/
def Node.SameHandle (node other : Node) : Prop :=
  other.name = node.name ∧ other.wantedVersion = node.wantedVersion

theorem Node.SameHandle.trans {first second third : Node} (one : first.SameHandle second)
    (two : second.SameHandle third) : first.SameHandle third :=
  ⟨two.1.trans one.1, two.2.trans one.2⟩

theorem Node.change_sameHandle (node : Node) (update : NodeInfo → Option NodeInfo)
    (inst : GraphInstance) : node.SameHandle (node.change update inst).2.1 := by
  cases updated : update (node.initInfo inst) with
  | none =>
      rw [Node.change_of_none updated]
      exact ⟨rfl, rfl⟩
  | some changed =>
      rw [Node.change_of_some updated]
      exact ⟨rfl, rfl⟩

/-! ## Objects through a removal -/

/-- Adding and removing the half of an edge keeps the property of an object. -/
def HalfEdgeClosed (Keeps : Node → Prop) : Prop :=
  ∀ node direction other inst, Keeps node →
    Keeps (node.addHalfEdge direction other inst).2.1 ∧
      Keeps (node.removeHalfEdge direction other inst).2.1

section Objects

variable {Keeps : Node → Prop} (closed : HalfEdgeClosed Keeps) {node : Node}

include closed

theorem Node.removeEdge_object (holds : Keeps node) (direction : Direction) (other : Node)
    (inst : GraphInstance) : Keeps (node.removeEdge direction other inst).2.1 := by
  have first := (closed node direction other.name inst holds).2
  unfold Node.removeEdge
  generalize node.removeHalfEdge direction other.name inst = result at first ⊢
  obtain ⟨success, changed, changedInst⟩ := result
  cases success with
  | false => exact first
  | true => exact first

theorem Node.addSelfLoop_object (holds : Keeps node) (inst : GraphInstance) :
    Keeps (node.addSelfLoop inst).1 := by
  have first := (closed node .forward node.name inst holds).1
  unfold Node.addSelfLoop
  generalize node.addHalfEdge .forward node.name inst = result at first ⊢
  obtain ⟨success, changed, changedInst⟩ := result
  cases success with
  | false => exact first
  | true => exact (closed changed .reverse changed.name changedInst first).1

theorem Node.removeAllEdges_object (holds : Keeps node) (direction : Direction)
    (inst : GraphInstance) : Keeps (node.removeAllEdges direction inst).1 := by
  unfold Node.removeAllEdges
  generalize node.neighbours direction inst = affected
  induction affected generalizing node inst with
  | nil => exact holds
  | cons neighbour rest ih =>
      exact ih (Node.removeEdge_object closed holds direction neighbour inst) _

theorem Node.detach_object {removed : Node} {version : Nat} {inst after : GraphInstance}
    (detached : node.detach version inst = some (removed, after))
    (loaded : Keeps { node with info := some (node.initInfo inst) }) : Keeps removed := by
  unfold Node.detach at detached
  dsimp only at detached
  split at detached
  · simp at detached
  · rw [Option.some.injEq] at detached
    have looped := Node.addSelfLoop_object closed loaded inst
    generalize ({ node with info := some (node.initInfo inst) } : Node).addSelfLoop inst =
      first at looped detached
    have reversed := Node.removeAllEdges_object closed looped .reverse first.2
    generalize first.1.removeAllEdges .reverse first.2 = second at reversed detached
    have forwarded := Node.removeAllEdges_object closed reversed .forward second.2
    rw [detached] at forwarded
    exact forwarded

end Objects

theorem Node.detach_sameHandle {node removed : Node} {version : Nat}
    {inst after : GraphInstance} (detached : node.detach version inst = some (removed, after)) :
    node.SameHandle removed := by
  have closed : HalfEdgeClosed node.SameHandle := fun other _ _ inst same =>
    ⟨same.trans (other.change_sameHandle _ inst), same.trans (other.change_sameHandle _ inst)⟩
  exact Node.detach_object closed detached ⟨rfl, rfl⟩

/-- No version is wanted of the graph or of an object. -/
structure OpenTxn.Current (txn : OpenTxn) : Prop where
  graph : txn.graph.wantedVersion = none
  objects : ∀ object ∈ txn.objects, object.wantedVersion = none

theorem OpenTxn.Current.append {txn : OpenTxn} (current : txn.Current) {graph : GraphDB}
    (sameWanted : graph.wantedVersion = txn.graph.wantedVersion) {more : List Node}
    (moreCurrent : ∀ object ∈ more, object.wantedVersion = none) :
    (⟨graph, txn.objects ++ more⟩ : OpenTxn).Current := by
  refine ⟨sameWanted.trans current.graph, ?_⟩
  intro object member
  rcases List.mem_append.mp member with old | new
  · exact current.objects object old
  · exact moreCurrent object new

theorem OpenTxn.Current.set {txn : OpenTxn} (current : txn.Current) {graph : GraphDB}
    (sameWanted : graph.wantedVersion = txn.graph.wantedVersion) {node : Nat}
    {object after : Node} (found : txn.objects[node]? = some object)
    (same : object.SameHandle after) :
    (⟨graph, txn.objects.set node after⟩ : OpenTxn).Current := by
  refine ⟨sameWanted.trans current.graph, ?_⟩
  intro other member
  rcases List.mem_or_eq_of_mem_set member with old | rfl
  · exact current.objects other old
  · exact same.2.trans (current.objects object (List.mem_of_getElem? found))

theorem OpenTxn.Current.call {txn : OpenTxn} (current : txn.Current) (node : Nat)
    {function : Node → GraphInstance → Bool × Node × GraphInstance}
    (same : ∀ (object : Node) inst, object.SameHandle (function object inst).2.1) :
    (txn.call node function).2.Current := by
  unfold OpenTxn.call
  split
  · exact current
  · rename_i object found
    have sameWanted : (txn.setInst (function object txn.graph.inst).2.2).graph.wantedVersion =
        txn.graph.wantedVersion := rfl
    exact current.set sameWanted found (same object txn.graph.inst)

theorem OpenTxn.Current.callBoth {txn : OpenTxn} (current : txn.Current) (direction : Direction)
    (node other : Nat) (updateOther : Bool)
    {function : Direction → String → Node → GraphInstance → Bool × Node × GraphInstance}
    (same : ∀ direction name (object : Node) inst,
      object.SameHandle (function direction name object inst).2.1) :
    (txn.callBoth direction node other updateOther function).Current := by
  unfold OpenTxn.callBoth
  split
  · rename_i object otherObject _ _
    have first := current.call node (same direction otherObject.name)
    split
    · rename_i after result
      rw [result] at first
      exact first
    · rename_i after result
      rw [result] at first
      split
      · exact first.call other (same direction.opposite object.name)
      · exact first
  · exact current

theorem GraphDB.wantedVersion_getNode {graph : GraphDB} (current : graph.wantedVersion = none)
    {name : String} {object : Node} (found : graph.getNode name = some object) :
    object.wantedVersion = none := by
  unfold getNode at found
  split at found
  · simp at found
  · dsimp only at found
    split at found
    · simp only [Option.some.injEq] at found
      rw [← found, current]
      simp
    · simp at found

theorem GraphDB.wantedVersion_create {graph after : GraphDB} {name : String} {object : Node}
    (created : graph.create name = (some object, after)) : object.wantedVersion = none := by
  have isCurrent : ((Node.loaded graph.inst name).addGraphVersion
      (graph.prepared name).version (graph.prepared name)).1.wantedVersion = none := by
    unfold Node.addGraphVersion
    dsimp only
    split
    · rfl
    · rfl
  rw [create_eq] at created
  split at created
  · simp at created
  · obtain ⟨sameObject, _⟩ := Prod.mk.inj created
    rw [← Option.some.inj sameObject]
    exact isCurrent

theorem GraphDB.remove_sameHandle {graph after : GraphDB} {object removed : Node}
    (result : graph.remove object = (some removed, after)) : object.SameHandle removed := by
  unfold remove at result
  split at result
  · simp at result
  · rename_i detached
    obtain ⟨sameObject, _⟩ := Prod.mk.inj result
    rw [← Option.some.inj sameObject]
    exact Node.detach_sameHandle detached

theorem OpenTxn.Current.apply {txn : OpenTxn} (current : txn.Current) (op : TxnOp) :
    (txn.apply op).Current := by
  cases op with
  | getNode name =>
      simp only [OpenTxn.apply]
      split
      · exact current
      · rename_i object found
        refine current.append rfl ?_
        intro other member
        rw [List.mem_singleton.mp member]
        exact GraphDB.wantedVersion_getNode current.graph found
  | create name =>
      have sameWanted := txn.wantedVersion_apply (.create name)
      simp only [OpenTxn.apply] at sameWanted ⊢
      split
      · rename_i graph result
        simp only [result] at sameWanted
        exact ⟨sameWanted.trans current.graph, current.objects⟩
      · rename_i object graph result
        simp only [result] at sameWanted
        refine current.append sameWanted ?_
        intro other member
        rw [List.mem_singleton.mp member]
        exact GraphDB.wantedVersion_create result
  | remove node =>
      have sameWanted := txn.graph.wantedVersion_remove
      simp only [OpenTxn.apply]
      split
      · exact current
      · rename_i object found
        split
        · rename_i graph result
          have same := sameWanted object
          rw [result] at same
          exact ⟨same.trans current.graph, current.objects⟩
        · rename_i removed graph result
          have same := sameWanted object
          rw [result] at same
          exact current.set same found (GraphDB.remove_sameHandle result)
  | neighbours direction node =>
      simp only [OpenTxn.apply]
      split
      · exact current
      · rename_i object found
        refine current.append rfl ?_
        intro neighbour member
        obtain ⟨name, _, rfl⟩ := List.mem_map.mp member
        exact current.objects object (List.mem_of_getElem? found)
  | addEdge direction node other updateOther =>
      exact current.callBoth direction node other updateOther fun direction name object inst =>
        object.change_sameHandle (fun info => info.addEdge direction name) inst
  | removeEdge direction node other updateOther =>
      exact current.callBoth direction node other updateOther fun direction name object inst =>
        object.change_sameHandle (fun info => info.removeEdge direction name) inst
  | updateTag node key values =>
      exact current.call node fun object inst => object.change_sameHandle _ inst
  | deleteTag node key =>
      exact current.call node fun object inst => object.change_sameHandle _ inst
  | setType node type =>
      exact current.call node fun object inst => object.change_sameHandle _ inst

end Rangexx
