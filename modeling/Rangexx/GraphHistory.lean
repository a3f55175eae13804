import Rangexx.CommittedGraph

/-!
# Histories of graph transactions

A transaction is a list of operations on node objects that it obtained itself;
an operation names the objects by their position in the table of objects, so
two operands may be one object or two objects for one node.  A history is a
list of transactions on one graph, starting with an empty one.

The two main results are that every committed version stays readable
(`setWantedVersion_view`), and that the set of nodes live at a committed
version stays as it is as long as no transaction begins by creating a node
that was stored before (`getNode_isSome_kept`).
-/

namespace Rangexx

open AscendingScan

inductive TxnOp where
  | getNode (name : String)
  | create (name : String)
  | remove (node : Nat)
  | addEdge (direction : Direction) (node other : Nat) (updateOther : Bool)
  | removeEdge (direction : Direction) (node other : Nat) (updateOther : Bool)
  | neighbours (direction : Direction) (node : Nat)
  | updateTag (node : Nat) (key : String) (values : List String)
  | deleteTag (node : Nat) (key : String)
  | setType (node : Nat) (type : NodeType)
  deriving DecidableEq, Repr

/-- An open transaction: the graph and the node objects obtained so far. -/
structure OpenTxn where
  graph : GraphDB
  objects : List Node

namespace OpenTxn

def setInst (txn : OpenTxn) (inst : GraphInstance) : OpenTxn :=
  { txn with graph := { txn.graph with inst := inst } }

/-- Call a changing function of one object. -/
def call (txn : OpenTxn) (node : Nat)
    (function : Node → GraphInstance → Bool × Node × GraphInstance) : Bool × OpenTxn :=
  match txn.objects[node]? with
  | none => (false, txn)
  | some object =>
      let (result, object, inst) := function object txn.graph.inst
      (result, { txn.setInst inst with objects := txn.objects.set node object })

/-- Change one half-edge and, if that succeeded and is asked for, the other.
The second call finds the object as the first call left it. -/
def callBoth (txn : OpenTxn) (direction : Direction) (node other : Nat) (updateOther : Bool)
    (function : Direction → String → Node → GraphInstance → Bool × Node × GraphInstance) :
    OpenTxn :=
  match txn.objects[node]?, txn.objects[other]? with
  | some object, some otherObject =>
      match txn.call node (function direction otherObject.name) with
      | (false, txn) => txn
      | (true, txn) =>
          if updateOther then (txn.call other (function direction.opposite object.name)).2
          else txn
  | _, _ => txn

/-- One operation of a transaction. -/
def apply (txn : OpenTxn) : TxnOp → OpenTxn
  | .getNode name =>
      match txn.graph.getNode name with
      | none => txn
      | some object => { txn with objects := txn.objects ++ [object] }
  | .create name =>
      match txn.graph.create name with
      | (none, graph) => { txn with graph := graph }
      | (some object, graph) => ⟨graph, txn.objects ++ [object]⟩
  | .remove node =>
      match txn.objects[node]? with
      | none => txn
      | some object =>
          match txn.graph.remove object with
          | (none, graph) => { txn with graph := graph }
          | (some object, graph) => ⟨graph, txn.objects.set node object⟩
  | .addEdge direction node other updateOther =>
      txn.callBoth direction node other updateOther fun direction name object inst =>
        object.addHalfEdge direction name inst
  | .removeEdge direction node other updateOther =>
      txn.callBoth direction node other updateOther fun direction name object inst =>
        object.removeHalfEdge direction name inst
  | .neighbours direction node =>
      match txn.objects[node]? with
      | none => txn
      | some object =>
          { txn with objects := txn.objects ++ object.neighbours direction txn.graph.inst }
  | .updateTag node key values =>
      (txn.call node fun object inst => object.updateTag key values inst).2
  | .deleteTag node key => (txn.call node fun object inst => object.deleteTag key inst).2
  | .setType node type =>
      (txn.call node fun object inst => (true, object.setType type inst)).2

def applyAll (txn : OpenTxn) (ops : List TxnOp) : OpenTxn :=
  ops.foldl apply txn

end OpenTxn

namespace GraphDB

/-- A graph transaction that ends normally. -/
def transaction (graph : GraphDB) (ops : List TxnOp) : GraphDB :=
  ((⟨graph, []⟩ : OpenTxn).applyAll ops).graph.endTxn graph.version false

/-- Transactions one after the other. -/
def transactions (graph : GraphDB) (txns : List (List TxnOp)) : GraphDB :=
  txns.foldl transaction graph

/-- The graph after a history. -/
def history (txns : List (List TxnOp)) : GraphDB :=
  (ofInstance .empty).transactions txns

/-- `create` is about to record the committed version again: nothing is
pending, and the name has a record but is not live. -/
def Recreates (graph : GraphDB) (name : String) : Prop :=
  graph.inst.pending = 0 ∧ (graph.inst.readNode name).listVersion ≠ 0 ∧
    hasVersionOrHigher graph.version (graph.inst.readNode name).graphVersions = false

instance (graph : GraphDB) (name : String) : Decidable (graph.Recreates name) :=
  inferInstanceAs (Decidable (_ ∧ _ ∧ _))

end GraphDB

/-- An operation that does not recreate a node. -/
def TxnOp.Fresh (txn : OpenTxn) : TxnOp → Prop
  | .create name => ¬ txn.graph.Recreates name
  | _ => True

/-- No operation of the list, run from `txn`, recreates a node. -/
def OpenTxn.Fresh : OpenTxn → List TxnOp → Prop
  | _, [] => True
  | txn, op :: ops => op.Fresh txn ∧ (txn.apply op).Fresh ops

/-- No transaction of the list, run from `graph`, recreates a node. -/
def GraphDB.Fresh : GraphDB → List (List TxnOp) → Prop
  | _, [] => True
  | graph, ops :: rest =>
      (⟨graph, []⟩ : OpenTxn).Fresh ops ∧ (graph.transaction ops).Fresh rest

/-! ## One operation -/

/-- A property of records that every change through a node object keeps. -/
structure NodeClosed (Good : String → NodeInfo → Prop) : Prop extends EdgeClosed Good where
  updateTag : ∀ key values, KeepsGood Good fun info => some (info.updateTag key values)
  deleteTag : ∀ key, KeepsGood Good fun info => info.deleteTag key
  setType : ∀ type, KeepsGood Good fun info => some (info.setType type)

theorem Derived.nodeClosed (base : GraphInstance) (floor : Nat) :
    NodeClosed (Derived base floor) where
  toEdgeClosed := Derived.edgeClosed base floor
  updateTag := Derived.keeps_updateTag
  deleteTag := Derived.keeps_deleteTag
  setType := Derived.keeps_setType

section Operation

variable {base : GraphInstance} {Good : String → NodeInfo → Prop}

/-- Every record and every object of an open transaction is good. -/
structure OpenTxn.Kept (base : GraphInstance) (Good : String → NodeInfo → Prop)
    (txn : OpenTxn) : Prop where
  working : Working base Good txn.graph.inst
  objects : ∀ object ∈ txn.objects, object.Sound Good

theorem GraphDB.getNode_sound {graph : GraphDB} {name : String} {object : Node}
    (good : Good name (graph.inst.readNode name)) (found : graph.getNode name = some object) :
    object.Sound Good ∧ object.name = name := by
  unfold getNode at found
  split at found
  · simp at found
  · dsimp only at found
    split at found
    · simp only [Option.some.injEq] at found
      rw [← found]
      exact ⟨Node.Sound.of_info good, rfl⟩
    · simp at found

theorem GraphDB.remove_working {graph : GraphDB} {object : Node} (closed : EdgeClosed Good)
    (working : Working base Good graph.inst) (sound : object.Sound Good) :
    Working base Good (graph.remove object).2.inst ∧
      ∀ removed, (graph.remove object).1 = some removed → removed.Sound Good := by
  unfold remove
  cases detached : object.detach graph.version graph.inst with
  | none => exact ⟨working, by simp⟩
  | some result =>
      have after := Node.detach_working closed working sound detached
      exact ⟨after.1, by simpa using after.2⟩

theorem OpenTxn.Kept.call {txn : OpenTxn}
    {function : Node → GraphInstance → Bool × Node × GraphInstance}
    (kept : txn.Kept base Good) (node : Nat)
    (keeps : ∀ object inst, Working base Good inst → object.Sound Good →
      Working base Good (function object inst).2.2 ∧ (function object inst).2.1.Sound Good) :
    (txn.call node function).2.Kept base Good := by
  unfold OpenTxn.call
  cases found : txn.objects[node]? with
  | none => exact kept
  | some object =>
      have objectSound := kept.objects object (List.mem_of_getElem? found)
      have after := keeps object txn.graph.inst kept.working objectSound
      refine ⟨after.1, ?_⟩
      intro other member
      rcases List.mem_or_eq_of_mem_set member with old | rfl
      · exact kept.objects other old
      · exact after.2

theorem OpenTxn.Kept.callBoth {txn : OpenTxn} {direction : Direction} {node other : Nat}
    {updateOther : Bool}
    {function : Direction → String → Node → GraphInstance → Bool × Node × GraphInstance}
    (kept : txn.Kept base Good)
    (keeps : ∀ direction name object inst, Working base Good inst → object.Sound Good →
      Working base Good (function direction name object inst).2.2 ∧
        (function direction name object inst).2.1.Sound Good) :
    (txn.callBoth direction node other updateOther function).Kept base Good := by
  unfold OpenTxn.callBoth
  split
  · rename_i object otherObject _ _
    have first := kept.call node (keeps direction otherObject.name)
    split
    · rename_i after result
      rw [result] at first
      exact first
    · rename_i after result
      rw [result] at first
      split
      · exact first.call other (keeps direction.opposite object.name)
      · exact first
  · exact kept

theorem OpenTxn.Kept.apply {txn : OpenTxn} {op : TxnOp} (closed : NodeClosed Good)
    (kept : txn.Kept base Good) (notCreate : ∀ name, op ≠ .create name) :
    (txn.apply op).Kept base Good := by
  cases op with
  | getNode name =>
      simp only [OpenTxn.apply]
      split
      · exact kept
      · rename_i object found
        refine ⟨kept.working, ?_⟩
        intro other member
        rcases List.mem_append.mp member with old | new
        · exact kept.objects other old
        · rw [List.mem_singleton.mp new]
          exact (GraphDB.getNode_sound (kept.working.good name) found).1
  | create name => exact absurd rfl (notCreate name)
  | remove node =>
      simp only [OpenTxn.apply]
      split
      · exact kept
      · rename_i object found
        have removed := GraphDB.remove_working closed.toEdgeClosed kept.working
          (kept.objects object (List.mem_of_getElem? found))
        split
        · rename_i graph result
          rw [result] at removed
          exact ⟨removed.1, kept.objects⟩
        · rename_i after graph result
          rw [result] at removed
          refine ⟨removed.1, ?_⟩
          intro other member
          rcases List.mem_or_eq_of_mem_set member with old | rfl
          · exact kept.objects other old
          · exact removed.2 other rfl
  | addEdge direction node other updateOther =>
      exact kept.callBoth fun direction name object inst working objectSound =>
        Node.addHalfEdge_working closed.toEdgeClosed direction name working objectSound
  | removeEdge direction node other updateOther =>
      exact kept.callBoth fun direction name object inst working objectSound =>
        Node.removeHalfEdge_working closed.toEdgeClosed direction name working objectSound
  | neighbours direction node =>
      simp only [OpenTxn.apply]
      split
      · exact kept
      · refine ⟨kept.working, ?_⟩
        intro other member
        rcases List.mem_append.mp member with old | new
        · exact kept.objects other old
        · exact Node.neighbours_sound new
  | updateTag node key values =>
      exact kept.call node fun object inst working objectSound =>
        Node.change_working (closed.updateTag key values) working objectSound
  | deleteTag node key =>
      exact kept.call node fun object inst working objectSound =>
        Node.change_working (closed.deleteTag key) working objectSound
  | setType node type =>
      exact kept.call node fun object inst working objectSound =>
        Node.change_working (closed.setType type) working objectSound

end Operation

section Sound

variable {base : GraphInstance} {floor : Nat}

/-- The invariant of an open transaction. -/
structure OpenTxn.Sound (base : GraphInstance) (floor : Nat) (txn : OpenTxn) : Prop where
  working : Working base (Derived base floor) txn.graph.inst
  objects : ∀ object ∈ txn.objects, object.Sound (Derived base floor)
  wanted : txn.graph.wantedVersion = none

/-- `create` keeps the working set sound when the version it records is not
below the floor. -/
theorem GraphDB.create_working {graph : GraphDB} (name : String)
    (working : Working base (Derived base floor) graph.inst)
    (above : floor ≤ base.changelist.currentVersion ∨
      floor = base.changelist.currentVersion + 1 ∧ ¬ graph.Recreates name) :
    Working base (Derived base floor) (graph.create name).2.inst ∧
      (∀ object, (graph.create name).1 = some object → object.Sound (Derived base floor)) ∧
      (graph.create name).2.wantedVersion = graph.wantedVersion := by
  have derived := working.good name
  have loadedSound : (⟨name, none, some (graph.inst.readNode name)⟩ : Node).Sound (Derived base floor) :=
    Node.Sound.of_info derived
  unfold create
  dsimp only [Node.createNode, Node.initInfo, Option.getD_none]
  split
  · exact ⟨working, by simp, rfl⟩
  · rename_i notLive
    split
    · rename_i unwritten
      have committed := Node.commit_working working loadedSound
      have version := committed.1.version_of_pending (Instance.pending_writeRecord_pos _ _ _ _)
      have added := Node.addGraphVersion_working committed.1 committed.2
        fun _ derived => derived.recordVersion (by rw [version]; omega) committed.1.version_le
      exact ⟨added.1, by simpa using added.2, rfl⟩
    · rename_i written
      have notBelow : floor ≤ graph.inst.version := by
        rcases above with low | ⟨atTop, notRecreated⟩
        · exact Nat.le_trans low working.le_version
        · have changed : 0 < graph.inst.pending := by
            by_contra nothing
            apply notRecreated
            refine ⟨by omega, written, ?_⟩
            simpa using notLive
          rw [working.version_of_pending changed, atTop]
      have added := Node.addGraphVersion_working working loadedSound
        fun _ derived => derived.recordVersion notBelow working.version_le
      exact ⟨added.1, by simpa using added.2, rfl⟩

theorem GraphDB.wantedVersion_remove (graph : GraphDB) (object : Node) :
    (graph.remove object).2.wantedVersion = graph.wantedVersion := by
  unfold remove
  split
  · rfl
  · rfl

theorem OpenTxn.wantedVersion_call (txn : OpenTxn) (node : Nat)
    (function : Node → GraphInstance → Bool × Node × GraphInstance) :
    (txn.call node function).2.graph.wantedVersion = txn.graph.wantedVersion := by
  unfold OpenTxn.call
  split
  · rfl
  · rfl

theorem OpenTxn.wantedVersion_callBoth (txn : OpenTxn) (direction : Direction)
    (node other : Nat) (updateOther : Bool)
    (function : Direction → String → Node → GraphInstance → Bool × Node × GraphInstance) :
    (txn.callBoth direction node other updateOther function).graph.wantedVersion =
      txn.graph.wantedVersion := by
  unfold OpenTxn.callBoth
  split
  · rename_i object otherObject _ _
    have first := txn.wantedVersion_call node (function direction otherObject.name)
    split
    · rename_i after result
      rw [result] at first
      exact first
    · rename_i after result
      rw [result] at first
      split
      · exact (OpenTxn.wantedVersion_call after other _).trans first
      · exact first
  · rfl

/-- The operations leave the wanted version of the graph alone. -/
theorem OpenTxn.wantedVersion_apply (txn : OpenTxn) (op : TxnOp) :
    (txn.apply op).graph.wantedVersion = txn.graph.wantedVersion := by
  cases op with
  | getNode name =>
      simp only [OpenTxn.apply]
      split <;> rfl
  | create name =>
      have same : (txn.graph.create name).2.wantedVersion = txn.graph.wantedVersion := by
        unfold GraphDB.create
        dsimp only
        split
        · rfl
        · split <;> rfl
      simp only [OpenTxn.apply]
      split
      · rename_i graph result
        rw [result] at same
        exact same
      · rename_i object graph result
        rw [result] at same
        exact same
  | remove node =>
      simp only [OpenTxn.apply]
      split
      · rfl
      · rename_i object found
        have same := txn.graph.wantedVersion_remove object
        split
        · rename_i graph result
          rw [result] at same
          exact same
        · rename_i removed graph result
          rw [result] at same
          exact same
  | neighbours direction node =>
      simp only [OpenTxn.apply]
      split <;> rfl
  | addEdge direction node other updateOther =>
      exact txn.wantedVersion_callBoth direction node other updateOther _
  | removeEdge direction node other updateOther =>
      exact txn.wantedVersion_callBoth direction node other updateOther _
  | updateTag node key values => exact txn.wantedVersion_call node _
  | deleteTag node key => exact txn.wantedVersion_call node _
  | setType node type => exact txn.wantedVersion_call node _

theorem OpenTxn.Sound.apply {txn : OpenTxn} {op : TxnOp} (sound : txn.Sound base floor)
    (allowed : floor ≤ base.changelist.currentVersion ∨
      floor = base.changelist.currentVersion + 1 ∧ op.Fresh txn) :
    (txn.apply op).Sound base floor := by
  have wanted := (txn.wantedVersion_apply op).trans sound.wanted
  by_cases creates : ∃ name, op = .create name
  · obtain ⟨name, rfl⟩ := creates
    have created := GraphDB.create_working name sound.working allowed
    simp only [OpenTxn.apply] at wanted ⊢
    split
    · rename_i graph result
      rw [result] at created
      exact ⟨created.1, sound.objects, created.2.2.trans sound.wanted⟩
    · rename_i object graph result
      rw [result] at created
      refine ⟨created.1, ?_, created.2.2.trans sound.wanted⟩
      intro other member
      rcases List.mem_append.mp member with old | new
      · exact sound.objects other old
      · rw [List.mem_singleton.mp new]
        exact created.2.1 object rfl
  · have kept := OpenTxn.Kept.apply (Derived.nodeClosed base floor)
      ⟨sound.working, sound.objects⟩ fun name isCreate => creates ⟨name, isCreate⟩
    exact ⟨kept.working, kept.objects, wanted⟩

theorem OpenTxn.Sound.applyAll {txn : OpenTxn} {ops : List TxnOp}
    (sound : txn.Sound base floor)
    (allowed : floor ≤ base.changelist.currentVersion ∨
      floor = base.changelist.currentVersion + 1 ∧ txn.Fresh ops) :
    (txn.applyAll ops).Sound base floor := by
  induction ops generalizing txn with
  | nil => exact sound
  | cons op ops ih =>
      apply ih (sound.apply _)
      · exact allowed.imp_right fun fresh => ⟨fresh.1, fresh.2.2⟩
      · exact allowed.imp_right fun fresh => ⟨fresh.1, fresh.2.1⟩

end Sound

/-! ## Whole histories -/

namespace GraphDB

/-- The invariant of a graph between transactions. -/
structure Settled (graph : GraphDB) : Prop where
  committed : Committed graph.inst
  wanted : graph.wantedVersion = none

theorem Settled.version_eq {graph : GraphDB} (settled : graph.Settled) :
    graph.version = graph.inst.changelist.currentVersion :=
  settled.committed.version_eq

theorem Settled.positioned {graph : GraphDB} (settled : graph.Settled) : graph.Positioned := by
  intro wanted isWanted
  rw [settled.wanted] at isWanted
  simp at isWanted

theorem Settled.openTxn {graph : GraphDB} (settled : graph.Settled) (floor : Nat) :
    (⟨graph, []⟩ : OpenTxn).Sound graph.inst floor where
  working := settled.committed.working floor
  objects := by simp
  wanted := settled.wanted

@[simp]
theorem wantedVersion_endTxn (graph : GraphDB) (startVersion : Nat) (uncaught : Bool) :
    (graph.endTxn startVersion uncaught).wantedVersion = graph.wantedVersion := by
  unfold endTxn
  dsimp only
  split <;> rfl

theorem Settled.transaction {graph : GraphDB} (settled : graph.Settled) (ops : List TxnOp) :
    (graph.transaction ops).Settled ∧ Past graph.inst (graph.transaction ops).inst := by
  have sound := (settled.openTxn graph.inst.changelist.currentVersion).applyAll
    (Or.inl (Nat.le_refl _) : _ ∨ _ ∧ (⟨graph, []⟩ : OpenTxn).Fresh ops)
  obtain ⟨inst, working, ended⟩ :=
    endTxn_working settled.committed (Nat.le_succ _) sound.working
  have result : (graph.transaction ops).inst = inst.commit := ended
  refine ⟨⟨?_, ?_⟩, ?_⟩
  · rw [result]
    exact working.commit_committed settled.committed
  · rw [GraphDB.transaction, wantedVersion_endTxn]
    exact sound.wanted
  · rw [result]
    exact working.commit_past settled.committed

theorem Settled.transaction_livenessKept {graph : GraphDB} (settled : graph.Settled)
    {ops : List TxnOp} (fresh : (⟨graph, []⟩ : OpenTxn).Fresh ops) :
    LivenessKept graph.inst (graph.transaction ops).inst := by
  have sound := (settled.openTxn (graph.inst.changelist.currentVersion + 1)).applyAll
    (Or.inr ⟨rfl, fresh⟩)
  obtain ⟨inst, working, ended⟩ :=
    endTxn_working settled.committed (Nat.le_refl _) sound.working
  have result : (graph.transaction ops).inst = inst.commit := ended
  rw [result]
  exact working.commit_livenessKept

/-- A transaction commits at most one version. -/
theorem Settled.transaction_version {graph : GraphDB} (settled : graph.Settled)
    (ops : List TxnOp) : (graph.transaction ops).version ≤ graph.version + 1 := by
  have sound := (settled.openTxn graph.inst.changelist.currentVersion).applyAll
    (Or.inl (Nat.le_refl _) : _ ∨ _ ∧ (⟨graph, []⟩ : OpenTxn).Fresh ops)
  obtain ⟨inst, working, ended⟩ :=
    endTxn_working settled.committed (Nat.le_succ _) sound.working
  have result : (graph.transaction ops).inst = inst.commit := ended
  rw [(settled.transaction ops).1.version_eq, settled.version_eq, result,
    Instance.changelist_commit, working.changelist]
  split
  · exact Nat.le_succ _
  · exact Nat.le_refl _

theorem Settled.transactions {graph : GraphDB} (settled : graph.Settled)
    (txns : List (List TxnOp)) :
    (graph.transactions txns).Settled ∧ Past graph.inst (graph.transactions txns).inst := by
  induction txns generalizing graph with
  | nil => exact ⟨settled, Past.refl _⟩
  | cons ops rest ih =>
      have step := settled.transaction ops
      have run := ih step.1
      exact ⟨run.1, step.2.trans run.2⟩

theorem Settled.transactions_livenessKept {graph : GraphDB} (settled : graph.Settled)
    {txns : List (List TxnOp)} (fresh : graph.Fresh txns) :
    LivenessKept graph.inst (graph.transactions txns).inst := by
  induction txns generalizing graph with
  | nil => exact LivenessKept.refl _
  | cons ops rest ih =>
      have step := settled.transaction ops
      exact LivenessKept.trans step.2.version (settled.transaction_livenessKept fresh.1)
        (ih step.1 fresh.2)

theorem ofInstance_empty_settled : (ofInstance .empty).Settled :=
  ⟨Committed.empty, rfl⟩

theorem history_settled (txns : List (List TxnOp)) : (history txns).Settled :=
  (ofInstance_empty_settled.transactions txns).1

theorem history_append (before after : List (List TxnOp)) :
    history (before ++ after) = (history before).transactions after := by
  simp [history, transactions, List.foldl_append]

/-- Every version up to the current one was the current version once. -/
theorem exists_prefix_version (txns : List (List TxnOp)) {version : Nat}
    (le : version ≤ (history txns).version) :
    ∃ before after, txns = before ++ after ∧ (history before).version = version := by
  induction txns using List.reverseRecOn with
  | nil =>
      refine ⟨[], [], rfl, ?_⟩
      have zero : (history []).version = 0 := rfl
      omega
  | append_singleton front ops ih =>
      by_cases earlier : version ≤ (history front).version
      · obtain ⟨before, after, rfl, same⟩ := ih earlier
        exact ⟨before, after ++ [ops], by simp, same⟩
      · have step : (history (front ++ [ops])).version ≤ (history front).version + 1 := by
          rw [history_append]
          exact (history_settled front).transaction_version ops
        exact ⟨front ++ [ops], [], by simp, by omega⟩

/-- A host is created, and removed by the next transaction. -/
def hostRemoved : List (List TxnOp) :=
  [[.create "host", .setType 0 .host], [.getNode "host", .remove 0]]

/-- Transactions that recreate no node leave the nodes found at a committed
version as they are. -/
theorem getNode_isSome_kept (before after : List (List TxnOp))
    (fresh : (history before).Fresh after) {version : Nat} (positive : 1 ≤ version)
    (le : version ≤ (history before).version) :
    ∃ earlier later, (history before).setWantedVersion (some version) = (.ok true, earlier) ∧
      (history (before ++ after)).setWantedVersion (some version) = (.ok true, later) ∧
      ∀ name, (earlier.getNode name).isSome = (later.getNode name).isSome := by
  have settled := history_settled before
  have run := settled.transactions after
  have kept := settled.transactions_livenessKept fresh
  rw [settled.version_eq] at le
  rw [history_append]
  obtain ⟨earlier, earlierSet, earlierInst, earlierWanted, _⟩ :=
    setWantedVersion_eq settled.committed settled.positioned positive le
  obtain ⟨later, laterSet, laterInst, laterWanted, _⟩ :=
    setWantedVersion_eq run.1.committed run.1.positioned positive
      (Nat.le_trans le run.2.version)
  refine ⟨earlier, later, earlierSet, laterSet, ?_⟩
  intro name
  rw [getNode_eq (by rw [earlierInst]; exact settled.committed), earlierWanted, earlierInst,
    getNode_eq (by rw [laterInst]; exact run.1.committed), laterWanted, laterInst]
  have sameLiveness : version ∈ ((history before).inst.readNode name).graphVersions ↔
      version ∈ (((history before).transactions after).inst.readNode name).graphVersions :=
    ⟨fun member => (run.2.records name).graphVersions.subset member,
      fun member => kept name version member le⟩
  by_cases live : version ∈ ((history before).inst.readNode name).graphVersions
  · simp [live, sameLiveness.mp live]
  · simp [live, mt sameLiveness.mpr live]

theorem getNode_isSome_kept_hostRemoved :
    ∃ earlier later,
      (history [hostRemoved.head!]).setWantedVersion (some 1) = (.ok true, earlier) ∧
      (history hostRemoved).setWantedVersion (some 1) = (.ok true, later) ∧
      ∀ name, (earlier.getNode name).isSome = (later.getNode name).isSome :=
  getNode_isSome_kept [hostRemoved.head!] [hostRemoved[1]]
    ⟨⟨trivial, trivial, trivial⟩, trivial⟩ (by decide) (by decide)

/-- Creating the removed host again makes it live at version 2, at which it
had been removed. -/
theorem getNode_isSome_recreated :
    ∃ earlier later, (history hostRemoved).setWantedVersion (some 2) = (.ok true, earlier) ∧
      (history (hostRemoved ++ [[.create "host", .setType 0 .host]])).setWantedVersion (some 2) =
        (.ok true, later) ∧
      (earlier.getNode "host").isSome = false ∧ (later.getNode "host").isSome = true := by
  refine ⟨_, _, Prod.ext ?_ rfl, Prod.ext ?_ rfl, ?_, ?_⟩
  · decide
  · decide
  · decide
  · decide

end GraphDB

end Rangexx
