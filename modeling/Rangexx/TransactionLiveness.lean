import Rangexx.OpenTransactions

/-!
# Liveness inside a transaction

A node is live in an open transaction when it was live at the start or has been
created since, and has not been removed.  The records say so only when the
transaction ends.  What they say until then is collected in `Followed`.
-/

namespace Rangexx

open AscendingScan

/-! ## The nodes that are live -/

/-- The nodes that are live after an operation, given those that were live
before. -/
def TxnOp.live (txn : OpenTxn) (live : String → Prop) : TxnOp → String → Prop
  | .create name, other => live other ∨ ((txn.graph.create name).1 ≠ none ∧ other = name)
  | .remove node, other => live other ∧ ¬ ∃ object, txn.objects[node]? = some object ∧
      (txn.graph.remove object).1 ≠ none ∧ other = object.name
  | _, other => live other

/-- The nodes that are live after a list of operations. -/
def OpenTxn.liveAfter : OpenTxn → (String → Prop) → List TxnOp → String → Prop
  | _, live, [] => live
  | txn, live, op :: ops => (txn.apply op).liveAfter (op.live txn live) ops

/-- A record of a transaction that started at `base`: only the nodes in
`stored` carry versions, and only those in `known` the version of the start. -/
structure Listed (base : GraphInstance) (stored known : String → Prop) (name : String)
    (info : NodeInfo) : Prop where
  derived : Derived base base.changelist.currentVersion name info
  stored : info.graphVersions ≠ [] → stored name
  known : base.changelist.currentVersion ∈ info.graphVersions → known name

section Listing

variable {base : GraphInstance} {stored known : String → Prop}

theorem Listed.advance {name : String} {info changed : NodeInfo}
    {present : Direction → String → Prop} (listed : Listed base stored known name info)
    (advance : info.Advance changed present) : Listed base stored known name changed where
  derived := listed.derived.advance advance
  stored := by
    rw [advance.graphVersions]
    exact listed.stored
  known := by
    rw [advance.graphVersions]
    exact listed.known

theorem Listed.nodeClosed (base : GraphInstance) (stored known : String → Prop) :
    NodeClosed (Listed base stored known) where
  addEdge := fun _ _ _ _ _ listed added =>
    listed.advance (NodeInfo.addEdge_advance listed.derived.wf added)
  removeEdge := fun _ _ _ _ _ listed removed =>
    listed.advance (NodeInfo.removeEdge_advance listed.derived.wf removed)
  updateTag := by
    intro key values name info changed listed updated
    simp only [Option.some.injEq] at updated
    rw [← updated]
    exact listed.advance (NodeInfo.updateTag_advance listed.derived.wf key values)
  deleteTag := fun _ _ _ _ listed deleted =>
    listed.advance (NodeInfo.deleteTag_advance listed.derived.wf deleted)
  setType := by
    intro type name info changed listed updated
    simp only [Option.some.injEq] at updated
    rw [← updated]
    exact listed.advance (NodeInfo.setType_advance listed.derived.wf type)

theorem OpenTxn.Kept.mono {Good Weaker : String → NodeInfo → Prop} {txn : OpenTxn}
    (kept : txn.Kept base Good) (weaker : ∀ name info, Good name info → Weaker name info) :
    txn.Kept base Weaker where
  working := kept.working.mono weaker
  objects := fun object member info loaded =>
    weaker object.name info (kept.objects object member info loaded)

end Listing

/-- The node has a record in the table. -/
def Instance.Stored (inst : GraphInstance) (name : String) : Prop :=
  (inst.records.lookup (.node, name)).isSome

/-- What holds in a transaction that started at `base`, when the nodes `live`
are live. -/
structure Followed (base : GraphInstance) (live : String → Prop) (txn : OpenTxn) : Prop where
  kept : txn.Kept base (Listed base txn.graph.inst.Stored
    fun name => live name ∨ name ∈ txn.graph.removedNodes)
  current : txn.Current
  started : ∀ name, live name → base.Live name ∨ 0 < txn.graph.inst.pending
  removed : txn.graph.removedNodes = [] ∨ txn.graph.inst.Touched

theorem Followed.start {graph : GraphDB} (settled : graph.Settled)
    (noneRemoved : graph.removedNodes = []) :
    Followed graph.inst graph.inst.Live ⟨graph, []⟩ where
  kept := by
    have working := settled.committed.working graph.inst.changelist.currentVersion
    refine ⟨working.strengthen fun name => ⟨working.good name, ?_, Or.inl⟩, by simp⟩
    · intro carries
      unfold Instance.Stored
      cases found : graph.inst.records.lookup (.node, name) with
      | none =>
          rw [settled.committed.readNode_eq, found] at carries
          exact absurd rfl carries
      | some info => rfl
  current := ⟨settled.wanted, by simp⟩
  started := fun _ live => Or.inl live
  removed := Or.inl noneRemoved

/-! ## One operation -/

theorem touched_closed : WriteClosed Instance.Touched :=
  fun inst name objectVersion info _ => inst.touched_writeRecord name objectVersion info

theorem removedNodes_call (txn : OpenTxn) (node : Nat)
    (function : Node → GraphInstance → Bool × Node × GraphInstance) :
    (txn.call node function).2.graph.removedNodes = txn.graph.removedNodes := by
  unfold OpenTxn.call
  split
  · rfl
  · rfl

theorem removedNodes_callBoth (txn : OpenTxn) (direction : Direction) (node other : Nat)
    (updateOther : Bool)
    (function : Direction → String → Node → GraphInstance → Bool × Node × GraphInstance) :
    (txn.callBoth direction node other updateOther function).graph.removedNodes =
      txn.graph.removedNodes := by
  unfold OpenTxn.callBoth
  split
  · rename_i object otherObject _ _
    have first := removedNodes_call txn node (function direction otherObject.name)
    split
    · rename_i after result
      rw [result] at first
      exact first
    · rename_i after result
      rw [result] at first
      split
      · exact (removedNodes_call after other _).trans first
      · exact first
  · rfl

theorem removedNodes_apply (txn : OpenTxn) {op : TxnOp} (notCreate : ∀ name, op ≠ .create name)
    (notRemove : ∀ node, op ≠ .remove node) :
    (txn.apply op).graph.removedNodes = txn.graph.removedNodes := by
  cases op with
  | getNode name =>
      simp only [OpenTxn.apply]
      split <;> rfl
  | create name => exact absurd rfl (notCreate name)
  | remove node => exact absurd rfl (notRemove node)
  | neighbours direction node =>
      simp only [OpenTxn.apply]
      split <;> rfl
  | addEdge direction node other updateOther =>
      exact removedNodes_callBoth txn direction node other updateOther _
  | removeEdge direction node other updateOther =>
      exact removedNodes_callBoth txn direction node other updateOther _
  | updateTag node key values => exact removedNodes_call txn node _
  | deleteTag node key => exact removedNodes_call txn node _
  | setType node type => exact removedNodes_call txn node _

section Steps

variable {base : GraphInstance} {live : String → Prop} {txn : OpenTxn}

/-- The records and the objects after an operation that is no creation. -/
theorem Followed.kept_apply {op : TxnOp} (followed : Followed base live txn)
    (notCreate : ∀ name, op ≠ .create name) {known : String → Prop}
    (grown : ∀ name, live name ∨ name ∈ txn.graph.removedNodes → known name) :
    (txn.apply op).Kept base (Listed base (txn.apply op).graph.inst.Stored known) := by
  have sameRecords := (txn.apply_closed (sameStore_closed txn.graph.inst) notCreate
    ⟨rfl, rfl⟩).1
  have sameStored : (txn.apply op).graph.inst.Stored = txn.graph.inst.Stored := by
    funext name
    unfold Instance.Stored
    rw [sameRecords]
  rw [sameStored]
  exact (followed.kept.apply (Listed.nodeClosed _ _ _) notCreate).mono fun name info listed =>
    ⟨listed.derived, listed.stored, fun carries => grown name (listed.known carries)⟩

theorem Followed.started_apply {op : TxnOp} (followed : Followed base live txn)
    (notCreate : ∀ name, op ≠ .create name) {name : String} (isLive : live name) :
    base.Live name ∨ 0 < (txn.apply op).graph.inst.pending :=
  (followed.started name isLive).imp_right
    (txn.apply_closed pending_closed notCreate)

/-- Removing a node writes its record. -/
theorem Followed.remove_touched {object removed : Node} {after : GraphInstance} {node : Nat}
    (followed : Followed base live txn) (found : txn.objects[node]? = some object)
    (detached : object.detach txn.graph.version txn.graph.inst = some (removed, after)) :
    after.Touched :=
  (Node.detach_edges (fun _ _ listed => listed.derived.wf)
    (Listed.nodeClosed base _ _).toEdgeClosed followed.kept.working
    (followed.kept.objects object (List.mem_of_getElem? found))
    (followed.current.objects object (List.mem_of_getElem? found)) detached).2.2.1

theorem Followed.apply_remove (followed : Followed base live txn) (node : Nat) :
    Followed base ((TxnOp.remove node).live txn live) (txn.apply (.remove node)) := by
  have notCreate : ∀ name, TxnOp.remove node ≠ .create name := by simp
  have touched := txn.apply_closed touched_closed notCreate
  refine ⟨followed.kept_apply notCreate ?_, followed.current.apply _,
    fun name isLive => followed.started_apply notCreate isLive.1, ?_⟩
  · intro name known
    cases found : txn.objects[node]? with
    | none => simpa [TxnOp.live, OpenTxn.apply, found] using known
    | some object =>
        cases removal : txn.graph.remove object with
        | mk removed graph =>
            cases removed with
            | none =>
                have sameGraph : graph.removedNodes = txn.graph.removedNodes := by
                  unfold GraphDB.remove at removal
                  split at removal
                  · rw [← (Prod.mk.inj removal).2]
                  · simp at removal
                simpa [TxnOp.live, OpenTxn.apply, found, removal, sameGraph] using known
            | some removed =>
                have grownNodes : graph.removedNodes =
                    object.name :: txn.graph.removedNodes := by
                  unfold GraphDB.remove at removal
                  split at removal
                  · simp at removal
                  · rename_i detached
                    rw [← (Prod.mk.inj removal).2, (Node.detach_sameHandle detached).1]
                simp only [TxnOp.live, OpenTxn.apply, found, removal, grownNodes,
                  List.mem_cons]
                by_cases same : name = object.name
                · exact Or.inr (Or.inl same)
                · refine known.imp (fun isLive => ⟨isLive, ?_⟩) Or.inr
                  rintro ⟨other, isOther, _, sameName⟩
                  obtain rfl := Option.some.inj isOther
                  exact same sameName
  · cases found : txn.objects[node]? with
    | none => simpa [OpenTxn.apply, found] using followed.removed
    | some object =>
        cases detached : object.detach txn.graph.version txn.graph.inst with
        | none =>
            simpa [OpenTxn.apply, found, GraphDB.remove, detached] using followed.removed
        | some result =>
            have isTouched := followed.remove_touched found detached
            right
            simpa [OpenTxn.apply, found, GraphDB.remove, detached] using isTouched

/-- Every version a created node carries is below the one it is created for. -/
theorem Followed.below_prepared (followed : Followed base live txn) {name : String}
    (unlisted : GraphDB.hasVersionOrHigher txn.graph.version
      (txn.graph.inst.readNode name).graphVersions = false) :
    ∀ graphVersion ∈ (txn.graph.inst.readNode name).graphVersions,
      graphVersion < (txn.graph.prepared name).version := by
  have ascending := (followed.kept.working.good name).derived.wf.graphVersions
  have le := txn.graph.version_le_prepared name
  intro graphVersion member
  by_contra above
  have listed := (GraphDB.hasVersionOrHigher_iff ascending).mpr
    ⟨graphVersion, member, Nat.le_trans le (Nat.le_of_not_lt above)⟩
  rw [unlisted] at listed
  simp at listed

theorem stored_of_getRecord {inst after : GraphInstance}
    (flushed : ∀ name, after.records.lookup (.node, name) = inst.getRecord (.node, name))
    {name : String} (stored : inst.Stored name) : after.Stored name := by
  unfold Instance.Stored at stored ⊢
  rw [flushed, Instance.getRecord]
  split
  · rfl
  · exact stored

theorem touched_flush {inst : GraphInstance} (touched : inst.Touched) (name : String)
    (objectVersion : Nat) (info : NodeInfo) :
    (inst.writeRecord (.nodeMeta, name) objectVersion info).flush.Touched := by
  rw [Instance.touched_iff] at touched ⊢
  obtain ⟨written, isWritten⟩ := touched
  refine ⟨written, ?_⟩
  rw [Instance.pendingChanges_flush, Instance.lookup_pending_writeRecord, if_neg (by simp)]
  exact isWritten

/-- A node is created: `prepared` is flushed with its new `NODE_META` record. -/
theorem Followed.recorded (followed : Followed base live txn) {name : String}
    {prepared : GraphInstance} {recorded : NodeInfo} {objectVersion : Nat}
    (working : ∀ {Good : String → NodeInfo → Prop}, Working base Good txn.graph.inst →
      Working base Good prepared)
    (sameStore : txn.graph.inst.SameStore prepared)
    (touched : txn.graph.inst.Touched → prepared.Touched)
    (present : (prepared.getRecord (.node, name)).isSome)
    (isRecorded : recorded = { txn.graph.inst.readNode name with
      graphVersions := (txn.graph.inst.readNode name).graphVersions ++ [prepared.version] })
    (below : ∀ graphVersion ∈ (txn.graph.inst.readNode name).graphVersions,
      graphVersion < prepared.version) :
    let after := (prepared.writeRecord (.nodeMeta, name) objectVersion recorded).flush
    Followed base (fun other => live other ∨ other = name)
      ⟨{ txn.graph with inst := after }, txn.objects ++ [⟨name, none, some recorded⟩]⟩ := by
  intro after
  have flushed : ∀ other, after.records.lookup (.node, other) =
      prepared.getRecord (.node, other) := by
    intro other
    rw [Instance.lookup_records_flush, Instance.getRecord_writeRecord, if_neg (by simp)]
  have stillStored : ∀ other, txn.graph.inst.Stored other → after.Stored other := by
    intro other stored
    apply stored_of_getRecord flushed
    unfold Instance.Stored
    rw [sameStore.1]
    exact stored
  have nowStored : after.Stored name := by
    unfold Instance.Stored
    rw [flushed]
    exact present
  have kept : txn.Kept base (Listed base after.Stored
      fun other => (live other ∨ other = name) ∨ other ∈ txn.graph.removedNodes) :=
    followed.kept.mono fun other info listed =>
      ⟨listed.derived, fun carries => stillStored other (listed.stored carries), fun carries =>
        (listed.known carries).imp_left Or.inl⟩
  have workingNow := working kept.working
  have derived := (kept.working.good name).derived
  have recordedDerived : Derived base base.changelist.currentVersion name recorded := by
    rw [isRecorded]
    exact derived.recordVersion workingNow.le_version workingNow.version_le below
  have sameWanted : ({ txn.graph with inst := after } : GraphDB).wantedVersion =
      txn.graph.wantedVersion := rfl
  refine ⟨⟨(workingNow.writeMeta name objectVersion recorded).flush, ?_⟩,
    followed.current.append sameWanted (by simp), fun _ _ => Or.inr ?_, ?_⟩
  · intro object member
    rcases List.mem_append.mp member with old | new
    · exact kept.objects object old
    · rw [List.mem_singleton.mp new]
      exact Node.Sound.of_info ⟨recordedDerived, fun _ => nowStored, fun _ =>
        Or.inl (Or.inr rfl)⟩
  · exact Instance.pending_writeRecord_pos prepared (.nodeMeta, name) objectVersion recorded
  · exact followed.removed.imp_right fun isTouched =>
      touched_flush (touched isTouched) name objectVersion recorded

theorem Followed.apply_create (followed : Followed base live txn) (name : String) :
    Followed base ((TxnOp.create name).live txn live) (txn.apply (.create name)) := by
  cases listed : GraphDB.hasVersionOrHigher txn.graph.version
      (txn.graph.inst.readNode name).graphVersions with
  | true =>
      have isNone : txn.graph.create name = (none, txn.graph) := by
        rw [GraphDB.create_eq, if_pos listed]
      have sameLive : (TxnOp.create name).live txn live = live := by
        funext other
        simp [TxnOp.live, isNone]
      rw [sameLive]
      simpa only [OpenTxn.apply, isNone] using followed
  | false =>
      have below := followed.below_prepared listed
      have created := GraphDB.create_of_unlisted below listed
      have liveNow : (TxnOp.create name).live txn live = fun other => live other ∨ other = name := by
        funext other
        simp [TxnOp.live, created]
      have working : ∀ {Good : String → NodeInfo → Prop},
          Working base Good txn.graph.inst → Working base Good (txn.graph.prepared name) := by
        intro Good working
        unfold GraphDB.prepared
        split
        · exact (Node.commit_working working (Node.Sound.of_info (working.good name))).1
        · exact working
      have touched : txn.graph.inst.Touched → (txn.graph.prepared name).Touched := by
        intro isTouched
        unfold GraphDB.prepared
        split
        · exact touched_closed _ _ _ _ isTouched
        · exact isTouched
      simp only [OpenTxn.apply, created]
      rw [liveNow]
      exact followed.recorded working (Instance.SameStore.of_prepared ⟨rfl, rfl⟩ name) touched
        (txn.graph.getRecord_prepared name) rfl below

/-- Every operation keeps track of the live nodes. -/
theorem Followed.apply (followed : Followed base live txn) (op : TxnOp) :
    Followed base (op.live txn live) (txn.apply op) := by
  cases op with
  | create name => exact followed.apply_create name
  | remove node => exact followed.apply_remove node
  | _ =>
      refine ⟨followed.kept_apply (by simp) ?_, followed.current.apply _,
        fun name isLive => followed.started_apply (by simp) isLive, ?_⟩
      · intro name known
        rw [removedNodes_apply txn (by simp) (by simp)]
        exact known
      · rw [removedNodes_apply txn (by simp) (by simp)]
        exact followed.removed.imp_right (txn.apply_closed touched_closed (by simp))

theorem Followed.applyAll (followed : Followed base live txn) (ops : List TxnOp) :
    Followed base (txn.liveAfter live ops) (txn.applyAll ops) := by
  induction ops generalizing txn live with
  | nil => exact followed
  | cons op ops ih => exact ih (followed.apply op)

end Steps

/-! ## Whole histories -/

namespace GraphDB

/-- A transaction clears the marks of the nodes it removed. -/
theorem Settled.removedNodes_transaction {graph : GraphDB} (settled : graph.Settled)
    (noneRemoved : graph.removedNodes = []) (ops : List TxnOp) :
    (graph.transaction ops).removedNodes = [] := by
  have followed := (Followed.start settled noneRemoved).applyAll ops
  change (((⟨graph, []⟩ : OpenTxn).applyAll ops).graph.endTxn graph.version false).removedNodes = []
  unfold endTxn
  dsimp only
  split
  · rfl
  · rename_i notAdvanced
    refine followed.removed.resolve_right fun touched => notAdvanced ?_
    have advanced : ((⟨graph, []⟩ : OpenTxn).applyAll ops).graph.version =
        graph.inst.changelist.currentVersion + 1 :=
      followed.kept.working.version_of_pending touched.pending_pos
    have started := settled.version_eq
    omega

/-- Between transactions no node is marked as removed. -/
theorem removedNodes_history (txns : List (List TxnOp)) : (history txns).removedNodes = [] := by
  induction txns using List.reverseRecOn with
  | nil => rfl
  | append_singleton front ops ih =>
      rw [history_append]
      exact (history_settled front).removedNodes_transaction ih ops

/-- What holds after some operations of a transaction that follows a history. -/
theorem followed_history (txns : List (List TxnOp)) (ops : List TxnOp) :
    Followed (history txns).inst
      ((⟨history txns, []⟩ : OpenTxn).liveAfter (history txns).inst.Live ops)
      ((⟨history txns, []⟩ : OpenTxn).applyAll ops) :=
  (Followed.start (history_settled txns) (removedNodes_history txns)).applyAll ops

end GraphDB

end Rangexx
