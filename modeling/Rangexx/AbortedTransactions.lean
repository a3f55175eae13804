import Rangexx.OpenTransactions

/-!
# Aborted transactions

`abort` forgets what is pending.  What was flushed before stays in the table:
`add_graph_version`, which `create` calls, flushes all that is pending, and so
an aborted transaction leaves behind what could be read after its last flush.
-/

namespace Rangexx

/-- A call in a transaction: one of its operations, or `add_graph_version` of
an object. -/
inductive TxnCall where
  | op (op : TxnOp)
  | addGraphVersion (node version : Nat)
  deriving DecidableEq, Repr

namespace OpenTxn

def applyCall (txn : OpenTxn) : TxnCall → OpenTxn
  | .op op => txn.apply op
  | .addGraphVersion node version =>
      (txn.call node fun object inst =>
        let (object, inst) := object.addGraphVersion version inst
        (true, object, inst)).2

def applyCalls (txn : OpenTxn) (calls : List TxnCall) : OpenTxn :=
  calls.foldl applyCall txn

/-- `GraphTxn::abort`, and the end of the transaction. -/
def abort (txn : OpenTxn) (startVersion : Nat) : GraphDB :=
  ({ txn.graph with inst := txn.graph.inst.abort } : GraphDB).endTxn startVersion false

end OpenTxn

/-- The call flushes: it creates a node that does not carry the version, or it
adds a version above all that its object carries. -/
def TxnCall.Flushes (txn : OpenTxn) : TxnCall → Prop
  | .op (.create name) =>
      GraphDB.hasVersionOrHigher txn.graph.version
          (txn.graph.inst.readNode name).graphVersions = false ∧
        ∀ graphVersion ∈ (txn.graph.inst.readNode name).graphVersions,
          graphVersion < (txn.graph.prepared name).version
  | .op _ => False
  | .addGraphVersion node version =>
      ∃ object, txn.objects[node]? = some object ∧
        ∀ graphVersion ∈ (object.initInfo txn.graph.inst).graphVersions, graphVersion < version

/-- No call of the list, run from `txn`, flushes. -/
def OpenTxn.NoFlush : OpenTxn → List TxnCall → Prop
  | _, [] => True
  | txn, call :: rest => ¬ call.Flushes txn ∧ (txn.applyCall call).NoFlush rest

/-! ## One call -/

theorem Node.addGraphVersion_unflushed {node : Node} {version : Nat} {inst : GraphInstance}
    (recorded : ¬ ∀ graphVersion ∈ (node.initInfo inst).graphVersions, graphVersion < version) :
    (node.addGraphVersion version inst).2 = inst := by
  unfold Node.addGraphVersion
  dsimp only
  split
  · rfl
  · rename_i noneAbove
    refine absurd (fun graphVersion member => ?_) recorded
    by_contra above
    apply noneAbove
    rw [List.any_eq_true]
    exact ⟨graphVersion, member, by simpa using above⟩

namespace OpenTxn

/-- A call that does not flush leaves the table alone. -/
theorem sameStore_applyCall {start : GraphInstance} {txn : OpenTxn} {call : TxnCall}
    (unflushed : ¬ call.Flushes txn) (same : start.SameStore txn.graph.inst) :
    start.SameStore (txn.applyCall call).graph.inst := by
  cases call with
  | addGraphVersion node version =>
      cases found : txn.objects[node]? with
      | none => simpa [applyCall, OpenTxn.call, found] using same
      | some object =>
          have recorded : ¬ ∀ graphVersion ∈ (object.initInfo txn.graph.inst).graphVersions,
              graphVersion < version := fun below => unflushed ⟨object, found, below⟩
          have kept := Node.addGraphVersion_unflushed recorded
          simpa [applyCall, OpenTxn.call, found, setInst, kept] using same
  | op op =>
      by_cases creates : ∃ name, op = .create name
      · obtain ⟨name, rfl⟩ := creates
        have created : start.SameStore (txn.graph.create name).2.inst := by
          rw [GraphDB.create_eq]
          split
          · exact same
          · rename_i unlisted
            have recorded : ¬ ∀ graphVersion ∈ ((Node.loaded txn.graph.inst name).initInfo
                (txn.graph.prepared name)).graphVersions,
                graphVersion < (txn.graph.prepared name).version :=
              fun below => unflushed ⟨by simpa using unlisted, below⟩
            rw [Node.addGraphVersion_unflushed recorded]
            exact same.of_prepared name
        simp only [applyCall, OpenTxn.apply]
        split
        · rename_i graph result
          rw [result] at created
          exact created
        · rename_i object graph result
          rw [result] at created
          exact created
      · exact txn.apply_closed (sameStore_closed start)
          (fun name isCreate => creates ⟨name, isCreate⟩) same

/-- A call that flushes leaves nothing that could be read but is not stored. -/
theorem lookup_applyCall_of_flushes {txn : OpenTxn} {call : TxnCall} (flushes : call.Flushes txn)
    (key : RecordKey) :
    (txn.applyCall call).graph.inst.records.lookup key =
      (txn.applyCall call).graph.inst.getRecord key := by
  cases call with
  | addGraphVersion node version =>
      obtain ⟨object, found, below⟩ := flushes
      simp only [applyCall, OpenTxn.call, found, setInst, Node.addGraphVersion_of_below below,
        Instance.getRecord_flush]
      exact Instance.lookup_records_flush _ key
  | op op =>
      cases op with
      | create name =>
          obtain ⟨unlisted, below⟩ := flushes
          simp only [applyCall, OpenTxn.apply, GraphDB.create_of_unlisted below unlisted,
            Instance.getRecord_flush]
          exact Instance.lookup_records_flush _ key
      | _ => exact absurd flushes id

theorem changelist_applyCall (txn : OpenTxn) (call : TxnCall) :
    (txn.applyCall call).graph.inst.changelist = txn.graph.inst.changelist := by
  by_cases flushes : call.Flushes txn
  · cases call with
    | addGraphVersion node version =>
        obtain ⟨object, found, _⟩ := flushes
        simp only [applyCall, OpenTxn.call, found, setInst]
        exact Node.changelist_addGraphVersion object version txn.graph.inst
    | op op =>
        cases op with
        | create name =>
            obtain ⟨unlisted, below⟩ := flushes
            have prepared : (txn.graph.prepared name).changelist = txn.graph.inst.changelist := by
              unfold GraphDB.prepared
              split
              · rfl
              · rfl
            simp only [applyCall, OpenTxn.apply, GraphDB.create_of_unlisted below unlisted]
            exact prepared
        | _ => exact absurd flushes id
  · exact (sameStore_applyCall flushes ⟨rfl, rfl⟩).2

/-! ## Runs -/

theorem changelist_applyCalls (txn : OpenTxn) (calls : List TxnCall) :
    (txn.applyCalls calls).graph.inst.changelist = txn.graph.inst.changelist := by
  induction calls generalizing txn with
  | nil => rfl
  | cons call rest ih => exact (ih (txn.applyCall call)).trans (txn.changelist_applyCall call)

theorem NoFlush.sameStore {start : GraphInstance} {txn : OpenTxn} {calls : List TxnCall}
    (noFlush : txn.NoFlush calls) (same : start.SameStore txn.graph.inst) :
    start.SameStore (txn.applyCalls calls).graph.inst := by
  induction calls generalizing txn with
  | nil => exact same
  | cons call rest ih => exact ih noFlush.2 (sameStore_applyCall noFlush.1 same)

theorem NoFlush.not_flushes {txn : OpenTxn} {before after : List TxnCall} {call : TxnCall}
    (noFlush : txn.NoFlush (before ++ call :: after)) :
    ¬ call.Flushes (txn.applyCalls before) := by
  induction before generalizing txn with
  | nil => exact noFlush.1
  | cons first rest ih => exact ih noFlush.2

/-- A run has no flush or a last one. -/
theorem exists_lastFlush (txn : OpenTxn) (calls : List TxnCall) :
    txn.NoFlush calls ∨ ∃ before call after, calls = before ++ call :: after ∧
      call.Flushes (txn.applyCalls before) ∧
      ((txn.applyCalls before).applyCall call).NoFlush after := by
  induction calls generalizing txn with
  | nil => exact Or.inl trivial
  | cons call rest ih =>
      rcases ih (txn.applyCall call) with noFlush | ⟨before, last, after, rfl, flushes, noFlush⟩
      · by_cases flushes : call.Flushes txn
        · exact Or.inr ⟨[], call, rest, rfl, flushes, noFlush⟩
        · exact Or.inl ⟨flushes, noFlush⟩
      · exact Or.inr ⟨call :: before, last, after, rfl, flushes, noFlush⟩

end OpenTxn

theorem OpenTxn.abort_eq {txn : OpenTxn} {startVersion : Nat}
    (same : txn.graph.inst.changelist.currentVersion = startVersion) :
    (txn.abort startVersion).inst = { txn.graph.inst with pendingChanges := ∅ } := by
  have noneLeft : (txn.graph.inst.abort).pending = 0 := rfl
  have sameVersion : startVersion =
      ({ txn.graph with inst := txn.graph.inst.abort } : GraphDB).version :=
    same.symm.trans (Instance.version_of_not_pending noneLeft).symm
  exact GraphDB.endTxn_closed rfl startVersion sameVersion false

namespace GraphDB

/-- An aborted transaction restores the changelist and the version, and it
restores the records exactly when what could be read after its last flush, if
there was one, is what was stored at its start. -/
theorem abort_restores_iff {graph : GraphDB} (closed : graph.inst.pendingChanges = ∅)
    (calls : List TxnCall) :
    let start : OpenTxn := ⟨graph, []⟩
    let aborted := (start.applyCalls calls).abort graph.version
    aborted.inst.changelist = graph.inst.changelist ∧ aborted.version = graph.version ∧
      ((∀ key, aborted.inst.records.lookup key = graph.inst.records.lookup key) ↔
        ∀ before call after, calls = before ++ call :: after →
          call.Flushes (start.applyCalls before) →
          ((start.applyCalls before).applyCall call).NoFlush after →
          ∀ key, ((start.applyCalls before).applyCall call).graph.inst.getRecord key =
            graph.inst.records.lookup key) := by
  intro start aborted
  have startVersion : graph.version = graph.inst.changelist.currentVersion :=
    Instance.version_of_not_pending ((Instance.pending_eq_zero_iff _).mpr closed)
  have sameChangelist : (start.applyCalls calls).graph.inst.changelist = graph.inst.changelist :=
    start.changelist_applyCalls calls
  have restored : aborted.inst = { (start.applyCalls calls).graph.inst with pendingChanges := ∅ } :=
    OpenTxn.abort_eq (by rw [sameChangelist, startVersion])
  -- After the last flush the stored records stay as they could be read then.
  have leftBehind : ∀ before call after, calls = before ++ call :: after →
      call.Flushes (start.applyCalls before) →
      ((start.applyCalls before).applyCall call).NoFlush after →
      ∀ key, aborted.inst.records.lookup key =
        ((start.applyCalls before).applyCall call).graph.inst.getRecord key := by
    intro before call after split flushes noFlush key
    have ran : start.applyCalls calls =
        ((start.applyCalls before).applyCall call).applyCalls after := by
      rw [split]
      simp [OpenTxn.applyCalls]
    have kept := noFlush.sameStore (⟨rfl, rfl⟩ : Instance.SameStore _ _)
    rw [restored, ran, ← OpenTxn.lookup_applyCall_of_flushes flushes key]
    exact congrArg (AList.lookup key) kept.1
  refine ⟨by rw [restored]; exact sameChangelist, ?_, ?_, ?_⟩
  · rw [startVersion, GraphDB.version, restored, ← sameChangelist]
    rfl
  · intro same before call after split flushes noFlush key
    rw [← leftBehind before call after split flushes noFlush key]
    exact same key
  · intro harmless key
    rcases start.exists_lastFlush calls with noFlush | ⟨before, call, after, split, flushes, noFlush⟩
    · have kept := noFlush.sameStore (⟨rfl, rfl⟩ : graph.inst.SameStore start.graph.inst)
      rw [restored]
      exact congrArg (AList.lookup key) kept.1
    · rw [leftBehind before call after split flushes noFlush key]
      exact harmless before call after split flushes noFlush key

/-- A transaction on the store with one host that flushes nothing. -/
def hostRetagged : List TxnCall :=
  [.op (.getNode "web1"), .op (.updateTag 0 "os" ["linux"]), .addGraphVersion 0 1,
    .op (.setType 0 .cluster)]

theorem abort_restores_hostRetagged :
    let graph := history [[.create "web1", .setType 0 .host]]
    let aborted := ((⟨graph, []⟩ : OpenTxn).applyCalls hostRetagged).abort graph.version
    aborted.version = 1 ∧
      ∀ key, aborted.inst.records.lookup key = graph.inst.records.lookup key := by
  intro graph aborted
  have closed : graph.inst.pendingChanges = ∅ := (history_settled _).committed.pending
  obtain ⟨_, version, restored⟩ := abort_restores_iff closed hostRetagged
  refine ⟨version.trans (by decide), restored.mpr ?_⟩
  have recorded : ¬ TxnCall.Flushes ((⟨graph, []⟩ : OpenTxn).applyCalls (hostRetagged.take 2))
      (.addGraphVersion 0 1) := by
    have versions : (((⟨graph, []⟩ : OpenTxn).applyCalls
        (hostRetagged.take 2)).objects[0]?.map fun object =>
          (object.initInfo ((⟨graph, []⟩ : OpenTxn).applyCalls
            (hostRetagged.take 2)).graph.inst).graphVersions) = some [1] := by
      decide
    rintro ⟨object, found, below⟩
    rw [found, Option.map_some, Option.some.injEq] at versions
    rw [versions] at below
    exact absurd (below 1 (by simp)) (by simp)
  have noFlush : (⟨graph, []⟩ : OpenTxn).NoFlush hostRetagged :=
    ⟨id, id, recorded, id, trivial⟩
  intro before call after split flushes
  rw [split] at noFlush
  exact absurd flushes noFlush.not_flushes

/-- A creation that is aborted leaves its records in the table. -/
theorem abort_leaves_created :
    ¬ ∀ (graph : GraphDB) (calls : List TxnCall), graph.inst.pendingChanges = ∅ →
      ∀ key, (((⟨graph, []⟩ : OpenTxn).applyCalls calls).abort
          graph.version).inst.records.lookup key =
        graph.inst.records.lookup key := by
  intro restores
  have same := restores (ofInstance .empty) [.op (.create "web1")] rfl (.node, "web1")
  revert same
  decide

end GraphDB

end Rangexx
