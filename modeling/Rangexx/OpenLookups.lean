import Rangexx.TransactionLiveness

/-!
# Lookups in an open transaction

`version` is one higher as soon as something is pending, and `get_node` and
`create` look for that version in the record of the node.  The records of the
live nodes get it when the transaction ends; until then only a node that was
created in the transaction can have it.
-/

namespace Rangexx

open AscendingScan

section Lookups

variable {base : GraphInstance} {live : String → Prop} {txn : OpenTxn}

/-- No record carries a version above the one the graph reports. -/
theorem Followed.graphVersion_le (followed : Followed base live txn) (committed : Committed base)
    {name : String} {graphVersion : Nat}
    (member : graphVersion ∈ (txn.graph.inst.readNode name).graphVersions) :
    graphVersion ≤ txn.graph.version := by
  have working := followed.kept.working
  have derived := (working.good name).derived
  rcases Nat.eq_zero_or_pos txn.graph.inst.pending with nothing | something
  · have notPending : txn.graph.inst.pendingChanges.lookup (.node, name) = none := by
      rw [(Instance.pending_eq_zero_iff _).mp nothing]
      rfl
    rw [working.readNode_of_not_pending committed notPending] at member
    exact Nat.le_trans (committed.graphVersions name graphVersion member) working.le_version
  · have version : txn.graph.version = base.changelist.currentVersion + 1 :=
      working.version_of_pending something
    rw [version]
    rcases derived.graphVersions graphVersion member with old | ⟨_, le⟩
    · exact Nat.le_succ_of_le (committed.graphVersions name graphVersion old)
    · exact le

/-- `get_node` and `create` look for the version in the same list. -/
theorem Followed.getNode_isSome_iff (followed : Followed base live txn) (name : String) :
    (txn.graph.getNode name).isSome ↔
      txn.graph.version ∈ (txn.graph.inst.readNode name).graphVersions := by
  have listed := followed.kept.working.good name
  have ascending := listed.derived.wf.graphVersions
  have carried : scan txn.graph.version (txn.graph.inst.readNode name).graphVersions = .equal ↔
      txn.graph.version ∈ (txn.graph.inst.readNode name).graphVersions :=
    scan_eq_equal_iff ascending
  unfold GraphDB.getNode
  simp only [followed.current.graph, Option.getD_none]
  cases found : txn.graph.inst.records.lookup (.node, name) with
  | none =>
      refine ⟨by simp, fun member => ?_⟩
      have stored := listed.stored (List.ne_nil_of_mem member)
      unfold Instance.Stored at stored
      rw [found] at stored
      simp at stored
  | some info =>
      rw [← carried]
      dsimp only
      split
      · rename_i equal
        simp [equal]
      · rename_i notEqual
        simp [notEqual]

theorem Followed.create_eq_none_iff (followed : Followed base live txn)
    (committed : Committed base) (name : String) :
    (txn.graph.create name).1 = none ↔
      txn.graph.version ∈ (txn.graph.inst.readNode name).graphVersions := by
  have ascending := (followed.kept.working.good name).derived.wf.graphVersions
  rw [GraphDB.create_eq_none_iff, GraphDB.hasVersionOrHigher_iff ascending]
  constructor
  · rintro ⟨graphVersion, member, reached⟩
    have same := Nat.le_antisymm reached (followed.graphVersion_le committed member)
    rwa [same]
  · intro member
    exact ⟨_, member, Nat.le_refl _⟩

/-- A live node is on record with the version as long as nothing is pending,
and afterwards when its own record is pending with it. -/
theorem Followed.carries_iff (followed : Followed base live txn) (committed : Committed base)
    {name : String} (isLive : live name) :
    txn.graph.version ∈ (txn.graph.inst.readNode name).graphVersions ↔
      txn.graph.inst.pending = 0 ∨ ∃ change,
        txn.graph.inst.pendingChanges.lookup (.node, name) = some change ∧
          base.changelist.currentVersion + 1 ∈ change.data.graphVersions := by
  have working := followed.kept.working
  rcases Nat.eq_zero_or_pos txn.graph.inst.pending with nothing | something
  · have notPending : txn.graph.inst.pendingChanges.lookup (.node, name) = none := by
      rw [(Instance.pending_eq_zero_iff _).mp nothing]
      rfl
    have version : txn.graph.version = base.changelist.currentVersion := by
      rw [GraphDB.version, Instance.version_of_not_pending nothing, working.changelist]
    have baseLive : base.Live name := (followed.started name isLive).resolve_right (by omega)
    rw [working.readNode_of_not_pending committed notPending, version]
    exact ⟨fun _ => Or.inl nothing, fun _ => baseLive⟩
  · have version : txn.graph.version = base.changelist.currentVersion + 1 :=
      working.version_of_pending something
    rw [or_iff_right (by omega)]
    cases found : txn.graph.inst.pendingChanges.lookup (.node, name) with
    | none =>
        rw [working.readNode_of_not_pending committed found, version]
        refine ⟨fun member => ?_, by simp⟩
        have := committed.graphVersions name _ member
        omega
    | some change =>
        have read : txn.graph.inst.readNode name = change.data := by
          simp [Instance.readNode, Instance.getRecord, found]
        simp [read, version]

end Lookups

namespace GraphDB

/-- In an open transaction a live node is found, and not created a second time,
exactly as long as nothing is pending or when its own record is pending and
carries the version after the committed one. -/
theorem lookups_right_iff (txns : List (List TxnOp)) (ops : List TxnOp) {name : String}
    (isLive : (⟨history txns, []⟩ : OpenTxn).liveAfter (history txns).inst.Live ops name) :
    let graph := ((⟨history txns, []⟩ : OpenTxn).applyAll ops).graph
    ((graph.getNode name).isSome ∧ (graph.create name).1 = none) ↔
      graph.inst.pending = 0 ∨ ∃ change,
        graph.inst.pendingChanges.lookup (.node, name) = some change ∧
          (history txns).version + 1 ∈ change.data.graphVersions := by
  intro graph
  have followed := followed_history txns ops
  have committed := (history_settled txns).committed
  rw [followed.getNode_isSome_iff, followed.create_eq_none_iff committed, and_self,
    (history_settled txns).version_eq]
  exact followed.carries_iff committed isLive

/-- A host that is created and given its type can be looked up before the
transaction ends. -/
theorem lookups_right_created :
    let graph := ((⟨history [], []⟩ : OpenTxn).applyAll
      [.create "web1", .setType 0 .host]).graph
    (graph.getNode "web1").isSome ∧ (graph.create "web1").1 = none := by
  refine (lookups_right_iff [] [.create "web1", .setType 0 .host] ?_).mpr ?_
  · exact Or.inr ⟨by decide, rfl⟩
  · exact Or.inr ⟨_, rfl, by decide⟩

/-- A host that is given a tag is not found again, and is created a second
time. -/
theorem lookups_wrong_tagged :
    ¬ ∀ (txns : List (List TxnOp)) (ops : List TxnOp) (name : String),
      (⟨history txns, []⟩ : OpenTxn).liveAfter (history txns).inst.Live ops name →
        let graph := ((⟨history txns, []⟩ : OpenTxn).applyAll ops).graph
        (graph.getNode name).isSome ∧ (graph.create name).1 = none := by
  intro right
  have lookups := right [[.create "web1", .setType 0 .host]]
    [.getNode "web1", .updateTag 0 "os" ["linux"]] "web1"
    (show Instance.Live _ "web1" by decide)
  revert lookups
  decide

end GraphDB

end Rangexx
