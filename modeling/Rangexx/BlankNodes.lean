import Rangexx.NodeEdits
import Rangexx.TransactionLiveness

/-!
# Blank nodes

`remove` takes the edges off a node and leaves its tags, and `create` goes on
with the record that is there.  A record that shows something is expected to
belong to a live node: it carries the version its transaction started at, and
was not removed since, or the next one.  As long as no node is removed with its
tags and nothing is changed through an object of a node that is not live, a new
node is blank.
-/

namespace Rangexx

open AscendingScan

/-- The record shows no edges and no tags. -/
def NodeInfo.Blank (info : NodeInfo) : Prop :=
  (∀ direction other, ¬ info.Present direction other) ∧ ∀ key, info.tagNow key = none

/-- A list of graph versions with the version a transaction started at, in a
node that is not among the removed ones, or with the next version. -/
def UpToDate (startVersion : Nat) (removed : List String) (name : String)
    (graphVersions : List Nat) : Prop :=
  (startVersion ∈ graphVersions ∧ name ∉ removed) ∨ startVersion + 1 ∈ graphVersions

instance (startVersion : Nat) (removed : List String) (name : String)
    (graphVersions : List Nat) :
    Decidable (UpToDate startVersion removed name graphVersions) :=
  inferInstanceAs (Decidable (_ ∧ _ ∨ _))

namespace OpenTxn

/-- The object at a position, if there is one, is that of a live node. -/
def LiveObject (txn : OpenTxn) (node : Nat) : Prop :=
  ∀ object, txn.objects[node]? = some object →
    UpToDate txn.graph.inst.changelist.currentVersion txn.graph.removedNodes object.name
      (object.initInfo txn.graph.inst).graphVersions

instance (txn : OpenTxn) (node : Nat) : Decidable (txn.LiveObject node) :=
  inferInstanceAs (Decidable (∀ object ∈ txn.objects[node]?, _))

/-- The object at a position, if there is one, shows no tags. -/
def Untagged (txn : OpenTxn) (node : Nat) : Prop :=
  ∀ object, txn.objects[node]? = some object →
    ∀ key, (object.initInfo txn.graph.inst).tagNow key = none

end OpenTxn

/-- Nodes are changed while they are live, and removed without tags. -/
def TxnOp.Clean (txn : OpenTxn) : TxnOp → Prop
  | .getNode _ => True
  | .create _ => True
  | .remove node => txn.Untagged node
  | .addEdge _ node other updateOther =>
      txn.LiveObject node ∧ (updateOther = true → txn.LiveObject other)
  | .removeEdge _ node other updateOther =>
      txn.LiveObject node ∧ (updateOther = true → txn.LiveObject other)
  | .neighbours _ _ => True
  | .updateTag node _ _ => txn.LiveObject node
  | .deleteTag node _ => txn.LiveObject node
  | .setType node _ => txn.LiveObject node

/-- Every operation of the list, run from `txn`, is clean. -/
def OpenTxn.Clean : OpenTxn → List TxnOp → Prop
  | _, [] => True
  | txn, op :: ops => op.Clean txn ∧ (txn.apply op).Clean ops

/-- Every transaction of the list, run from `graph`, is clean. -/
def GraphDB.Clean : GraphDB → List (List TxnOp) → Prop
  | _, [] => True
  | graph, ops :: rest =>
      (⟨graph, []⟩ : OpenTxn).Clean ops ∧ (graph.transaction ops).Clean rest

/-! ## What an object shows -/

/-- The object has loaded a copy with the property. -/
def Node.Shows (Copy : NodeInfo → Prop) (node : Node) : Prop :=
  ∃ info, node.info = some info ∧ Copy info

section Copies

variable {Copy : NodeInfo → Prop}

theorem Node.Shows.change {node : Node} {update : NodeInfo → Option NodeInfo}
    (keeps : ∀ info changed, Copy info → update info = some changed → Copy changed)
    (shows : node.Shows Copy) (inst : GraphInstance) :
    (node.change update inst).2.1.Shows Copy := by
  obtain ⟨info, loaded, copy⟩ := shows
  have same : node.initInfo inst = info := by rw [Node.initInfo, loaded, Option.getD_some]
  cases updated : update (node.initInfo inst) with
  | none =>
      rw [Node.change_of_none updated]
      exact ⟨_, rfl, by rw [same]; exact copy⟩
  | some changed =>
      rw [Node.change_of_some updated]
      exact ⟨changed, rfl, keeps info changed copy (by rw [← same]; exact updated)⟩

theorem Node.detach_shows {node removed : Node} {version : Nat} {inst after : GraphInstance}
    (keepsAdd : ∀ direction other info changed, Copy info →
      info.addEdge direction other = some changed → Copy changed)
    (keepsRemove : ∀ direction other info changed, Copy info →
      info.removeEdge direction other = some changed → Copy changed)
    (detached : node.detach version inst = some (removed, after))
    (copy : Copy (node.initInfo inst)) : removed.Shows Copy := by
  have closed : HalfEdgeClosed (Node.Shows Copy) := fun _ direction other inst shows =>
    ⟨shows.change (keepsAdd direction other) inst, shows.change (keepsRemove direction other) inst⟩
  exact Node.detach_object closed detached ⟨_, rfl, copy⟩

end Copies

/-! ## One operation -/

/-- Every record that shows something is up to date. -/
def Tidy (startVersion : Nat) (removed : List String) (inst : GraphInstance) : Prop :=
  ∀ name, (inst.readNode name).Blank ∨
    UpToDate startVersion removed name (inst.readNode name).graphVersions

/-- The update of the object's copy leaves its versions. -/
def KeepsVersions (update : NodeInfo → Option NodeInfo) : Prop :=
  ∀ info changed, info.WF → update info = some changed →
    changed.graphVersions = info.graphVersions

theorem keepsVersions_addEdge (direction : Direction) (other : String) :
    KeepsVersions fun info => info.addEdge direction other :=
  fun _ _ wf added => (NodeInfo.addEdge_advance wf added).graphVersions

theorem keepsVersions_removeEdge (direction : Direction) (other : String) :
    KeepsVersions fun info => info.removeEdge direction other :=
  fun _ _ wf removed => (NodeInfo.removeEdge_advance wf removed).graphVersions

theorem keepsVersions_updateTag (key : String) (values : List String) :
    KeepsVersions fun info => some (info.updateTag key values) := by
  intro info changed wf updated
  rw [← Option.some.inj updated]
  exact (NodeInfo.updateTag_advance wf key values).graphVersions

theorem keepsVersions_deleteTag (key : String) :
    KeepsVersions fun info => info.deleteTag key :=
  fun _ _ wf deleted => (NodeInfo.deleteTag_advance wf deleted).graphVersions

theorem keepsVersions_setType (type : NodeType) :
    KeepsVersions fun info => some (info.setType type) := by
  intro info changed wf updated
  rw [← Option.some.inj updated]
  exact (NodeInfo.setType_advance wf type).graphVersions

section Changes

variable {startVersion : Nat} {removed : List String} {inst : GraphInstance} {object : Node}
  {update : NodeInfo → Option NodeInfo} (keeps : KeepsVersions update)
  (wf : (object.initInfo inst).WF)
  (upToDate : UpToDate startVersion removed object.name (object.initInfo inst).graphVersions)

include keeps wf upToDate

/-- A change through an object that is up to date. -/
theorem Tidy.change (tidy : Tidy startVersion removed inst) :
    Tidy startVersion removed (object.change update inst).2.2 := by
  intro name
  cases updated : update (object.initInfo inst) with
  | none =>
      rw [Node.change_of_none updated]
      exact tidy name
  | some changed =>
      rw [Node.change_of_some updated, readNode_writeRecord_node]
      split
      · rename_i same
        rw [keeps _ _ wf updated, same]
        exact Or.inr upToDate
      · exact tidy name

/-- After such a change every object that was up to date still is. -/
theorem UpToDate.change {other : Node}
    (otherUpToDate : UpToDate startVersion removed other.name
      (other.initInfo inst).graphVersions) :
    UpToDate startVersion removed other.name
      (other.initInfo (object.change update inst).2.2).graphVersions := by
  cases loaded : other.info with
  | some info => simpa [Node.initInfo, loaded] using otherUpToDate
  | none =>
      simp only [Node.initInfo, loaded, Option.getD_none] at otherUpToDate ⊢
      cases updated : update (object.initInfo inst) with
      | none =>
          rw [Node.change_of_none updated]
          exact otherUpToDate
      | some changed =>
          rw [Node.change_of_some updated, readNode_writeRecord_node]
          split
          · rename_i same
            rw [keeps _ _ wf updated, same]
            exact upToDate
          · exact otherUpToDate

theorem UpToDate.changed :
    UpToDate startVersion removed (object.change update inst).2.1.name
      ((object.change update inst).2.1.initInfo
        (object.change update inst).2.2).graphVersions := by
  cases updated : update (object.initInfo inst) with
  | none =>
      rw [Node.change_of_none updated]
      exact upToDate
  | some changed =>
      rw [Node.change_of_some updated]
      change UpToDate startVersion removed object.name changed.graphVersions
      rw [keeps _ _ wf updated]
      exact upToDate

end Changes

theorem Node.changelist_change (node : Node) (update : NodeInfo → Option NodeInfo)
    (inst : GraphInstance) : (node.change update inst).2.2.changelist = inst.changelist :=
  (node.change_closed (sameStore_closed inst) update ⟨rfl, rfl⟩).2

section Steps

variable {base : GraphInstance} {live : String → Prop} {txn : OpenTxn}

/-- The records of the transaction, and the version it started at. -/
def OpenTxn.Tidy (txn : OpenTxn) : Prop :=
  Rangexx.Tidy txn.graph.inst.changelist.currentVersion txn.graph.removedNodes txn.graph.inst

theorem OpenTxn.Kept.object_wf {Good : String → NodeInfo → Prop}
    (kept : txn.Kept base Good) (wfOf : ∀ name info, Good name info → info.WF) {node : Nat}
    {object : Node} (found : txn.objects[node]? = some object) :
    (object.initInfo txn.graph.inst).WF :=
  wfOf _ _ ((kept.objects object (List.mem_of_getElem? found)).initInfo kept.working)

variable {update : NodeInfo → Option NodeInfo}

theorem OpenTxn.Tidy.call {Good : String → NodeInfo → Prop} (kept : txn.Kept base Good)
    (wfOf : ∀ name info, Good name info → info.WF) (tidy : txn.Tidy)
    (keeps : KeepsVersions update) {node : Nat} (isLive : txn.LiveObject node) :
    (txn.call node fun object inst => object.change update inst).2.Tidy := by
  unfold OpenTxn.call
  cases found : txn.objects[node]? with
  | none => exact tidy
  | some object =>
      have changed := Rangexx.Tidy.change keeps (kept.object_wf wfOf found)
        (isLive object found) tidy
      rw [← object.changelist_change update] at changed
      exact changed

theorem OpenTxn.LiveObject.call {Good : String → NodeInfo → Prop} (kept : txn.Kept base Good)
    (wfOf : ∀ name info, Good name info → info.WF) (keeps : KeepsVersions update)
    {node other : Nat} (isLive : txn.LiveObject node) (otherLive : txn.LiveObject other) :
    (txn.call node fun object inst => object.change update inst).2.LiveObject other := by
  unfold OpenTxn.call
  cases found : txn.objects[node]? with
  | none => exact otherLive
  | some object =>
      have wf := kept.object_wf wfOf found
      have upToDate := isLive object found
      intro after isAfter
      change UpToDate (object.change update txn.graph.inst).2.2.changelist.currentVersion
        txn.graph.removedNodes after.name
        (after.initInfo (object.change update txn.graph.inst).2.2).graphVersions
      rw [object.changelist_change update]
      change (txn.objects.set node (object.change update txn.graph.inst).2.1)[other]? =
        some after at isAfter
      rw [List.getElem?_set] at isAfter
      split at isAfter
      · split at isAfter
        · obtain rfl := Option.some.inj isAfter
          exact UpToDate.changed keeps wf upToDate
        · simp at isAfter
      · exact UpToDate.change keeps wf upToDate (otherLive after isAfter)

theorem OpenTxn.Tidy.callBoth {Good : String → NodeInfo → Prop} (kept : txn.Kept base Good)
    (wfOf : ∀ name info, Good name info → info.WF) (tidy : txn.Tidy)
    {function : Direction → String → NodeInfo → Option NodeInfo}
    (keeps : ∀ direction name, KeepsVersions (function direction name))
    (keepsGood : ∀ direction name, KeepsGood Good (function direction name))
    {direction : Direction} {node other : Nat} {updateOther : Bool} (isLive : txn.LiveObject node)
    (otherLive : updateOther = true → txn.LiveObject other) :
    (txn.callBoth direction node other updateOther fun direction name object inst =>
      object.change (function direction name) inst).Tidy := by
  unfold OpenTxn.callBoth
  split
  · rename_i object otherObject _ _
    have first := tidy.call kept wfOf (keeps direction otherObject.name) isLive
    have firstKept := kept.call node fun object inst working sound =>
      Node.change_working (keepsGood direction otherObject.name) working sound
    have firstLive := fun wanted => OpenTxn.LiveObject.call kept wfOf
      (keeps direction otherObject.name) isLive (otherLive wanted)
    split
    · rename_i after result
      rw [result] at first
      exact first
    · rename_i after result
      rw [result] at first firstKept firstLive
      split
      · rename_i wanted
        exact first.call firstKept wfOf (keeps direction.opposite object.name) (firstLive wanted)
      · exact first
  · exact tidy

/-- A record of another node than the removed one, apart from its edges. -/
def Beside (inst : GraphInstance) (removed name : String) (info : NodeInfo) : Prop :=
  name ≠ removed → info.WF ∧ info.graphVersions = (inst.readNode name).graphVersions ∧
    ∀ key, info.tagNow key = (inst.readNode name).tagNow key

theorem Beside.edgeClosed (inst : GraphInstance) (removed : String) :
    EdgeClosed (Beside inst removed) where
  addEdge := by
    intro direction other name info changed beside added differs
    obtain ⟨wf, versions, tags⟩ := beside differs
    have advance := NodeInfo.addEdge_advance wf added
    exact ⟨advance.wf, advance.graphVersions.trans versions, fun key =>
      (NodeInfo.addEdge_tagNow wf added key).trans (tags key)⟩
  removeEdge := by
    intro direction other name info changed beside removed differs
    obtain ⟨wf, versions, tags⟩ := beside differs
    have advance := NodeInfo.removeEdge_advance wf removed
    exact ⟨advance.wf, advance.graphVersions.trans versions, fun key =>
      (NodeInfo.removeEdge_tagNow wf removed key).trans (tags key)⟩

/-- Removing an object without tags leaves its node blank and makes no other
record show more. -/
theorem Followed.tidy_detach (followed : Followed base live txn) (tidy : txn.Tidy)
    {node : Nat} {object removed : Node} {after : GraphInstance}
    (found : txn.objects[node]? = some object)
    (untagged : ∀ key, (object.initInfo txn.graph.inst).tagNow key = none)
    (detached : object.detach txn.graph.version txn.graph.inst = some (removed, after)) :
    Rangexx.Tidy txn.graph.inst.changelist.currentVersion
      (object.name :: txn.graph.removedNodes) after := by
  have kept := followed.kept
  have sound := kept.objects object (List.mem_of_getElem? found)
  have wf := kept.object_wf (fun _ _ listed => listed.derived.wf) found
  obtain ⟨sameName, _, _, holds, ownEdges, otherEdges⟩ :=
    Node.detach_edges (fun _ _ listed => listed.derived.wf)
      (Listed.nodeClosed base _ _).toEdgeClosed kept.working sound
      (followed.current.objects object (List.mem_of_getElem? found)) detached
  obtain ⟨info, loaded, _, ownTags⟩ : removed.Shows fun info =>
      info.WF ∧ ∀ key, info.tagNow key = none := by
    refine Node.detach_shows ?_ ?_ detached ⟨wf, untagged⟩
    · intro direction other info changed copy added
      exact ⟨(NodeInfo.addEdge_advance copy.1 added).wf, fun key =>
        (NodeInfo.addEdge_tagNow copy.1 added key).trans (copy.2 key)⟩
    · intro direction other info changed copy isRemoved
      exact ⟨(NodeInfo.removeEdge_advance copy.1 isRemoved).wf, fun key =>
        (NodeInfo.removeEdge_tagNow copy.1 isRemoved key).trans (copy.2 key)⟩
  have beside : Working base (Beside txn.graph.inst object.name) after :=
    (Node.detach_working (Beside.edgeClosed _ _)
      (kept.working.strengthen fun name _ =>
        ⟨(kept.working.good name).derived.wf, rfl, fun _ => rfl⟩)
      (fun _ _ differs => absurd rfl differs) detached).1
  intro name
  by_cases same : name = object.name
  · left
    subst same
    refine ⟨ownEdges, fun key => ?_⟩
    rw [Node.Holds, sameName, loaded, Option.some.injEq] at holds
    rw [← holds]
    exact ownTags key
  · obtain ⟨_, versions, tags⟩ := beside.good name same
    rw [versions]
    refine (tidy name).imp ?_ ?_
    · rintro ⟨noEdges, noTags⟩
      refine ⟨fun direction other present => ?_, fun key => (tags key).trans (noTags key)⟩
      exact noEdges direction other ((otherEdges name direction other same).mp present).1
    · exact Or.imp_left fun started => ⟨started.1, by simp [same, started.2]⟩

theorem Followed.tidy_remove (followed : Followed base live txn) (tidy : txn.Tidy) {node : Nat}
    (untagged : txn.Untagged node) : (txn.apply (.remove node)).Tidy := by
  cases found : txn.objects[node]? with
  | none => simpa only [OpenTxn.apply, found] using tidy
  | some object =>
      cases detached : object.detach txn.graph.version txn.graph.inst with
      | none => simpa only [OpenTxn.apply, found, GraphDB.remove, detached] using tidy
      | some result =>
          obtain ⟨removed, after⟩ := result
          have afterTidy := followed.tidy_detach tidy found (untagged object found) detached
          have sameList := (Node.detach_closed (sameStore_closed txn.graph.inst) detached
            ⟨rfl, rfl⟩).2
          simp only [OpenTxn.apply, found, GraphDB.remove, detached, OpenTxn.Tidy, sameList,
            (Node.detach_sameHandle detached).1]
          exact afterTidy

theorem Followed.tidy_create (followed : Followed base live txn) (tidy : txn.Tidy)
    (name : String) : (txn.apply (.create name)).Tidy := by
  have sameList : (txn.apply (.create name)).graph.inst.changelist = txn.graph.inst.changelist :=
    (followed.apply (.create name)).kept.working.changelist.trans
      followed.kept.working.changelist.symm
  cases listed : GraphDB.hasVersionOrHigher txn.graph.version
      (txn.graph.inst.readNode name).graphVersions with
  | true =>
      have isNone : txn.graph.create name = (none, txn.graph) := by
        rw [GraphDB.create_eq, if_pos listed]
      simpa only [OpenTxn.apply, isNone] using tidy
  | false =>
      have created := GraphDB.create_of_unlisted (followed.below_prepared listed) listed
      intro other
      rw [sameList]
      simp only [OpenTxn.apply, created, readNode_flush, readNode_writeRecord_nodeMeta,
        GraphDB.readNode_prepared]
      exact tidy other

/-- A clean operation keeps the records tidy. -/
theorem Followed.tidy_apply (followed : Followed base live txn) (tidy : txn.Tidy) {op : TxnOp}
    (clean : op.Clean txn) : (txn.apply op).Tidy := by
  have kept := followed.kept
  have wfOf : ∀ name info, Listed base txn.graph.inst.Stored
      (fun name => live name ∨ name ∈ txn.graph.removedNodes) name info → info.WF :=
    fun _ _ listed => listed.derived.wf
  have closed := Listed.nodeClosed base txn.graph.inst.Stored
    fun name => live name ∨ name ∈ txn.graph.removedNodes
  cases op with
  | getNode name =>
      simp only [OpenTxn.apply]
      split
      · exact tidy
      · exact tidy
  | create name => exact followed.tidy_create tidy name
  | remove node => exact followed.tidy_remove tidy clean
  | addEdge direction node other updateOther =>
      exact tidy.callBoth kept wfOf keepsVersions_addEdge closed.addEdge clean.1 clean.2
  | removeEdge direction node other updateOther =>
      exact tidy.callBoth kept wfOf keepsVersions_removeEdge closed.removeEdge clean.1 clean.2
  | neighbours direction node =>
      simp only [OpenTxn.apply]
      split
      · exact tidy
      · exact tidy
  | updateTag node key values =>
      exact tidy.call kept wfOf (keepsVersions_updateTag key values) clean
  | deleteTag node key => exact tidy.call kept wfOf (keepsVersions_deleteTag key) clean
  | setType node type => exact tidy.call kept wfOf (keepsVersions_setType type) clean

theorem Followed.tidy_applyAll (followed : Followed base live txn) (tidy : txn.Tidy)
    {ops : List TxnOp} (clean : txn.Clean ops) : (txn.applyAll ops).Tidy := by
  induction ops generalizing txn live with
  | nil => exact tidy
  | cons op ops ih =>
      exact ih (followed.apply op) (followed.tidy_apply tidy clean.1) clean.2

/-! ## The end of a transaction -/

theorem NodeInfo.Blank.recordVersion {info : NodeInfo} (blank : info.Blank) (version : Nat) :
    (info.recordVersion version).Blank := by
  refine ⟨?_, fun key => (info.recordVersion_tagNow version key).trans (blank.2 key)⟩
  rw [NodeInfo.recordVersion_present]
  exact blank.1

theorem NodeInfo.mem_recordVersion_of_mem {info : NodeInfo} {version graphVersion : Nat}
    (member : graphVersion ∈ info.graphVersions) :
    graphVersion ∈ (info.recordVersion version).graphVersions := by
  unfold recordVersion
  split
  · exact member
  · exact List.mem_append_left _ member

theorem GraphDB.changelist_foldl_updateVersion (inst : GraphInstance) (names : List String) :
    (names.foldl updateVersion inst).changelist = inst.changelist := by
  induction names generalizing inst with
  | nil => rfl
  | cons name rest ih =>
      exact (ih (updateVersion inst name)).trans (changelist_updateVersion inst name)

/-- A transaction that writes no node record leaves the node records alone. -/
theorem Working.readNode_of_untouched {Good : String → NodeInfo → Prop} {inst : GraphInstance}
    (committed : Committed base) (working : Working base Good inst) (untouched : ¬ inst.Touched)
    (name : String) : inst.readNode name = base.readNode name := by
  refine working.readNode_of_not_pending committed ?_
  by_contra pending
  exact untouched (Instance.touched_iff.mpr ⟨name, Option.isSome_iff_ne_none.mpr pending⟩)

/-- The end of the transaction lists a record that shows something with the
new version. -/
theorem Followed.next_mem (followed : Followed base live txn) (committed : Committed base)
    {name : String}
    (upToDate : UpToDate base.changelist.currentVersion txn.graph.removedNodes name
      (txn.graph.inst.readNode name).graphVersions) :
    base.changelist.currentVersion + 1 ∈
      (if name ∈ txn.graph.nodesRequiringUpdate base.version then
        (txn.graph.inst.readNode name).recordVersion (base.changelist.currentVersion + 1)
      else txn.graph.inst.readNode name).graphVersions := by
  have listed := followed.kept.working.good name
  have bounded : ∀ graphVersion ∈ (txn.graph.inst.readNode name).graphVersions,
      graphVersion ≤ base.changelist.currentVersion + 1 := by
    intro graphVersion member
    rcases listed.derived.graphVersions graphVersion member with old | ⟨_, le⟩
    · exact Nat.le_succ_of_le (committed.graphVersions name graphVersion old)
    · exact le
  rcases upToDate with ⟨started, notRemoved⟩ | next
  · have needed : name ∈ txn.graph.nodesRequiringUpdate base.version := by
      unfold GraphDB.nodesRequiringUpdate
      rw [List.mem_filter, GraphDB.mem_cursorNames, committed.version_eq, Bool.and_eq_true,
        decide_eq_true_eq]
      exact ⟨listed.stored (List.ne_nil_of_mem started),
        (GraphDB.hasVersionOrHigher_iff listed.derived.wf.graphVersions).mpr
          ⟨_, started, Nat.le_refl _⟩, notRemoved⟩
    rw [if_pos needed]
    exact NodeInfo.mem_recordVersion bounded
  · split
    · exact NodeInfo.mem_recordVersion_of_mem next
    · exact next

theorem Followed.tidy_endTxn (followed : Followed base live txn) (committed : Committed base)
    (baseTidy : Rangexx.Tidy base.changelist.currentVersion [] base) (tidy : txn.Tidy) :
    Rangexx.Tidy (txn.graph.endTxn base.version false).inst.changelist.currentVersion []
      (txn.graph.endTxn base.version false).inst := by
  have working := followed.kept.working
  unfold OpenTxn.Tidy at tidy
  rw [working.changelist] at tidy
  -- Without node records among the changes, everything is as it was.
  have unchanged : ∀ after : GraphInstance, after.changelist = base.changelist →
      (∀ name, after.readNode name = base.readNode name) →
      Rangexx.Tidy after.changelist.currentVersion [] after := by
    intro after sameList sameRecords name
    rw [sameList, sameRecords]
    exact baseTidy name
  rcases Nat.eq_zero_or_pos txn.graph.inst.pending with nothing | something
  · have closed := (Instance.pending_eq_zero_iff _).mp nothing
    have sameVersion : base.version = txn.graph.version := by
      rw [committed.version_eq, GraphDB.version, Instance.version_of_not_pending nothing,
        working.changelist]
    rw [GraphDB.endTxn_closed closed base.version sameVersion false]
    refine unchanged _ working.changelist (working.readNode_of_untouched committed ?_)
    exact fun touched => absurd touched.pending_pos (by omega)
  · have advanced : base.version < txn.graph.version := by
      rw [committed.version_eq, GraphDB.version, working.version_of_pending something]
      exact Nat.lt_succ_self _
    have ended : (txn.graph.endTxn base.version false).inst =
        ((txn.graph.nodesRequiringUpdate base.version).foldl GraphDB.updateVersion
          txn.graph.inst).commit := by
      simp [GraphDB.endTxn, advanced, GraphDB.updateVersions]
    have record := GraphDB.readNode_foldl_updateVersion something
      (txn.graph.nodesRequiringUpdate base.version)
    have sameList := GraphDB.changelist_foldl_updateVersion txn.graph.inst
      (txn.graph.nodesRequiringUpdate base.version)
    rw [working.changelist] at record sameList
    rw [ended]
    by_cases touched : Instance.Touched ((txn.graph.nodesRequiringUpdate base.version).foldl
        GraphDB.updateVersion txn.graph.inst)
    · intro name
      rw [readNode_commit, Instance.changelist_commit, if_neg touched, sameList, record]
      rcases tidy name with blank | upToDate
      · left
        split
        · exact blank.recordVersion _
        · exact blank
      · exact Or.inr (Or.inl ⟨followed.next_mem committed upToDate, by simp⟩)
    · have none : txn.graph.nodesRequiringUpdate base.version = [] := by
        cases names : txn.graph.nodesRequiringUpdate base.version with
        | nil => rfl
        | cons name rest =>
            rw [names] at touched
            exact absurd (GraphDB.touched_foldl_updateVersion
              (GraphDB.touched_updateVersion txn.graph.inst name) rest) touched
      rw [none] at touched ⊢
      have notTouched : ¬ txn.graph.inst.Touched := touched
      apply unchanged
      · rw [Instance.changelist_commit, if_pos (not_not.mp touched)]
        exact working.changelist
      · intro name
        rw [readNode_commit]
        exact working.readNode_of_untouched committed notTouched name

end Steps

/-! ## Whole histories -/

/-- What an object with a blank copy returns. -/
theorem NodeInfo.Blank.shown {node : Node} {inst : GraphInstance}
    (wf : (node.initInfo inst).WF) (blank : (node.initInfo inst).Blank)
    (current : node.wantedVersion = none) :
    (∀ direction, node.edgeNames direction inst = []) ∧
      ∀ key, (node.tags inst).lookup key = none := by
  constructor
  · intro direction
    rw [List.eq_nil_iff_forall_not_mem]
    intro other member
    have present := (Node.mem_neighbours wf direction other).mp member
    rw [current] at present
    exact blank.1 direction other present
  · intro key
    rw [Node.lookup_tags wf key, current]
    exact blank.2 key

namespace GraphDB

theorem Settled.tidy_transactions {graph : GraphDB} (settled : graph.Settled)
    (noneRemoved : graph.removedNodes = [])
    (tidy : Tidy graph.inst.changelist.currentVersion [] graph.inst)
    {txns : List (List TxnOp)} (clean : graph.Clean txns) :
    Tidy (graph.transactions txns).inst.changelist.currentVersion []
      (graph.transactions txns).inst := by
  induction txns generalizing graph with
  | nil => exact tidy
  | cons ops rest ih =>
      have followed := Followed.start settled noneRemoved
      have startTidy : (⟨graph, []⟩ : OpenTxn).Tidy := by
        unfold OpenTxn.Tidy
        rw [noneRemoved]
        exact tidy
      have ended := (followed.applyAll ops).tidy_endTxn settled.committed tidy
        (followed.tidy_applyAll startTidy clean.1)
      exact ih (settled.transaction ops).1 (settled.removedNodes_transaction noneRemoved ops)
        ended clean.2

theorem tidy_history {txns : List (List TxnOp)} (clean : (ofInstance .empty).Clean txns) :
    Tidy (history txns).inst.changelist.currentVersion [] (history txns).inst := by
  refine ofInstance_empty_settled.tidy_transactions rfl ?_ clean
  intro name
  left
  refine ⟨fun direction other => ?_, fun key => rfl⟩
  cases direction <;> exact edgeAt_nil _ _

/-- When no node was removed with its tags and none was changed through an
object of a node that was not live, a node that is created is blank. -/
theorem create_blank {txns : List (List TxnOp)} (clean : (ofInstance .empty).Clean txns)
    {ops : List TxnOp} (cleanOps : (⟨history txns, []⟩ : OpenTxn).Clean ops) {name : String}
    (notLive : ¬ (⟨history txns, []⟩ : OpenTxn).liveAfter (history txns).inst.Live ops name)
    {node : Node} {graph : GraphDB}
    (created : ((⟨history txns, []⟩ : OpenTxn).applyAll ops).graph.create name =
      (some node, graph)) :
    (∀ direction, node.edgeNames direction graph.inst = []) ∧
      ∀ key, (node.tags graph.inst).lookup key = none := by
  have followed := followed_history txns ops
  have startTidy : (⟨history txns, []⟩ : OpenTxn).Tidy := by
    unfold OpenTxn.Tidy
    rw [removedNodes_history]
    exact tidy_history clean
  have tidy := (Followed.start (history_settled txns) (removedNodes_history txns)).tidy_applyAll
    startTidy cleanOps
  generalize (⟨history txns, []⟩ : OpenTxn).applyAll ops = txn at followed tidy created
  have listed := followed.kept.working.good name
  have unlisted : hasVersionOrHigher txn.graph.version
      (txn.graph.inst.readNode name).graphVersions = false := by
    rw [Bool.eq_false_iff]
    intro isListed
    have isNone := (txn.graph.create_eq_none_iff name).mpr isListed
    rw [created] at isNone
    simp at isNone
  have below := followed.below_prepared unlisted
  have blank : (txn.graph.inst.readNode name).Blank := by
    refine (tidy name).resolve_right ?_
    rw [followed.kept.working.changelist]
    rintro (⟨started, notRemoved⟩ | next)
    · exact (listed.known started).elim notLive notRemoved
    · have isListed : hasVersionOrHigher txn.graph.version
          (txn.graph.inst.readNode name).graphVersions = true :=
        (hasVersionOrHigher_iff listed.derived.wf.graphVersions).mpr
          ⟨_, next, followed.kept.working.version_le⟩
      rw [unlisted] at isListed
      simp at isListed
  rw [create_of_unlisted below unlisted] at created
  obtain ⟨isNode, -⟩ := Prod.mk.inj created
  rw [← Option.some.inj isNode]
  refine NodeInfo.Blank.shown ?_ blank rfl
  exact
    { edges := listed.derived.wf.edges
      tags := listed.derived.wf.tags
      graphVersions := listed.derived.wf.graphVersions.append_singleton below }

/-- A host that was removed without tags is blank when it is created again. -/
theorem create_blank_hostRemoved :
    ∃ node graph, (history hostRemoved).create "host" = (some node, graph) ∧
      (∀ direction, node.edgeNames direction graph.inst = []) ∧
      ∀ key, (node.tags graph.inst).lookup key = none := by
  have untagged : OpenTxn.Untagged ((⟨history [[.create "host", .setType 0 .host]], []⟩ :
      OpenTxn).apply (.getNode "host")) 0 := by
    have noTags : (((⟨history [[.create "host", .setType 0 .host]], []⟩ : OpenTxn).apply
        (.getNode "host")).objects[0]?.map fun object => (object.initInfo
          ((⟨history [[.create "host", .setType 0 .host]], []⟩ : OpenTxn).apply
            (.getNode "host")).graph.inst).tags) = some [] := by decide
    intro object found key
    rw [found, Option.map_some, Option.some.injEq] at noTags
    rw [NodeInfo.tagNow, noTags]
    rfl
  have clean : (ofInstance .empty).Clean hostRemoved :=
    ⟨⟨trivial, (by decide : OpenTxn.LiveObject _ 0), trivial⟩, ⟨trivial, untagged, trivial⟩,
      trivial⟩
  have notLive : ¬ (history hostRemoved).inst.Live "host" := by decide
  have cleanOps : (⟨history hostRemoved, []⟩ : OpenTxn).Clean [] := trivial
  exact ⟨_, _, rfl, create_blank clean cleanOps notLive rfl⟩

/-- A host that was removed with a tag shows it when it is created again. -/
theorem create_tagged :
    ¬ ∀ (txns : List (List TxnOp)) (ops : List TxnOp) (name : String) (node : Node)
        (graph : GraphDB),
      ¬ (⟨history txns, []⟩ : OpenTxn).liveAfter (history txns).inst.Live ops name →
      ((⟨history txns, []⟩ : OpenTxn).applyAll ops).graph.create name = (some node, graph) →
      (∀ direction, node.edgeNames direction graph.inst = []) ∧
        ∀ key, (node.tags graph.inst).lookup key = none := by
  intro blank
  have noTag := (blank [[.create "web1", .setType 0 .host, .updateTag 0 "os" ["linux"]],
    [.getNode "web1", .remove 0]] [] "web1" _ _
    (show ¬ Instance.Live _ "web1" by decide) rfl).2 "os"
  revert noTag
  decide

end GraphDB

end Rangexx
