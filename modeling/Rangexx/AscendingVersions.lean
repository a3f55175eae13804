import Rangexx.AttachedNodes
import Rangexx.Queries
import Rangexx.OpenTransactions

/-!
# Ascending version lists

Every change of a record appends one version above all that the lists hold, or
takes the last one away, so the lists ascend in every record of a session,
wherever it is kept.  Then a walk from the end of a list that gives up at the
first smaller version finds what is in the list.  The exception is an object
that lost its instance: if `init_default_nodeinfo` meets its message while that
still holds edges or tags, the list version starts again below the versions of
the lists.
-/

namespace Rangexx

open AscendingScan

/-- The version lists of a record ascend. -/
structure NodeInfo.VersionsAscend (info : NodeInfo) : Prop where
  edges : ∀ direction, ∀ edge ∈ info.edges direction, Ascending edge.versions
  tagKeys : ∀ kv ∈ info.tags, Ascending kv.versions
  tagValues : ∀ kv ∈ info.tags, ∀ value ∈ kv.values, Ascending value.versions
  graphVersions : Ascending info.graphVersions

/-- The functions that walk a version list of a record from its end find a
version exactly when the list has it. -/
structure NodeInfo.ScansFind (info : NodeInfo) : Prop where
  getEdges : ∀ direction wanted other, other ∈ info.getEdges direction wanted ↔
    ∃ edge ∈ info.edges direction, edge.id = other ∧ info.cmpVersion wanted ∈ edge.versions
  tags : ∀ wanted, ∀ kv ∈ info.tags, (info.tagTable wanted).lookup kv.key =
    if info.cmpVersion wanted ∈ kv.versions then
      (kv.entryAt (info.cmpVersion wanted)).map fun entry => getMapValue entry.keyVersion kv
    else none
  getMapValue : ∀ keyVersion, ∀ kv ∈ info.tags, getMapValue keyVersion kv =
    (kv.values.filter fun value => keyVersion ∈ value.versions).map TagValue.data
  removeEdge : ∀ direction other, (info.removeEdge direction other).isSome ↔
    ∃ edge ∈ info.edges direction, edge.id = other ∧ info.listVersion ∈ edge.versions
  deleteTag : ∀ key, (info.deleteTag key).isSome ↔
    ∃ kv ∈ info.tags, kv.key = key ∧ info.listVersion ∈ kv.versions
  hasVersionOrHigher : ∀ version,
    GraphDB.hasVersionOrHigher version info.graphVersions = true ↔
      ∃ graphVersion ∈ info.graphVersions, version ≤ graphVersion

/-- The same for the functions that walk the graph versions of a node. -/
structure GraphDB.ScansFind (graph : GraphDB) : Prop where
  getNode : ∀ name, (graph.getNode name).isSome ↔
    name ∈ cursorNames graph.inst ∧
      graph.wantedVersion.getD graph.version ∈ (graph.inst.readNode name).graphVersions
  versionFilter : ∀ version name, name ∈ RangeApi.versionFilter graph.inst version ↔
    name ∈ cursorNames graph.inst ∧ version ∈ (graph.inst.readNode name).graphVersions

/-- The object does not meet a missing record with edges or tags of a former
one in its message. -/
def AttachedNode.Settled (object : AttachedNode) (inst : GraphInstance) : Prop :=
  object.node.info = none → inst.getRecord (.node, object.node.name) = none →
    ∀ old, object.leftover = some old → old.forward = [] ∧ old.reverse = [] ∧ old.tags = []

/-- The object whose record the call needs. -/
def SessionCall.reads : SessionCall → Option Nat
  | remove _ object => some object
  | read object => some object
  | neighbours _ object => some object
  | edit object _ => some object
  | addGraphVersion object _ => some object
  | _ => none

namespace Session

/-- The object whose record the call needs is settled. -/
def Settled (session : Session) (call : SessionCall) : Prop :=
  ∀ object held inst, call.reads = some object → session.objects[object]? = some held →
    session.instances[held.place]? = some inst → held.Settled inst

/-- A record of the session: it is stored or pending in an instance, or the
message of an object holds it, or a settled object would read it. -/
inductive HasRecord (session : Session) (info : NodeInfo) : Prop where
  | stored (inst : GraphInstance) (key : RecordKey) (member : inst ∈ session.instances)
      (found : inst.records.lookup key = some info)
  | pending (inst : GraphInstance) (key : RecordKey) (change : PendingChange NodeInfo)
      (member : inst ∈ session.instances) (found : inst.pendingChanges.lookup key = some change)
      (data : change.data = info)
  | held (object : AttachedNode) (member : object ∈ session.objects)
      (holds : object.message = some info)
  | read (object : AttachedNode) (inst : GraphInstance) (member : object ∈ session.objects)
      (place : session.instances[object.place]? = some inst) (settled : object.Settled inst)
      (holds : (object.initInfo inst).info = some info)

end Session

/-! ## What the scans find -/

namespace NodeInfo

variable {info : NodeInfo} (wf : info.WF)

include wf

theorem WF.versionsAscend : info.VersionsAscend where
  edges := fun direction => (wf.edges direction).ascending
  tagKeys := fun kv member => (wf.tags.entries kv member).ascending
  tagValues := fun kv member => (wf.tags.entries kv member).valuesAscending
  graphVersions := wf.graphVersions

theorem tagAt_of_mem {kv : KeyValue} (member : kv ∈ info.tags) (version : Nat) :
    tagAt info.tags version kv.key = kv.valuesAt version := by
  have found : (info.tags.find? fun other => kv.key == other.key) = some kv := by
    cases first : info.tags.find? fun other => kv.key == other.key with
    | none => simpa using List.find?_eq_none.mp first kv member
    | some other =>
        have sameKey : kv.key = other.key := by simpa using List.find?_some first
        rw [List.inj_on_of_nodup_map wf.tags.nodup (List.mem_of_find?_eq_some first) member
          sameKey.symm]
  rw [tagAt, found, Option.bind_some]

theorem removeEdge_isSome_iff (direction : Direction) (other : String) :
    (info.removeEdge direction other).isSome ↔ info.Present direction other := by
  rw [Option.isSome_iff_ne_none, Ne, removeEdge_eq_none_iff wf, not_not]

theorem deleteTag_isSome_iff (key : String) :
    (info.deleteTag key).isSome ↔
      ∃ kv ∈ info.tags, kv.key = key ∧ info.listVersion ∈ kv.versions := by
  have ascending : ∀ kv ∈ info.tags, scan info.listVersion kv.versions = .equal ↔
      info.listVersion ∈ kv.versions :=
    fun kv member => scan_eq_equal_iff (wf.tags.entries kv member).ascending
  unfold deleteTag
  dsimp only
  cases found : info.tags.find? fun kv => key == kv.key with
  | none =>
      have absent := List.find?_eq_none.mp found
      refine iff_of_false (by simp) ?_
      rintro ⟨kv, member, rfl, _⟩
      exact absent kv member (beq_self_eq_true kv.key)
  | some kv =>
      have member := List.mem_of_find?_eq_some found
      have sameKey : key = kv.key := by simpa using List.find?_some found
      constructor
      · intro deleted
        refine ⟨kv, member, sameKey.symm, (ascending kv member).mp ?_⟩
        by_contra notEqual
        simp [notEqual] at deleted
      · rintro ⟨other, otherMember, otherKey, isSet⟩
        have same : other = kv :=
          List.inj_on_of_nodup_map wf.tags.nodup otherMember member (otherKey.trans sameKey)
        rw [same] at isSet
        simp [(ascending kv member).mpr isSet]

theorem WF.scansFind : info.ScansFind where
  getEdges := mem_getEdges wf
  tags := by
    intro wanted kv member
    rw [lookup_tagTable wf, tagAt_of_mem wf member, valuesAt_eq (wf.tags.entries kv member)]
    rfl
  getMapValue := fun keyVersion kv member => getMapValue_eq (wf.tags.entries kv member) keyVersion
  removeEdge := removeEdge_isSome_iff wf
  deleteTag := deleteTag_isSome_iff wf
  hasVersionOrHigher := fun _ => GraphDB.hasVersionOrHigher_iff wf.graphVersions

end NodeInfo

theorem GraphDB.scansFind {graph : GraphDB} (wf : ∀ name, (graph.inst.readNode name).WF) :
    graph.ScansFind where
  getNode := by
    intro name
    rw [mem_cursorNames, ← scan_eq_equal_iff (wf name).graphVersions]
    unfold GraphDB.getNode
    cases found : graph.inst.records.lookup (.node, name) with
    | none => simp
    | some record =>
        dsimp only
        split
        · rename_i equal
          simp [equal]
        · rename_i notEqual
          simp [notEqual]
  versionFilter := by
    intro version name
    unfold RangeApi.versionFilter
    rw [List.mem_filter, decide_eq_true_eq, scan_eq_equal_iff (wf name).graphVersions]

/-! ## Instances -/

/-- The node records are well formed. -/
abbrev WellFormed : String → NodeInfo → Prop :=
  fun _ info => info.WF

theorem NodeEdit.apply_wf {info changed : NodeInfo} {edit : NodeEdit} (wf : info.WF)
    (applied : edit.apply info = some changed) : changed.WF := by
  cases edit with
  | addEdge direction other => exact (NodeInfo.addEdge_advance wf applied).wf
  | removeEdge direction other => exact (NodeInfo.removeEdge_advance wf applied).wf
  | updateTag key values =>
      obtain rfl := Option.some.inj applied
      exact (NodeInfo.updateTag_advance wf key values).wf
  | deleteTag key => exact (NodeInfo.deleteTag_advance wf applied).wf
  | setType type =>
      obtain rfl := Option.some.inj applied
      exact (NodeInfo.setType_advance wf type).wf

theorem NodeEdit.keepsGood (edit : NodeEdit) : KeepsGood WellFormed edit.apply :=
  fun _ _ _ wf applied => apply_wf wf applied

theorem WellFormed.edgeClosed : EdgeClosed WellFormed where
  addEdge := fun direction other => (NodeEdit.addEdge direction other).keepsGood
  removeEdge := fun direction other => (NodeEdit.removeEdge direction other).keepsGood

theorem NodeInfo.WF.recordVersion {info : NodeInfo} {version : Nat} (wf : info.WF)
    (below : ∀ graphVersion ∈ info.graphVersions, graphVersion < version) :
    NodeInfo.WF { info with graphVersions := info.graphVersions ++ [version] } where
  edges := wf.edges
  tags := wf.tags
  graphVersions := wf.graphVersions.append_singleton below

namespace Instance

/-- All records are well formed, stored ones and pending ones. -/
structure AllWF (inst : GraphInstance) : Prop where
  stored : ∀ key info, inst.records.lookup key = some info → info.WF
  pending : ∀ key change, inst.pendingChanges.lookup key = some change → change.data.WF

variable {inst : GraphInstance}

theorem AllWF.empty : (Instance.empty : GraphInstance).AllWF where
  stored := by
    intro key info found
    simp [Instance.empty] at found
  pending := by
    intro key change found
    simp [Instance.empty] at found

theorem AllWF.getRecord (all : inst.AllWF) {key : RecordKey} {info : NodeInfo}
    (found : inst.getRecord key = some info) : info.WF := by
  unfold Instance.getRecord at found
  cases change : inst.pendingChanges.lookup key with
  | none =>
      rw [change] at found
      exact all.stored key info found
  | some pending =>
      rw [change] at found
      obtain rfl := Option.some.inj found
      exact all.pending key pending change

theorem AllWF.readNode (all : inst.AllWF) (name : String) : (inst.readNode name).WF := by
  unfold Instance.readNode
  cases found : inst.getRecord (.node, name) with
  | none => exact NodeInfo.default_wf
  | some info => exact all.getRecord found

theorem AllWF.writeRecord (all : inst.AllWF) (key : RecordKey) (objectVersion : Nat)
    {info : NodeInfo} (wf : info.WF) : (inst.writeRecord key objectVersion info).AllWF where
  stored := all.stored
  pending := by
    intro other change found
    rw [lookup_pending_writeRecord] at found
    split at found
    · obtain rfl := Option.some.inj found
      exact wf
    · exact all.pending other change found

theorem AllWF.flush (all : inst.AllWF) : inst.flush.AllWF where
  stored := by
    intro key info found
    rw [lookup_records_flush] at found
    exact all.getRecord found
  pending := all.pending

theorem AllWF.commit (all : inst.AllWF) : inst.commit.AllWF where
  stored := by
    intro key info found
    rw [lookup_records_commit] at found
    exact all.getRecord found
  pending := by
    intro key change found
    rw [pendingChanges_commit] at found
    simp at found

theorem AllWF.abort (all : inst.AllWF) : inst.abort.AllWF where
  stored := all.stored
  pending := by
    intro key change found
    simp [Instance.abort] at found

theorem AllWF.closed : RecordClosed WellFormed AllWF where
  readNode := fun _ name all => all.readNode name
  writeNode := fun _ name info all wf => all.writeRecord (.node, name) info.listVersion wf
  writeMeta := fun _ name info all wf => all.writeRecord (.nodeMeta, name) info.listVersion wf
  flush := fun _ all => all.flush

end Instance

open Instance (AllWF)

/-! ## Node objects and graphs -/

section Calls

variable {inst : GraphInstance} {node : Node} {graph : GraphDB}

theorem Node.edit_allWF (all : inst.AllWF) (sound : node.Sound WellFormed) (edit : NodeEdit) :
    (node.edit inst edit).2.2.AllWF ∧ (node.edit inst edit).2.1.Sound WellFormed := by
  have kept := Node.change_kept AllWF.closed edit.keepsGood all sound
  cases edit <;> exact kept

theorem Node.addGraphVersion_allWF (all : inst.AllWF) (sound : node.Sound WellFormed)
    (version : Nat) :
    (node.addGraphVersion version inst).2.AllWF ∧
      (node.addGraphVersion version inst).1.Sound WellFormed :=
  Node.addGraphVersion_kept AllWF.closed all sound fun _ wf below => wf.recordVersion below

theorem GraphDB.create_allWF (all : graph.inst.AllWF) (name : String) :
    (graph.create name).2.inst.AllWF ∧
      ∀ node, (graph.create name).1 = some node → node.Sound WellFormed := by
  have loaded : (Node.loaded graph.inst name).Sound WellFormed :=
    Node.Sound.of_info (all.readNode name)
  have prepared : (graph.prepared name).AllWF := by
    unfold GraphDB.prepared
    split
    · exact (Node.commit_kept AllWF.closed all loaded).1
    · exact all
  have added := Node.addGraphVersion_allWF prepared loaded (graph.prepared name).version
  rw [GraphDB.create_eq]
  split
  · exact ⟨all, by simp⟩
  · refine ⟨added.1, ?_⟩
    intro node isNew
    obtain rfl := Option.some.inj isNew
    exact added.2

theorem GraphDB.updateVersion_allWF (all : inst.AllWF) (name : String) :
    (updateVersion inst name).AllWF := by
  have added := Node.addGraphVersion_allWF all (Node.Sound.createNode name) inst.version
  exact (Node.commit_kept AllWF.closed added.1 added.2).1

theorem GraphDB.updateVersions_allWF (all : graph.inst.AllWF) (priorVersion : Nat) :
    (graph.updateVersions priorVersion).inst.AllWF := by
  unfold updateVersions
  dsimp only
  generalize graph.nodesRequiringUpdate priorVersion = names
  generalize graph.inst = inst at all
  induction names generalizing inst with
  | nil => exact all
  | cons name rest ih => exact ih _ (updateVersion_allWF all name)

theorem GraphDB.endTxn_allWF (all : graph.inst.AllWF) (startVersion : Nat)
    (uncaughtException : Bool) : (graph.endTxn startVersion uncaughtException).inst.AllWF := by
  have updated : (if startVersion < graph.version then graph.updateVersions startVersion
      else graph).inst.AllWF := by
    split
    · exact updateVersions_allWF all startVersion
    · exact all
  unfold endTxn
  dsimp only
  split
  · exact updated.abort
  · exact updated.commit

end Calls

/-! ## Sessions -/

/-- The message of the object is well formed. -/
def AttachedNode.MessageWF (object : AttachedNode) : Prop :=
  ∀ info, object.message = some info → info.WF

section Objects

variable {object : AttachedNode} {inst : GraphInstance}

theorem AttachedNode.MessageWF.fresh {node : Node} (sound : node.Sound WellFormed) (place : Nat) :
    (AttachedNode.fresh node place).MessageWF := by
  intro info holds
  rw [AttachedNode.message, AttachedNode.fresh, Option.or_none] at holds
  exact sound info holds

theorem AttachedNode.MessageWF.setInstance (wf : object.MessageWF) (place : Nat) :
    (object.setInstance place).MessageWF := by
  intro info holds
  rw [AttachedNode.message, AttachedNode.setInstance, Option.none_or] at holds
  exact wf info holds

/-- Without edges and tags, the record may start again at the first version. -/
theorem NodeInfo.WF.initDefault {info : NodeInfo} (wf : info.WF) (forward : info.forward = [])
    (reverse : info.reverse = []) (tags : info.tags = []) : info.initDefault.WF where
  edges := by
    intro direction
    cases direction with
    | forward =>
        change EdgesWF 0 info.forward
        rw [forward]
        exact EdgesWF.nil 0
    | reverse =>
        change EdgesWF 0 info.reverse
        rw [reverse]
        exact EdgesWF.nil 0
  tags := by
    change TagsWF 0 info.tags
    rw [tags]
    exact NodeInfo.default_wf.tags
  graphVersions := wf.graphVersions

theorem AttachedNode.MessageWF.initInfo (wf : object.MessageWF) (all : inst.AllWF)
    (settled : object.Settled inst) : (object.initInfo inst).Sound WellFormed := by
  apply Node.Sound.of_info
  cases loaded : object.node.info with
  | some info => exact wf info (by rw [AttachedNode.message, loaded, Option.some_or])
  | none =>
      change (object.foundInfo inst).WF
      unfold AttachedNode.foundInfo
      cases found : inst.getRecord (.node, object.node.name) with
      | some info => exact all.getRecord found
      | none =>
          cases left : object.leftover with
          | none => exact NodeInfo.default_wf.initDefault rfl rfl rfl
          | some old =>
              obtain ⟨forward, reverse, tags⟩ := settled loaded found old left
              have oldWF := wf old (by rw [AttachedNode.message, loaded, left, Option.none_or])
              exact oldWF.initDefault forward reverse tags

end Objects

namespace Session

/-- All records of the session are well formed. -/
structure Intact (session : Session) : Prop where
  instances : ∀ inst ∈ session.instances, inst.AllWF
  objects : ∀ object ∈ session.objects, object.MessageWF

variable {session after : Session}

theorem Intact.instance_at (intact : session.Intact) {place : Nat} {inst : GraphInstance}
    (found : session.instances[place]? = some inst) : inst.AllWF :=
  intact.instances inst (List.mem_of_getElem? found)

theorem Intact.set_instances (intact : session.Intact) (place : Nat) {inst : GraphInstance}
    (all : inst.AllWF) : ∀ other ∈ session.instances.set place inst, other.AllWF := by
  intro other member
  rcases List.mem_or_eq_of_mem_set member with old | rfl
  · exact intact.instances other old
  · exact all

theorem Intact.set_objects (intact : session.Intact) (place : Nat) {object : AttachedNode}
    (wf : object.MessageWF) : ∀ other ∈ session.objects.set place object, other.MessageWF := by
  intro other member
  rcases List.mem_or_eq_of_mem_set member with old | rfl
  · exact intact.objects other old
  · exact wf

theorem Intact.onInstance (intact : session.Intact) {place : Nat}
    {function : GraphInstance → GraphInstance}
    (taken : session.onInstance place function = some after)
    (keeps : ∀ inst : GraphInstance, inst.AllWF → (function inst).AllWF) : after.Intact := by
  obtain ⟨inst, found, rfl⟩ := Option.map_eq_some_iff.mp taken
  exact ⟨intact.set_instances place (keeps inst (intact.instance_at found)), intact.objects⟩

theorem Intact.onGraph (intact : session.Intact) {graph : Nat}
    {function : GraphDB → Option Node × GraphDB}
    (taken : session.onGraph graph function = some after)
    (keeps : ∀ db, db.inst.AllWF → (function db).2.inst.AllWF ∧
      ∀ node, (function db).1 = some node → node.Sound WellFormed) : after.Intact := by
  obtain ⟨held, foundGraph, rest⟩ := Option.bind_eq_some_iff.mp taken
  obtain ⟨inst, found, rfl⟩ := Option.map_eq_some_iff.mp rest
  have kept := keeps (held.withInstance inst) (intact.instance_at found)
  refine ⟨intact.set_instances held.place kept.1, ?_⟩
  intro object member
  rcases List.mem_append.mp member with old | new
  · exact intact.objects object old
  · obtain ⟨node, returned, rfl⟩ := List.mem_map.mp new
    exact .fresh (kept.2 node (Option.mem_toList.mp returned)) held.place

theorem Intact.onNode (intact : session.Intact) {object : Nat}
    {function : Node → GraphInstance → Bool × Node × GraphInstance}
    (settled : ∀ held inst, session.objects[object]? = some held →
      session.instances[held.place]? = some inst → held.Settled inst)
    {result : Bool} (taken : session.onNode object function = some (result, after))
    (keeps : ∀ node inst, inst.AllWF → node.Sound WellFormed →
      (function node inst).2.2.AllWF ∧ (function node inst).2.1.Sound WellFormed) :
    after.Intact := by
  obtain ⟨held, foundObject, rest⟩ := Option.bind_eq_some_iff.mp taken
  obtain ⟨inst, found, same⟩ := Option.map_eq_some_iff.mp rest
  obtain ⟨_, rfl⟩ := Prod.mk.inj same
  have all := intact.instance_at found
  have loaded := (intact.objects held (List.mem_of_getElem? foundObject)).initInfo all
    (settled held inst foundObject found)
  have kept := keeps (held.initInfo inst) inst all loaded
  exact ⟨intact.set_instances held.place kept.1,
    intact.set_objects object (.fresh kept.2 held.place)⟩

theorem Intact.onObject (intact : session.Intact) {object : Nat}
    {function : AttachedNode → AttachedNode}
    (taken : session.onObject object function = some after)
    (keeps : ∀ held : AttachedNode, held.MessageWF → (function held).MessageWF) :
    after.Intact := by
  obtain ⟨held, found, rfl⟩ := Option.map_eq_some_iff.mp taken
  exact ⟨intact.instances, intact.set_objects object
    (keeps held (intact.objects held (List.mem_of_getElem? found)))⟩

/-- What `remove` does to objects and instances is a call of the node object,
which is detached or left as it is. -/
theorem remove_cases {graph object : Nat} (taken : session.remove graph object = some after) :
    ∃ function found reached, session.onNode object function = some (found, reached) ∧
      (∀ node inst, (function node inst).2 = (node, inst) ∨
        ∃ version, node.detach version inst = some (function node inst).2) ∧
      after.instances = reached.instances ∧ after.objects = reached.objects := by
  obtain ⟨held, _, rest⟩ := Option.bind_eq_some_iff.mp taken
  obtain ⟨inst, _, rest⟩ := Option.bind_eq_some_iff.mp rest
  obtain ⟨removed, _, rest⟩ := Option.bind_eq_some_iff.mp rest
  obtain ⟨⟨found, reached⟩, called, rfl⟩ := Option.map_eq_some_iff.mp rest
  refine ⟨_, found, reached, called, ?_, ?_⟩
  · intro node inst'
    cases detached : node.detach inst.version inst' with
    | none => exact Or.inl rfl
    | some result => exact Or.inr ⟨inst.version, detached⟩
  · dsimp only
    split
    · exact ⟨rfl, rfl⟩
    · exact ⟨rfl, rfl⟩

theorem Intact.remove (intact : session.Intact) {graph object : Nat}
    (settled : ∀ held inst, session.objects[object]? = some held →
      session.instances[held.place]? = some inst → held.Settled inst)
    (taken : session.remove graph object = some after) : after.Intact := by
  obtain ⟨function, found, reached, called, detaches, sameInstances, sameObjects⟩ :=
    remove_cases taken
  have kept : reached.Intact := by
    refine intact.onNode settled called fun node inst all sound => ?_
    rcases detaches node inst with unchanged | ⟨version, detached⟩
    · rw [unchanged]
      exact ⟨all, sound⟩
    · exact Node.detach_kept AllWF.closed WellFormed.edgeClosed all sound detached
  constructor
  · rw [sameInstances]
    exact kept.instances
  · rw [sameObjects]
    exact kept.objects

theorem Intact.neighbours (intact : session.Intact) {direction : Direction} {object : Nat}
    (settled : ∀ held inst, session.objects[object]? = some held →
      session.instances[held.place]? = some inst → held.Settled inst)
    (taken : session.neighbours direction object = some after) : after.Intact := by
  obtain ⟨held, foundObject, rest⟩ := Option.bind_eq_some_iff.mp taken
  obtain ⟨inst, found, rfl⟩ := Option.map_eq_some_iff.mp rest
  have loaded := (intact.objects held (List.mem_of_getElem? foundObject)).initInfo
    (intact.instance_at found) (settled held inst foundObject found)
  refine ⟨intact.instances, ?_⟩
  intro other member
  rcases List.mem_append.mp member with old | new
  · exact intact.set_objects object (.fresh loaded held.place) other old
  · obtain ⟨neighbour, isNeighbour, rfl⟩ := List.mem_map.mp new
    exact .fresh (Node.neighbours_sound isNeighbour) held.place

theorem Intact.commitNode (intact : session.Intact) {object : Nat}
    (taken : session.commitNode object = some after) : after.Intact := by
  obtain ⟨held, foundObject, rest⟩ := Option.bind_eq_some_iff.mp taken
  obtain ⟨inst, found, rest⟩ := Option.bind_eq_some_iff.mp rest
  obtain ⟨info, holds, rfl⟩ := Option.map_eq_some_iff.mp rest
  have wf := intact.objects held (List.mem_of_getElem? foundObject) info holds
  have written := (intact.instance_at found).writeRecord (.node, held.node.name)
    info.listVersion wf
  exact ⟨intact.set_instances held.place written, intact.objects⟩

/-- One call keeps all records well formed. -/
theorem Intact.step (intact : session.Intact) {call : SessionCall}
    (settled : session.Settled call) (taken : session.step call = some after) :
    after.Intact := by
  cases call with
  | openInstance =>
      obtain rfl := Option.some.inj taken
      refine ⟨?_, intact.objects⟩
      intro inst member
      rcases List.mem_append.mp member with old | new
      · exact intact.instances inst old
      · rw [List.mem_singleton.mp new]
        exact AllWF.empty
  | flush place => exact intact.onInstance taken fun _ all => all.flush
  | commit place => exact intact.onInstance taken fun _ all => all.commit
  | abort place => exact intact.onInstance taken fun _ all => all.abort
  | openGraph place =>
      obtain rfl := Option.some.inj taken
      exact ⟨intact.instances, intact.objects⟩
  | getNode graph name =>
      rw [Session.step] at taken
      refine intact.onGraph taken fun db all => ⟨all, fun node found => ?_⟩
      exact (GraphDB.getNode_sound (all.readNode name) found).1
  | create graph name =>
      rw [Session.step] at taken
      exact intact.onGraph taken fun db all => GraphDB.create_allWF all name
  | remove graph object =>
      exact intact.remove (fun held inst => settled object held inst rfl) taken
  | updateVersions graph priorVersion =>
      rw [Session.step] at taken
      refine intact.onGraph taken fun db all => ⟨?_, by simp⟩
      exact GraphDB.updateVersions_allWF all priorVersion
  | setGraphVersion graph version =>
      rw [Session.step] at taken
      refine intact.onGraph taken fun db all => ⟨?_, by simp⟩
      rw [World.setWantedVersion_inst]
      exact all
  | endTxn graph startVersion uncaughtException =>
      rw [Session.step] at taken
      refine intact.onGraph taken fun db all => ⟨?_, by simp⟩
      exact GraphDB.endTxn_allWF all startVersion uncaughtException
  | createNode place name =>
      obtain rfl := Option.some.inj taken
      refine ⟨intact.instances, ?_⟩
      intro object member
      rcases List.mem_append.mp member with old | new
      · exact intact.objects object old
      · rw [List.mem_singleton.mp new]
        exact .fresh (Node.Sound.createNode name) place
  | read object =>
      obtain ⟨⟨result, reached⟩, called, rfl⟩ := Option.map_eq_some_iff.mp taken
      exact intact.onNode (fun held inst => settled object held inst rfl) called
        fun node inst all sound => ⟨all, sound⟩
  | neighbours direction object =>
      exact intact.neighbours (fun held inst => settled object held inst rfl) taken
  | edit object edit =>
      obtain ⟨⟨result, reached⟩, called, rfl⟩ := Option.map_eq_some_iff.mp taken
      exact intact.onNode (fun held inst => settled object held inst rfl) called
        fun node inst all sound => Node.edit_allWF all sound edit
  | addGraphVersion object version =>
      obtain ⟨⟨result, reached⟩, called, rfl⟩ := Option.map_eq_some_iff.mp taken
      exact intact.onNode (fun held inst => settled object held inst rfl) called
        fun node inst all sound => Node.addGraphVersion_allWF all sound version
  | commitNode object => exact intact.commitNode taken
  | setWantedVersion object version => exact intact.onObject taken fun held wf => wf
  | setInstance object place => exact intact.onObject taken fun held wf => wf.setInstance place

theorem Intact.empty : empty.Intact where
  instances := by simp [Session.empty]
  objects := by simp [Session.empty]

theorem Intact.hasRecord (intact : session.Intact) {info : NodeInfo}
    (has : session.HasRecord info) : info.WF := by
  cases has with
  | stored inst key member found => exact (intact.instances inst member).stored key info found
  | pending inst key change member found data =>
      rw [← data]
      exact (intact.instances inst member).pending key change found
  | held object member holds => exact intact.objects object member info holds
  | read object inst member place settled holds =>
      exact (intact.objects object member).initInfo (intact.instance_at place) settled info holds

/-- In every run in which no object meets a missing record with edges or tags
of a former one in its message, the version lists of all records ascend, and
the walks that give up early find a version exactly when it is in the list. -/
theorem versions_ascend {calls : List SessionCall}
    (settled : EventRuns.Along step Settled empty calls)
    (ran : EventRuns.run step empty calls = some session) :
    (∀ info, session.HasRecord info → info.VersionsAscend ∧ info.ScansFind) ∧
      ∀ graph ∈ session.graphs, ∀ inst, session.instances[graph.place]? = some inst →
        (graph.withInstance inst).ScansFind := by
  have intact : session.Intact :=
    EventRuns.invariant_run Intact (fun _ _ _ intact settled taken => intact.step settled taken)
      Intact.empty settled ran
  constructor
  · intro info has
    have wf := intact.hasRecord has
    exact ⟨wf.versionsAscend, wf.scansFind⟩
  · intro graph _ inst found
    exact GraphDB.scansFind (intact.instance_at found).readNode

/-! ## Runs that leave objects where they are -/

/-- No message holds anything of a former record. -/
def Unmoved (session : Session) : Prop :=
  ∀ object ∈ session.objects, object.leftover = none

theorem Unmoved.append (unmoved : session.Unmoved) (nodes : List Node) (place : Nat) :
    ∀ object ∈ session.objects ++ nodes.map fun node => .fresh node place,
      object.leftover = none := by
  intro object member
  rcases List.mem_append.mp member with old | new
  · exact unmoved object old
  · obtain ⟨node, _, rfl⟩ := List.mem_map.mp new
    rfl

theorem Unmoved.set (unmoved : session.Unmoved) (place : Nat) {object : AttachedNode}
    (nothing : object.leftover = none) :
    ∀ other ∈ session.objects.set place object, other.leftover = none := by
  intro other member
  rcases List.mem_or_eq_of_mem_set member with old | rfl
  · exact unmoved other old
  · exact nothing

theorem Unmoved.onInstance (unmoved : session.Unmoved) {place : Nat}
    {function : GraphInstance → GraphInstance}
    (taken : session.onInstance place function = some after) : after.Unmoved := by
  obtain ⟨inst, _, rfl⟩ := Option.map_eq_some_iff.mp taken
  exact unmoved

theorem Unmoved.onGraph (unmoved : session.Unmoved) {graph : Nat}
    {function : GraphDB → Option Node × GraphDB}
    (taken : session.onGraph graph function = some after) : after.Unmoved := by
  obtain ⟨held, _, rest⟩ := Option.bind_eq_some_iff.mp taken
  obtain ⟨inst, _, rfl⟩ := Option.map_eq_some_iff.mp rest
  exact unmoved.append _ held.place

theorem Unmoved.onNode (unmoved : session.Unmoved) {object : Nat}
    {function : Node → GraphInstance → Bool × Node × GraphInstance} {result : Bool}
    (taken : session.onNode object function = some (result, after)) : after.Unmoved := by
  obtain ⟨held, _, rest⟩ := Option.bind_eq_some_iff.mp taken
  obtain ⟨inst, _, same⟩ := Option.map_eq_some_iff.mp rest
  obtain ⟨_, rfl⟩ := Prod.mk.inj same
  exact unmoved.set object rfl

theorem Unmoved.onObject (unmoved : session.Unmoved) {object : Nat}
    {function : AttachedNode → AttachedNode}
    (taken : session.onObject object function = some after)
    (keeps : ∀ held : AttachedNode, held.leftover = none → (function held).leftover = none) :
    after.Unmoved := by
  obtain ⟨held, found, rfl⟩ := Option.map_eq_some_iff.mp taken
  exact unmoved.set object (keeps held (unmoved held (List.mem_of_getElem? found)))

/-- Only `set_instance` leaves something of a former record in a message. -/
theorem Unmoved.step (unmoved : session.Unmoved) {call : SessionCall}
    (notMoved : ∀ object place, call ≠ .setInstance object place)
    (taken : session.step call = some after) : after.Unmoved := by
  cases call with
  | openInstance =>
      obtain rfl := Option.some.inj taken
      exact unmoved
  | flush place => exact unmoved.onInstance taken
  | commit place => exact unmoved.onInstance taken
  | abort place => exact unmoved.onInstance taken
  | openGraph place =>
      obtain rfl := Option.some.inj taken
      exact unmoved
  | getNode graph name =>
      rw [Session.step] at taken
      exact unmoved.onGraph taken
  | create graph name =>
      rw [Session.step] at taken
      exact unmoved.onGraph taken
  | remove graph object =>
      obtain ⟨function, found, reached, called, _, _, sameObjects⟩ := remove_cases taken
      have kept := unmoved.onNode called
      rw [Unmoved, sameObjects]
      exact kept
  | updateVersions graph priorVersion =>
      rw [Session.step] at taken
      exact unmoved.onGraph taken
  | setGraphVersion graph version =>
      rw [Session.step] at taken
      exact unmoved.onGraph taken
  | endTxn graph startVersion uncaughtException =>
      rw [Session.step] at taken
      exact unmoved.onGraph taken
  | createNode place name =>
      obtain rfl := Option.some.inj taken
      exact unmoved.append [Node.createNode name] place
  | read object =>
      obtain ⟨⟨result, reached⟩, called, rfl⟩ := Option.map_eq_some_iff.mp taken
      exact unmoved.onNode called
  | neighbours direction object =>
      obtain ⟨held, _, rest⟩ := Option.bind_eq_some_iff.mp taken
      obtain ⟨inst, _, rfl⟩ := Option.map_eq_some_iff.mp rest
      have loaded : Unmoved
          { session with
            objects := session.objects.set object (.fresh (held.initInfo inst) held.place) } :=
        unmoved.set object rfl
      exact loaded.append _ held.place
  | edit object edit =>
      obtain ⟨⟨result, reached⟩, called, rfl⟩ := Option.map_eq_some_iff.mp taken
      exact unmoved.onNode called
  | addGraphVersion object version =>
      obtain ⟨⟨result, reached⟩, called, rfl⟩ := Option.map_eq_some_iff.mp taken
      exact unmoved.onNode called
  | commitNode object =>
      obtain ⟨held, _, rest⟩ := Option.bind_eq_some_iff.mp taken
      obtain ⟨inst, _, rest⟩ := Option.bind_eq_some_iff.mp rest
      obtain ⟨info, _, rfl⟩ := Option.map_eq_some_iff.mp rest
      exact unmoved
  | setWantedVersion object version => exact unmoved.onObject taken fun held nothing => nothing
  | setInstance object place => exact absurd rfl (notMoved object place)

theorem Unmoved.settled (unmoved : session.Unmoved) (call : SessionCall) :
    session.Settled call := by
  intro object held inst _ found _ _ _ old left
  rw [unmoved held (List.mem_of_getElem? found)] at left
  simp at left

/-- A run without `set_instance` meets the condition of `versions_ascend`. -/
theorem settled_of_unmoved {calls : List SessionCall} (unmoved : session.Unmoved)
    (notMoved : ∀ call ∈ calls, ∀ object place, call ≠ .setInstance object place) :
    EventRuns.Along step Settled session calls := by
  induction calls generalizing session with
  | nil => trivial
  | cons call rest ih =>
      refine ⟨unmoved.settled call, fun next taken => ?_⟩
      have kept := unmoved.step (notMoved call List.mem_cons_self) taken
      exact ih kept fun other member => notMoved other (List.mem_cons_of_mem call member)

theorem Unmoved.empty : empty.Unmoved := by
  simp [Unmoved, Session.empty]

/-- An edge that is lost and added again. -/
def edgeReadded : List SessionCall :=
  [.openInstance, .openInstance, .openGraph 0, .create 0 "web", .edit 0 (.addEdge .forward "db"),
    .edit 0 (.removeEdge .forward "db"), .edit 0 (.addEdge .forward "db")]

theorem versions_ascend_edgeReadded :
    ∃ session info, EventRuns.run step empty edgeReadded = some session ∧
      session.HasRecord info ∧ info.forward = [⟨"db", [1, 3]⟩] ∧
      info.VersionsAscend ∧ info.ScansFind := by
  obtain ⟨session, info, ran, has, edges⟩ : ∃ session info,
      EventRuns.run step empty edgeReadded = some session ∧ session.HasRecord info ∧
        info.forward = [⟨"db", [1, 3]⟩] :=
    ⟨_, _, rfl, .held _ (List.mem_singleton_self _) rfl, rfl⟩
  have settled : EventRuns.Along step Settled empty edgeReadded :=
    settled_of_unmoved .empty (by simp [edgeReadded])
  exact ⟨session, info, ran, has, edges, (versions_ascend settled ran).1 info has⟩

/-- The object of `edgeReadded` is moved to an instance that does not know the
node.  Its list version starts again at 0, so that version 2 comes after
version 3, and at version 3 the edge is there and is not found. -/
theorem versions_descend_moved :
    ∃ session info, EventRuns.run step empty (edgeReadded ++ [.setInstance 0 1,
        .edit 0 (.setType .host), .edit 0 (.setType .host), .edit 0 (.setType .host)]) =
          some session ∧
      session.HasRecord info ∧ ¬ info.VersionsAscend ∧ ¬ info.ScansFind := by
  obtain ⟨session, info, ran, has, edges, version⟩ : ∃ session info,
      EventRuns.run step empty (edgeReadded ++ [.setInstance 0 1, .edit 0 (.setType .host),
        .edit 0 (.setType .host), .edit 0 (.setType .host)]) = some session ∧
      session.HasRecord info ∧ info.forward = [⟨"db", [1, 3, 2]⟩] ∧ info.listVersion = 3 :=
    ⟨_, _, rfl, .held _ (List.mem_singleton_self _) rfl, rfl, rfl⟩
  have member : (⟨"db", [1, 3, 2]⟩ : Adjacency) ∈ info.edges .forward := by
    rw [NodeInfo.edges, edges]
    exact List.mem_singleton_self _
  refine ⟨session, info, ran, has, fun ascend => ?_, fun find => ?_⟩
  · have ascending := ascend.edges .forward _ member
    simp [Ascending] at ascending
  · have found := (find.getEdges .forward none "db").mpr
      ⟨_, member, rfl, by simp [NodeInfo.cmpVersion, version]⟩
    simp [NodeInfo.getEdges, NodeInfo.edges, NodeInfo.cmpVersion, edges, version, scan, walk]
      at found

end Session

end Rangexx
