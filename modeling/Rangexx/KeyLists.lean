import Rangexx.CallRuns
import Rangexx.Snapshot
import Rangexx.TagValues

/-!
# The values of a key as a list

`add_node_key_value` is described as appending to the list of values of a key.
It hands the longer list to `update_tag`, which puts a value the key had before
into the slot it had then.  So a value is appended exactly when none of the
values listed now has a slot behind it.
-/

namespace Rangexx

open StateProgram RangeApi Api

/-- A call on a key of a node. -/
inductive KeyCall where
  | addNodeKeyValue (key value : String) (id : Nat)
  | removeNodeKeyValue (key value : String) (id : Nat)
  | removeKeyFromNode (key : String) (id : Nat)
  deriving DecidableEq, Repr

/-- The keys of a node with their values. -/
abbrev KeyLists : Type := String → Option (List String)

namespace KeyCall

def toCall (envName nodeName : String) : KeyCall → WriteCall
  | addNodeKeyValue key value id => ⟨.addNodeKeyValue, [envName, nodeName, key, value], id⟩
  | removeNodeKeyValue key value id => ⟨.removeNodeKeyValue, [envName, nodeName, key, value], id⟩
  | removeKeyFromNode key id => ⟨.removeKeyFromNode, [envName, nodeName, key], id⟩

/-- What the call is described to do to the lists. -/
def onLists (lists : KeyLists) : KeyCall → KeyLists
  | addNodeKeyValue key value _ =>
      Function.update lists key (some ((lists key).getD [] ++ [value]))
  | removeNodeKeyValue key value _ =>
      Function.update lists key ((lists key).map fun values =>
        values.filter fun other => other ≠ value)
  | removeKeyFromNode key _ => Function.update lists key none

end KeyCall

namespace KeyCall

/-- What the call does to the record of its node. -/
def Changes (info changed : NodeInfo) : KeyCall → Prop
  | addNodeKeyValue key value _ =>
      value ∉ (info.tagNow key).getD [] ∧
        changed = info.updateTag key ((info.tagNow key).getD [] ++ [value])
  | removeNodeKeyValue key value _ =>
      value ∈ (info.tagNow key).getD [] ∧
        changed = info.updateTag key (((info.tagNow key).getD []).filter fun other =>
          other ≠ value)
  | removeKeyFromNode key _ => info.deleteTag key = some changed

/-- A value that is added has no slot before a value that is listed. -/
def AtEnd (info : NodeInfo) : KeyCall → Prop
  | addNodeKeyValue key value _ =>
      ∀ other ∈ SlotList.behind (info.slots key) value, other ∉ (info.tagNow key).getD []
  | _ => True

/-- The lists change as described exactly when nothing listed is behind the
value that is added. -/
theorem Changes.onLists_iff {info changed : NodeInfo} (wf : info.WF) {call : KeyCall}
    (changes : call.Changes info changed) :
    changed.tagNow = call.onLists info.tagNow ↔ call.AtEnd info := by
  cases call with
  | addNodeKeyValue key value id =>
      obtain ⟨absent, rfl⟩ := changes
      rw [onLists, Function.eq_update_iff]
      rw [NodeInfo.updateTag_tagNow_concat_iff wf (NodeInfo.listed_tagNow wf key) absent]
      exact and_iff_left fun other differs => NodeInfo.updateTag_tagNow_ne wf key _ differs
  | removeNodeKeyValue key value id =>
      obtain ⟨present, rfl⟩ := changes
      refine iff_of_true ?_ trivial
      rw [onLists, Function.eq_update_iff]
      have listed := (NodeInfo.listed_tagNow wf key).filter fun other => other ≠ value
      refine ⟨?_, fun other differs => NodeInfo.updateTag_tagNow_ne wf key _ differs⟩
      rw [NodeInfo.updateTag_tagNow_listed wf key _ listed]
      cases shown : info.tagNow key with
      | none => simp [shown] at present
      | some values => rfl
  | removeKeyFromNode key id =>
      refine iff_of_true ?_ trivial
      rw [onLists, Function.eq_update_iff]
      refine ⟨?_, fun other differs => ?_⟩
      · rw [NodeInfo.deleteTag_tagNow wf changes, if_pos rfl]
      · rw [NodeInfo.deleteTag_tagNow wf changes, if_neg differs]

end KeyCall

/-- A successful call on a key: the node that is meant and the change of its
record. -/
def KeyStep (world : World) (envName nodeName : String) (call : KeyCall) (after : World) : Prop :=
  ∃ name changed, resolve (world.roster .primary) envName nodeName = .ok (some name) ∧
    world.primary.inst.Live name ∧ call.Changes (world.primary.inst.readNode name) changed ∧
    ∀ key, (after.primary.inst.readNode name).tagNow key = changed.tagNow key

namespace World

/-- The list that `fetch_key` returns, if it does not throw. -/
def fetched (world : World) (envName nodeName key : String) : Option (List String) :=
  (fetchKey envName nodeName key none world).1.toOption

/-- The call returns true. -/
def Succeeds (world : World) (call : WriteCall) : Prop :=
  (call.run world).1.toOption = some true

instance (world : World) (call : WriteCall) : Decidable (world.Succeeds call) :=
  inferInstanceAs (Decidable (_ = _))

/-- A value that is added has no slot before a value that is listed. -/
def AddsAtEnd (world : World) (call : WriteCall) : Prop :=
  call.method = .addNodeKeyValue →
    ∀ envName ∈ call.args[0]?, ∀ nodeName ∈ call.args[1]?, ∀ key ∈ call.args[2]?,
      ∀ value ∈ call.args[3]?,
        ∀ name ∈ (resolve (world.roster .primary) envName nodeName).toOption.join,
          ∀ other ∈ SlotList.behind ((world.primary.inst.readNode name).slots key) value,
            other ∉ ((world.primary.inst.readNode name).tagNow key).getD []

instance (world : World) (call : WriteCall) : Decidable (world.AddsAtEnd call) :=
  inferInstanceAs (Decidable (_ = _ → ∀ envName ∈ _, _))

variable {world after : World} {envName nodeName name : String}

/-- `fetch_key` shows the values in the record of the node that is meant. -/
theorem fetched_eq (quiet : world.Quiet)
    (chosen : resolve (world.roster .primary) envName nodeName = .ok (some name))
    (live : world.primary.inst.Live name) (key : String) :
    world.fetched envName nodeName key = (world.primary.inst.readNode name).tagNow key := by
  have opens : graphdb .primary none world =
      (.ok (), world.setGraph .primary (.ofInstance world.primary.inst)) := rfl
  have read : inNode (.ofInstance world.primary.inst) envName nodeName
      (keyValues (.ofInstance world.primary.inst) key) =
        keyValues (.ofInstance world.primary.inst) key (Node.loaded world.primary.inst name) := by
    unfold inNode
    rw [show resolve (GraphDB.ofInstance world.primary.inst).roster envName nodeName = _ from
      chosen, fetch, GraphDB.getNode_ofInstance quiet.primary, if_pos live]
  unfold fetched
  rw [fetchKey_eq, answering_apply opens]
  change (inNode (.ofInstance world.primary.inst) envName nodeName
    (keyValues (.ofInstance world.primary.inst) key)).toOption = _
  rw [read, keyValues]
  have shown : ((Node.loaded world.primary.inst name).tags
      (GraphDB.ofInstance world.primary.inst).inst).lookup key =
        (world.primary.inst.readNode name).tagNow key :=
    Node.lookup_tags_loaded quiet.primary name key
  rw [shown]
  cases (world.primary.inst.readNode name).tagNow key with
  | none => rfl
  | some values => rfl

theorem readValues_loaded (quiet : world.Quiet) (name key : String) :
    readValues world (Node.loaded world.primary.inst name) key =
      ((world.primary.inst.readNode name).tagNow key).getD [] :=
  congrArg (fun values => values.getD []) (Node.lookup_tags_loaded quiet.primary name key)

/-- The tags of a node at the end of a call that changed its record. -/
theorem tagNow_closed {update : NodeInfo → Option NodeInfo} {changed : NodeInfo}
    (request : Request) (quiet : world.Quiet)
    (updated : update (world.primary.inst.readNode name) = some changed) (key : String) :
    (((world.closed (((world.opened .primary).setGraph .primary (.ofInstance
      ((Node.loaded world.primary.inst name).change update world.primary.inst).2.2)).appendTxn
        request).addNewRangeVersion .primary).primary.inst.readNode name).tagNow key) =
      changed.tagNow key := by
  have holds := Node.loaded_holds world.primary.inst name
  have written := @Node.change_of_some (Node.loaded world.primary.inst name) update
    world.primary.inst changed (by rw [holds.initInfo]; exact updated)
  rw [written]
  have touched : (world.primary.inst.writeRecord (.node, name) changed.listVersion
      changed).Touched := Instance.touched_writeRecord _ _ _ _
  have advanced : world.primary.version <
      (GraphDB.ofInstance (world.primary.inst.writeRecord (.node, name) changed.listVersion
        changed)).version := by
    have before : world.primary.version = world.primary.inst.changelist.currentVersion :=
      quiet.primary.version_eq
    have after := Instance.version_of_pending touched.pending_pos
    rw [Instance.changelist_writeRecord] at after
    change world.primary.version < (world.primary.inst.writeRecord (.node, name)
      changed.listVersion changed).version
    omega
  refine (GraphDB.tagNow_endTxn touched advanced name key).trans ?_
  change ((world.primary.inst.writeRecord (.node, name) changed.listVersion changed).readNode
    name).tagNow key = _
  rw [readNode_writeRecord_node, if_pos rfl]

theorem tagNow_updated {key : String} {values : List String} {changed : World} {result : Bool}
    (request : Request) (quiet : world.Quiet)
    (updated : updateTag .primary (Node.loaded world.primary.inst name) key values
      (world.opened .primary) = (.ok result, changed)) (other : String) :
    ((world.closed (changed.appendTxn request).addNewRangeVersion
      .primary).primary.inst.readNode name).tagNow other =
        ((world.primary.inst.readNode name).updateTag key values).tagNow other := by
  rw [updateTag, onGraph_apply] at updated
  obtain ⟨_, rfl⟩ := Prod.mk.inj updated
  exact @tagNow_closed world name (fun info => some (info.updateTag key values)) _ request quiet
    rfl other

theorem tagNow_deleted {key : String} {changed : World} (request : Request)
    (quiet : world.Quiet)
    (deleted : deleteTag .primary (Node.loaded world.primary.inst name) key
      (world.opened .primary) = (.ok true, changed)) :
    ∃ info, (world.primary.inst.readNode name).deleteTag key = some info ∧
      ∀ other, ((world.closed (changed.appendTxn request).addNewRangeVersion
        .primary).primary.inst.readNode name).tagNow other = info.tagNow other := by
  rw [deleteTag, onGraph_apply] at deleted
  obtain ⟨found, rfl⟩ := Prod.mk.inj deleted
  cases removed : (world.primary.inst.readNode name).deleteTag key with
  | none =>
      have refused := @Node.change_of_none (Node.loaded world.primary.inst name)
        (fun info => info.deleteTag key) world.primary.inst removed
      have notFound := congrArg Prod.fst refused
      exact absurd ((Except.ok.inj found).symm.trans notFound) (by simp)
  | some info =>
      exact ⟨info, rfl, @tagNow_closed world name (fun info => info.deleteTag key) info request
        quiet removed⟩

/-! ## One call -/

theorem addNodeKeyValue_changes {key value : String} {id : Nat} {result : Bool}
    (quiet : world.Quiet)
    (returned : addNodeKeyValue envName nodeName key value id world = (.ok result, after)) :
    KeyStep world envName nodeName (.addNodeKeyValue key value id) after := by
  obtain ⟨name, changed, chosen, live, ⟨absent, updated⟩, rfl⟩ :=
    addNodeKeyValue_keyed quiet returned
  rw [readValues_loaded quiet] at absent updated
  exact ⟨name, _, chosen, live, ⟨absent, rfl⟩, tagNow_updated _ quiet updated⟩

theorem removeNodeKeyValue_changes {key value : String} {id : Nat} {result : Bool}
    (quiet : world.Quiet)
    (returned : removeNodeKeyValue envName nodeName key value id world = (.ok result, after)) :
    KeyStep world envName nodeName (.removeNodeKeyValue key value id) after := by
  obtain ⟨name, changed, chosen, live, ⟨shorter, updated⟩, rfl⟩ :=
    removeNodeKeyValue_keyed quiet returned
  rw [readValues_loaded quiet] at shorter updated
  refine ⟨name, _, chosen, live, ⟨?_, rfl⟩, tagNow_updated _ quiet updated⟩
  by_contra absent
  apply shorter
  rw [List.filter_eq_self.mpr]
  intro other member
  have differs : other ≠ value := by
    rintro rfl
    exact absent member
  simp [differs]

theorem removeKeyFromNode_changes {key : String} {id : Nat} {result : Bool}
    (quiet : world.Quiet)
    (returned : removeKeyFromNode envName nodeName key id world = (.ok result, after)) :
    KeyStep world envName nodeName (.removeKeyFromNode key id) after := by
  obtain ⟨name, changed, chosen, live, deleted, rfl⟩ :=
    removeKeyFromNode_keyed quiet returned
  obtain ⟨info, removed, shown⟩ := tagNow_deleted _ quiet deleted
  exact ⟨name, info, chosen, live, removed, shown⟩

theorem Succeeds.run_eq {call : WriteCall} (succeeds : world.Succeeds call) :
    call.run world = (.ok true, (call.run world).2) := by
  unfold Succeeds at succeeds
  generalize call.run world = outcome at succeeds ⊢
  obtain ⟨result, after⟩ := outcome
  cases result with
  | error error => simp [Except.toOption] at succeeds
  | ok result =>
      have isTrue : result = true := Option.some.inj succeeds
      rw [isTrue]

variable {call : KeyCall} (quiet : world.Quiet)
  (succeeds : world.Succeeds (call.toCall envName nodeName))

include quiet succeeds

theorem Succeeds.keyStep :
    KeyStep world envName nodeName call ((call.toCall envName nodeName).run world).2 := by
  have ran := succeeds.run_eq
  generalize ((call.toCall envName nodeName).run world).2 = after at ran
  cases call with
  | addNodeKeyValue key value id => exact addNodeKeyValue_changes quiet ran
  | removeNodeKeyValue key value id => exact removeNodeKeyValue_changes quiet ran
  | removeKeyFromNode key id => exact removeKeyFromNode_changes quiet ran

/-- A call on a key leaves the roster. -/
theorem Succeeds.roster_eq :
    ((call.toCall envName nodeName).run world).2.roster .primary = world.roster .primary := by
  have step := (WriteCall.run_ok quiet succeeds.run_eq).graphs .primary
  cases call with
  | addNodeKeyValue key value id => exact step.roster
  | removeNodeKeyValue key value id => exact step.roster
  | removeKeyFromNode key id => exact step.roster

/-- One call changes what is fetched as described exactly when the value it
adds, if it adds one, comes to stand at the end. -/
theorem fetched_call_iff :
    ((call.toCall envName nodeName).run world).2.fetched envName nodeName =
        call.onLists (world.fetched envName nodeName) ↔
      world.AddsAtEnd (call.toCall envName nodeName) := by
  obtain ⟨name, changed, chosen, live, changes, shown⟩ := succeeds.keyStep quiet
  have sameRoster := succeeds.roster_eq quiet
  have quietAfter := WriteCall.run_quiet quiet (call.toCall envName nodeName)
  generalize ((call.toCall envName nodeName).run world).2 = after at shown sameRoster quietAfter ⊢
  have chosenAfter : resolve (after.roster .primary) envName nodeName = .ok (some name) := by
    rw [sameRoster]
    exact chosen
  have liveAfter : after.primary.inst.Live name := by
    by_contra notLive
    rw [← (show (after.graph .primary).inst = after.primary.inst from rfl),
      ← WriteCall.roster_eq_none_iff quietAfter, sameRoster,
      WriteCall.roster_eq_none_iff quiet] at notLive
    exact notLive live
  have before : world.fetched envName nodeName = (world.primary.inst.readNode name).tagNow :=
    funext fun key => fetched_eq quiet chosen live key
  have now : after.fetched envName nodeName = changed.tagNow :=
    funext fun key => (fetched_eq quietAfter chosenAfter liveAfter key).trans (shown key)
  have atEnd : world.AddsAtEnd (call.toCall envName nodeName) ↔
      call.AtEnd (world.primary.inst.readNode name) := by
    cases call with
    | addNodeKeyValue key value id =>
        simp [AddsAtEnd, KeyCall.toCall, chosen, Except.toOption, KeyCall.AtEnd]
    | removeNodeKeyValue key value id => simp [AddsAtEnd, KeyCall.toCall, KeyCall.AtEnd]
    | removeKeyFromNode key id => simp [AddsAtEnd, KeyCall.toCall, KeyCall.AtEnd]
  rw [before, now, atEnd]
  exact changes.onLists_iff (quiet.primary.wf name)

omit quiet succeeds

/-- Calls on the keys of a node, one after the other. -/
theorem fetched_calls_iff (quiet : world.Quiet) {sequence : List KeyCall}
    (successful : Along Succeeds world (sequence.map (KeyCall.toCall envName nodeName))) :
    (∀ front, front <+: sequence →
      (world.calls (front.map (KeyCall.toCall envName nodeName))).fetched envName nodeName =
        front.foldl KeyCall.onLists (world.fetched envName nodeName)) ↔
      Along AddsAtEnd world (sequence.map (KeyCall.toCall envName nodeName)) := by
  induction sequence generalizing world with
  | nil =>
      refine ⟨fun _ => trivial, fun _ front isPrefix => ?_⟩
      rw [List.prefix_nil.mp isPrefix]
      rfl
  | cons call rest ih =>
      obtain ⟨succeeds, restSuccessful⟩ := successful
      have quietAfter := WriteCall.run_quiet quiet (call.toCall envName nodeName)
      have single := fetched_call_iff quiet succeeds
      constructor
      · intro always
        have first := always [call] (by simp)
        refine ⟨single.mp first, (ih quietAfter restSuccessful).mp fun front isPrefix => ?_⟩
        have whole := always (call :: front) (List.cons_prefix_cons.mpr ⟨rfl, isPrefix⟩)
        change _ = front.foldl KeyCall.onLists
          (call.onLists (world.fetched envName nodeName)) at whole
        rw [single.mpr (single.mp first)]
        exact whole
      · rintro ⟨atEnd, along⟩ front isPrefix
        cases front with
        | nil => rfl
        | cons other more =>
            obtain ⟨rfl, morePrefix⟩ := List.cons_prefix_cons.mp isPrefix
            have restAsListed := (ih quietAfter restSuccessful).mpr along more morePrefix
            rw [single.mpr atEnd] at restAsListed
            exact restAsListed

/-- From any state that write calls lead to, the values `fetch_key` returns
follow the description through calls on the keys of a node exactly when every
value added on the way has no slot before a value listed then. -/
theorem fetched_lists_iff (past : List WriteCall) {envName nodeName : String}
    {sequence : List KeyCall}
    (successful : Along Succeeds (empty.calls past)
      (sequence.map (KeyCall.toCall envName nodeName))) :
    (∀ front, front <+: sequence →
      ((empty.calls past).calls (front.map (KeyCall.toCall envName nodeName))).fetched
          envName nodeName =
        front.foldl KeyCall.onLists ((empty.calls past).fetched envName nodeName)) ↔
      Along AddsAtEnd (empty.calls past) (sequence.map (KeyCall.toCall envName nodeName)) :=
  fetched_calls_iff (empty_quiet.calls past) successful

/-- A host that loses a value and then the whole key, and gets values again. -/
def rolesChanged : List KeyCall :=
  [.addNodeKeyValue "role" "web" 2, .addNodeKeyValue "role" "db" 3,
    .removeNodeKeyValue "role" "web" 4, .addNodeKeyValue "role" "mail" 5,
    .removeKeyFromNode "role" 6, .addNodeKeyValue "role" "db" 7]

theorem fetched_lists_rolesChanged :
    ((empty.calls [⟨.addHost, ["h"], 1⟩]).calls
      (rolesChanged.map (KeyCall.toCall "" "h"))).fetched "" "h" "role" = some ["db"] := by
  have successful : Along Succeeds (empty.calls [⟨.addHost, ["h"], 1⟩])
      (rolesChanged.map (KeyCall.toCall "" "h")) := by decide +kernel
  have atEnd : Along AddsAtEnd (empty.calls [⟨.addHost, ["h"], 1⟩])
      (rolesChanged.map (KeyCall.toCall "" "h")) := by decide +kernel
  have lists := (fetched_lists_iff _ successful).mpr atEnd rolesChanged List.prefix_rfl
  exact (congrFun lists "role").trans (by decide +kernel)

/-- A value that was removed is added again and stands first as before. -/
theorem fetched_lists_reordered :
    ¬ ∀ (past : List WriteCall) (envName nodeName : String) (sequence : List KeyCall),
      Along Succeeds (empty.calls past) (sequence.map (KeyCall.toCall envName nodeName)) →
      ((empty.calls past).calls (sequence.map (KeyCall.toCall envName nodeName))).fetched
          envName nodeName =
        sequence.foldl KeyCall.onLists ((empty.calls past).fetched envName nodeName) := by
  intro appended
  have lists := congrFun (appended [⟨.addHost, ["h"], 1⟩] "" "h"
    [.addNodeKeyValue "role" "web" 2, .addNodeKeyValue "role" "db" 3,
      .removeNodeKeyValue "role" "web" 4, .addNodeKeyValue "role" "web" 5]
    (by decide +kernel)) "role"
  revert lists
  decide +kernel

end World

end Rangexx
