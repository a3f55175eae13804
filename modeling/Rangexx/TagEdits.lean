import Rangexx.NodeEdits
import Rangexx.TagValues

/-!
# The tags of a node object through a run of changes

Seen from outside, a node object has a map from keys to sets of values.
`update_tag` sets a key to the values it is given, whether the key was there
before or not, and `delete_tag` takes a key out.  `currentTags` says so without
versions, and the record keeps every one of these maps.
-/

namespace Rangexx

open AscendingScan

/-- The keys of a node that are set, with their values. -/
abbrev TagSets :=
  String → Option (Finset String)

/-- What the change is for, on the map of tags. -/
def NodeEdit.applyTags (sets : TagSets) : NodeEdit → TagSets
  | updateTag key values => Function.update sets key (some values.toFinset)
  | deleteTag key => Function.update sets key none
  | addEdge _ _ => sets
  | removeEdge _ _ => sets
  | setType _ => sets

/-- The map of tags after a run of changes of a fresh node. -/
def currentTags (edits : List NodeEdit) : TagSets :=
  edits.foldl NodeEdit.applyTags fun _ => none

/-- The record shows exactly the tags of the map. -/
def NodeInfo.ShowsTags (info : NodeInfo) (sets : TagSets) : Prop :=
  ∀ key, (info.tagNow key).map List.toFinset = sets key

theorem currentTags_concat (edits : List NodeEdit) (edit : NodeEdit) :
    currentTags (edits ++ [edit]) = edit.applyTags (currentTags edits) := by
  simp [currentTags]

namespace NodeInfo

theorem updateTag_showsTags {info : NodeInfo} {sets : TagSets} (wf : info.WF)
    (shows : info.ShowsTags sets) (key : String) (values : List String) :
    (info.updateTag key values).ShowsTags
      (Function.update sets key (some values.toFinset)) := by
  intro other
  by_cases same : other = key
  · subst same
    rw [updateTag_tagNow_same wf, Function.update_self, Option.map_some]
    congr 1
    ext data
    simp only [List.mem_toFinset, List.mem_filter, decide_eq_true_eq, SlotList.mem_reserveAll]
    exact ⟨fun found => found.2, fun member => ⟨Or.inr member, member⟩⟩
  · rw [updateTag_tagNow_ne wf key values same, Function.update_of_ne same]
    exact shows other

theorem deleteTag_showsTags {info changed : NodeInfo} {sets : TagSets} (wf : info.WF)
    (shows : info.ShowsTags sets) {key : String} (deleted : info.deleteTag key = some changed) :
    changed.ShowsTags (Function.update sets key none) := by
  intro other
  rw [deleteTag_tagNow wf deleted]
  by_cases same : other = key
  · subst same
    simp
  · rw [if_neg same, Function.update_of_ne same]
    exact shows other

end NodeInfo

namespace NodeEdit

theorem apply_showsTags {info changed : NodeInfo} {sets : TagSets} {edit : NodeEdit}
    (wf : info.WF) (shows : info.ShowsTags sets) (applied : edit.apply info = some changed) :
    changed.ShowsTags (edit.applyTags sets) := by
  cases edit with
  | addEdge direction other =>
      intro key
      rw [NodeInfo.addEdge_tagNow wf applied]
      exact shows key
  | removeEdge direction other =>
      intro key
      rw [NodeInfo.removeEdge_tagNow wf applied]
      exact shows key
  | updateTag key values =>
      obtain rfl := Option.some.inj applied
      exact NodeInfo.updateTag_showsTags wf shows key values
  | deleteTag key => exact NodeInfo.deleteTag_showsTags wf shows applied
  | setType type =>
      obtain rfl := Option.some.inj applied
      intro key
      rw [NodeInfo.setType_tagNow wf]
      exact shows key

/-- A change that fails would leave the map as it is. -/
theorem applyTags_of_none {info : NodeInfo} {sets : TagSets} {edit : NodeEdit} (wf : info.WF)
    (shows : info.ShowsTags sets) (failed : edit.apply info = none) :
    edit.applyTags sets = sets := by
  cases edit with
  | addEdge direction other => rfl
  | removeEdge direction other => rfl
  | updateTag key values => simp [apply] at failed
  | deleteTag key =>
      have unset := shows key
      rw [(NodeInfo.deleteTag_eq_none_iff wf).mp failed] at unset
      exact Function.update_eq_self_iff.mpr unset
  | setType type => simp [apply] at failed

end NodeEdit

/-- After any run of changes of a fresh record, the record shows the tags that
the changes are meant to leave. -/
theorem NodeInfo.edited_showsTags (edits : List NodeEdit) :
    (default.edited edits).ShowsTags (currentTags edits) := by
  induction edits using List.reverseRecOn with
  | nil => exact fun key => rfl
  | append_singleton edits edit shows =>
      have wf := (edited_shows edits).1
      rw [edited_concat, currentTags_concat]
      cases applied : edit.apply (default.edited edits) with
      | none =>
          rw [NodeEdit.applyTags_of_none wf shows applied]
          exact shows
      | some changed => exact NodeEdit.apply_showsTags wf shows applied

namespace Node

/-- The tag history of a node object.  Reading at any list version up to the
present one gives the tags the object had when that was its version: the keys
that were set, each with the values it was set to. -/
theorem tags_at_listVersion {name : String} {inst later : GraphInstance} {node : Node}
    {edits : List NodeEdit} {wanted : Nat} (fresh : inst.getRecord (.node, name) = none)
    (ran : (createNode name).edits inst edits = (node, later))
    (le : wanted ≤ node.version later) :
    (∃ earlier past before, earlier <+: edits ∧
      (createNode name).edits inst earlier = (past, before) ∧ past.version before = wanted) ∧
      ∀ earlier past before, earlier <+: edits →
        (createNode name).edits inst earlier = (past, before) → past.version before = wanted →
        ∀ key,
          (((node.setWantedVersion (some wanted)).tags later).lookup key).map List.toFinset =
            currentTags earlier key ∧
          (∀ values, ((node.setWantedVersion (some wanted)).tags later).lookup key =
            some values → values.Nodup) ∧
          ((node.setWantedVersion (some wanted)).tags later).lookup key =
            ((past.setWantedVersion none).tags before).lookup key := by
  refine ⟨exists_moment fresh ran le, ?_⟩
  rintro earlier past before ⟨more, rfl⟩ reached sameVersion key
  have isPast := initInfo_edits fresh reached
  have isLater := initInfo_edits fresh ran
  rw [version, isPast] at sameVersion
  have wf := (NodeInfo.edited_shows earlier).1
  have laterWF := (NodeInfo.edited_shows (earlier ++ more)).1
  have kept := NodeInfo.edited_append_extends earlier more
  have read : ((node.setWantedVersion (some wanted)).tags later).lookup key =
      (NodeInfo.default.edited earlier).tagNow key := by
    change ((node.initInfo later).tagTable (some wanted)).lookup key = _
    rw [isLater, NodeInfo.lookup_tagTable laterWF]
    change tagAt _ wanted key = tagAt _ _ key
    rw [kept.pastTags wanted key (Nat.le_of_eq sameVersion.symm), sameVersion]
  have readPast : ((past.setWantedVersion none).tags before).lookup key =
      (NodeInfo.default.edited earlier).tagNow key := by
    change ((past.initInfo before).tagTable none).lookup key = _
    rw [isPast, NodeInfo.lookup_tagTable wf]
    rfl
  rw [read, readPast]
  refine ⟨NodeInfo.edited_showsTags earlier key, ?_, rfl⟩
  intro values shown
  exact NodeInfo.nodup_tagNow wf shown

/-- A key that is set, deleted and set again to the same values in another
order. -/
theorem tags_of_deleted_key :
    ((((createNode "c").edits Instance.empty [.updateTag "k" ["a", "b"], .deleteTag "k",
        .updateTag "k" ["b", "a"]]).1.setWantedVersion (some 2)).tags
          ((createNode "c").edits Instance.empty [.updateTag "k" ["a", "b"], .deleteTag "k",
            .updateTag "k" ["b", "a"]]).2).lookup "k" = none := by
  have read := (@tags_at_listVersion "c" Instance.empty _ _ _ 2 rfl rfl (by decide)).2
    [.updateTag "k" ["a", "b"], .deleteTag "k"] _ _ ⟨[.updateTag "k" ["b", "a"]], rfl⟩ rfl
      (by decide) "k"
  exact Option.map_eq_none_iff.mp (read.1.trans rfl)

end Node

end Rangexx
