import Rangexx.NodeHistory

/-!
# The values of the tags of a record

What `update_tag` and `delete_tag` leave of the values a record shows now.  A
value keeps the slot of the key it was first stored in, so `update_tag` shows
the values it is given in the order of their slots.
-/

namespace Rangexx

open AscendingScan

/-- The values a key ever had, in the order of their slots. -/
def KeyValue.slots (kv : KeyValue) : List String :=
  kv.values.map TagValue.data

/-- The same for a key of a record, which may have no entry. -/
def NodeInfo.slots (info : NodeInfo) (key : String) : List String :=
  (entryOf key info.tags).slots

/-! ## Marking the values of the new key version -/

private theorem mem_addTagValue_versions {newVersion : Nat} {data : String} {done : List String}
    {values : List TagValue} (nodup : (values.map TagValue.data).Nodup)
    (marked : ∀ value ∈ values, newVersion ∈ value.versions ↔ value.data ∈ done) :
    ∀ value ∈ addTagValue newVersion data values,
      newVersion ∈ value.versions ↔ value.data ∈ done ++ [data] := by
  induction values with
  | nil => simp [addTagValue]
  | cons head rest ih =>
      obtain ⟨headAbsent, restNodup⟩ := List.nodup_cons.mp nodup
      have restMarked : ∀ value ∈ rest, newVersion ∈ value.versions ↔ value.data ∈ done :=
        fun value member => marked value (List.mem_cons_of_mem head member)
      intro value member
      rw [addTagValue] at member
      split at member
      · rename_i same
        rcases List.mem_cons.mp member with rfl | inRest
        · simp [mem_addUniqueNewVersion, same]
        · have differs : value.data ≠ data := by
            intro equal
            apply headAbsent
            rw [← same, ← equal]
            exact List.mem_map_of_mem inRest
          simp [restMarked value inRest, differs]
      · rename_i differs
        rcases List.mem_cons.mp member with rfl | inRest
        · simp [marked value List.mem_cons_self, Ne.symm differs]
        · exact ih restNodup restMarked value inRest

private theorem mem_foldl_addTagValue_versions {newVersion : Nat} {done : List String}
    (added : List String) {values : List TagValue} (nodup : (values.map TagValue.data).Nodup)
    (marked : ∀ value ∈ values, newVersion ∈ value.versions ↔ value.data ∈ done) :
    ∀ value ∈ added.foldl (fun stored value => addTagValue newVersion value stored) values,
      newVersion ∈ value.versions ↔ value.data ∈ done ++ added := by
  induction added generalizing values done with
  | nil => simpa using marked
  | cons data rest ih =>
      have stepNodup : ((addTagValue newVersion data values).map TagValue.data).Nodup := by
        rw [map_data_addTagValue]
        exact SlotList.nodup_reserve nodup data
      rw [List.foldl_cons, show done ++ data :: rest = done ++ [data] ++ rest by simp]
      exact ih stepNodup (mem_addTagValue_versions nodup marked)

/-- The values of the new key version, in the order of their slots. -/
theorem map_data_filter_marked {newVersion : Nat} (added : List String) {values : List TagValue}
    (nodup : (values.map TagValue.data).Nodup)
    (fresh : ∀ value ∈ values, newVersion ∉ value.versions) :
    ((added.foldl (fun stored value => addTagValue newVersion value stored) values).filter
        fun value => newVersion ∈ value.versions).map TagValue.data =
      (SlotList.reserveAll (values.map TagValue.data) added).filter fun data =>
        data ∈ added := by
  have unmarked : ∀ value ∈ values, newVersion ∈ value.versions ↔ value.data ∈ [] := by
    intro value member
    simpa using fresh value member
  have marked := mem_foldl_addTagValue_versions added nodup unmarked
  rw [← map_data_foldl_addTagValue newVersion added values]
  generalize added.foldl (fun stored value => addTagValue newVersion value stored) values = stored
    at marked ⊢
  rw [List.filter_map]
  congr 1
  apply List.filter_congr
  intro value member
  simpa using marked value member

theorem KeyValue.valuesAt_updated_succ {bound : Nat} {kv : KeyValue} (values : List String)
    (wf : kv.WF bound) :
    (kv.updated bound values).valuesAt (bound + 1) =
      some ((SlotList.reserveAll kv.slots values).filter fun data => data ∈ values) := by
  have updatedWF := wf.updated values
  have fresh : ∀ value ∈ kv.values, kv.keyVersion + 1 ∉ value.versions := by
    intro value member inVersions
    have := wf.valuesBounded value member _ inVersions
    omega
  have read := getMapValue_eq updatedWF (kv.keyVersion + 1)
  rw [valuesAt_eq updatedWF]
  rw [KeyValue.updated_eq] at read ⊢
  rw [if_pos (by simp), KeyValue.entryAt_append_succ wf, Option.map_some, read,
    map_data_filter_marked values wf.valuesNodup fresh]
  rfl

namespace NodeInfo

theorem WF.nodup_slots {info : NodeInfo} (wf : info.WF) (key : String) :
    (info.slots key).Nodup :=
  (wf.tags.entryOf key).valuesNodup

/-- The values shown for a key are listed in the order of their slots. -/
theorem tagNow_eq_filter {info : NodeInfo} (wf : info.WF) {key : String} {values : List String}
    (shown : info.tagNow key = some values) :
    values = (info.slots key).filter fun data => data ∈ values := by
  unfold tagNow tagAt at shown
  obtain ⟨kv, found, isShown⟩ := Option.bind_eq_some_iff.mp shown
  have kvWF := wf.tags.entries kv (List.mem_of_find?_eq_some found)
  rw [valuesAt_eq kvWF] at isShown
  split at isShown
  · obtain ⟨entry, _, isRead⟩ := Option.map_eq_some_iff.mp isShown
    rw [getMapValue_eq kvWF] at isRead
    have sameSlots : info.slots key = kv.values.map TagValue.data := by
      unfold slots entryOf
      rw [found]
      rfl
    rw [sameSlots, List.filter_map, ← isRead]
    congr 1
    apply List.filter_congr
    intro value member
    rw [Function.comp_apply, decide_eq_decide]
    constructor
    · intro inVersions
      exact List.mem_map.mpr ⟨value, List.mem_filter.mpr ⟨member, by simpa using inVersions⟩, rfl⟩
    · intro inShown
      obtain ⟨other, otherMember, sameData⟩ := List.mem_map.mp inShown
      obtain ⟨isStored, inVersions⟩ := List.mem_filter.mp otherMember
      have same : other = value :=
        List.inj_on_of_nodup_map kvWF.valuesNodup isStored member sameData
      rw [← same]
      simpa using inVersions
  · simp at isShown

theorem listed_tagNow {info : NodeInfo} (wf : info.WF) (key : String) :
    SlotList.Listed (info.slots key) ((info.tagNow key).getD []) := by
  cases shown : info.tagNow key with
  | none => exact SlotList.Listed.nil _
  | some values => exact tagNow_eq_filter wf shown

theorem nodup_tagNow {info : NodeInfo} (wf : info.WF) {key : String} {values : List String}
    (shown : info.tagNow key = some values) : values.Nodup := by
  rw [tagNow_eq_filter wf shown]
  exact (wf.nodup_slots key).filter _

/-! ## `update_tag` -/

section Update

variable {info : NodeInfo} (wf : info.WF) (key : String) (values : List String)

include wf

theorem updateTag_tagNow_same :
    (info.updateTag key values).tagNow key =
      some ((SlotList.reserveAll (info.slots key) values).filter fun data => data ∈ values) := by
  change tagAt (updatedTags info.listVersion key values info.tags) (info.listVersion + 1) key = _
  unfold tagAt
  rw [find?_updatedTags_same key values wf.tags, Option.bind_some,
    KeyValue.valuesAt_updated_succ values (wf.tags.entryOf key)]
  rfl

/-- Values that are listed in the order of their slots are shown as given. -/
theorem updateTag_tagNow_listed (listed : SlotList.Listed (info.slots key) values) :
    (info.updateTag key values).tagNow key = some values := by
  rw [updateTag_tagNow_same wf, SlotList.reserveAll_of_subset listed.subset, ← listed]

theorem updateTag_tagNow_ne {other : String} (differs : other ≠ key) :
    (info.updateTag key values).tagNow other = info.tagNow other := by
  change tagAt (updatedTags info.listVersion key values info.tags) (info.listVersion + 1) other =
    _
  unfold tagNow tagAt
  rw [find?_updatedTags_ne key values wf.tags differs]
  cases found : info.tags.find? fun kv => other == kv.key with
  | none => rfl
  | some kv =>
      exact KeyValue.valuesAt_carry_succ (wf.tags.entries kv (List.mem_of_find?_eq_some found))

end Update

/-- A value that is appended is shown at the end exactly when the slot it has, if
it has one, is behind those of the values it is appended to. -/
theorem updateTag_tagNow_concat_iff {info : NodeInfo} (wf : info.WF) {key : String}
    {values : List String} (listed : SlotList.Listed (info.slots key) values) {value : String}
    (absent : value ∉ values) :
    (info.updateTag key (values ++ [value])).tagNow key = some (values ++ [value]) ↔
      ∀ other ∈ SlotList.behind (info.slots key) value, other ∉ values := by
  rw [updateTag_tagNow_same wf, Option.some.injEq]
  exact listed.concat_iff (wf.nodup_slots key) absent

/-! ## `delete_tag` -/

section Delete

variable {info : NodeInfo} (wf : info.WF) {key : String}

include wf

theorem deleteTag_eq_none_iff : info.deleteTag key = none ↔ info.tagNow key = none := by
  unfold deleteTag tagNow tagAt
  cases found : info.tags.find? fun kv => key == kv.key with
  | none => simp
  | some kv =>
      have kvWF := wf.tags.entries kv (List.mem_of_find?_eq_some found)
      rw [Option.bind_some, valuesAt_eq kvWF]
      by_cases isSet : info.listVersion ∈ kv.versions
      · obtain ⟨entry, isMapped, _⟩ := Option.map_eq_some_iff.mp (kvWF.current isSet)
        unfold KeyValue.entryAt at isMapped
        simp [isSet, (scan_eq_equal_iff kvWF.ascending).mpr isSet, isMapped]
      · have notFound : ¬ scan info.listVersion kv.versions = .equal := fun equal =>
          isSet ((scan_eq_equal_iff kvWF.ascending).mp equal)
        simp [isSet, notFound]

/-- The entries of the record after `delete_tag`. -/
private theorem find?_deleted {changed : NodeInfo} (deleted : info.deleteTag key = some changed)
    (other : String) :
    (changed.tags.find? fun kv => other == kv.key) =
      (info.tags.find? fun kv => other == kv.key).map fun kv =>
        if other = key then { kv.carry info.listVersion (info.listVersion + 1) with
          versions := (kv.carry info.listVersion (info.listVersion + 1)).versions.dropLast }
        else kv.carry info.listVersion (info.listVersion + 1) := by
  unfold deleteTag at deleted
  cases found : info.tags.find? fun kv => key == kv.key with
  | none => simp [found] at deleted
  | some kv =>
      by_cases current : scan info.listVersion kv.versions = .equal
      · simp only [found, current, if_true, Option.some.injEq] at deleted
        subst deleted
        change (removeLastKeyVersion key (updateTagVersions info.listVersion
          (info.listVersion + 1) info.tags)).find? _ = _
        have sameTest : ((fun kv : KeyValue => other == kv.key) ∘
            KeyValue.carry info.listVersion (info.listVersion + 1)) =
              fun kv => other == kv.key := by
          funext kv
          simp
        rw [find?_removeLastKeyVersion, updateTagVersions_eq_map wf.tags.unmapped_succ,
          List.find?_map, sameTest, Option.map_map]
        rfl
      · simp [found, current] at deleted

theorem deleteTag_tagNow {changed : NodeInfo} (deleted : info.deleteTag key = some changed)
    (other : String) :
    changed.tagNow other = if other = key then none else info.tagNow other := by
  have version := (deleteTag_advance wf deleted).listVersion
  unfold tagNow tagAt
  rw [find?_deleted wf deleted, version]
  cases found : info.tags.find? fun kv => other == kv.key with
  | none => simp
  | some kv =>
      have kvWF := wf.tags.entries kv (List.mem_of_find?_eq_some found)
      rw [Option.map_some, Option.bind_some, Option.bind_some]
      by_cases same : other = key
      · rw [if_pos same, if_pos same, valuesAt_eq kvWF.carry.dropLast, if_neg]
        -- The list ascends, so dropping its last version drops the new one.
        intro member
        have strict := (kvWF.carry : (kv.carry info.listVersion (info.listVersion + 1)).WF _).ascending
        dsimp only at member
        have nonempty : (kv.carry info.listVersion (info.listVersion + 1)).versions ≠ [] := by
          intro nothing
          rw [nothing] at member
          simp at member
        rw [← List.dropLast_append_getLast nonempty] at strict
        have below := (List.pairwise_append.mp strict).2.2 _ member _ (List.mem_singleton_self _)
        have bounded := (kvWF.carry : (kv.carry info.listVersion (info.listVersion + 1)).WF _).bounded _
          (List.getLast_mem nonempty)
        omega
      · rw [if_neg same, if_neg same]
        exact KeyValue.valuesAt_carry_succ kvWF

end Delete

end NodeInfo

end Rangexx
