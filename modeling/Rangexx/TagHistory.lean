import Rangexx.EdgeHistory
import Rangexx.SlotList

/-!
# The tag history of a node record

Each tag key maps the list versions at which it was set to a key version, and
each value lists the key versions it belongs to.  Changes of a record append
to these lists at the next list version only, so the values of a key at an
earlier list version stay what they were.
-/

namespace Rangexx

open AscendingScan

/-- The values of `key` at a list version. -/
def tagAt (tags : List KeyValue) (version : Nat) (key : String) : Option (List String) :=
  (tags.find? fun kv => key == kv.key).bind (KeyValue.valuesAt version)

/-- The map entry that is read at a list version. -/
def KeyValue.entryAt (version : Nat) (kv : KeyValue) : Option ListToVersionMap :=
  kv.versionmap.find? fun entry => entry.listVersion == version

/-- The version lists of a key in a record with list version `bound`.  A key
that is set maps that version to its own latest one. -/
structure KeyValue.WF (bound : Nat) (kv : KeyValue) : Prop where
  ascending : Ascending kv.versions
  bounded : ∀ version ∈ kv.versions, version ≤ bound
  mapped : ∀ entry ∈ kv.versionmap,
    entry.listVersion ≤ bound ∧ entry.keyVersion ≤ kv.keyVersion
  current : bound ∈ kv.versions →
    (kv.entryAt bound).map ListToVersionMap.keyVersion = some kv.keyVersion
  valuesAscending : ∀ value ∈ kv.values, Ascending value.versions
  valuesBounded : ∀ value ∈ kv.values, ∀ version ∈ value.versions, version ≤ kv.keyVersion
  valuesNodup : (kv.values.map TagValue.data).Nodup

structure TagsWF (bound : Nat) (tags : List KeyValue) : Prop where
  nodup : (tags.map KeyValue.key).Nodup
  entries : ∀ kv ∈ tags, kv.WF bound

theorem mapValueWalk_eq {cmpVersion : Nat} {data : String} {reversed : List Nat}
    (descending : reversed.Pairwise (· > ·)) :
    mapValueWalk cmpVersion data reversed =
      if cmpVersion ∈ reversed then [data] else [] := by
  induction reversed with
  | nil => rfl
  | cons version rest ih =>
      have ⟨below, restDescending⟩ := List.pairwise_cons.mp descending
      rw [mapValueWalk, ih restDescending]
      by_cases same : cmpVersion = version
      · have absent : cmpVersion ∉ rest := by
          intro member
          have := below cmpVersion member
          omega
        rw [if_pos same, if_neg absent]
        simp [same]
      · rw [if_neg same]
        by_cases older : version < cmpVersion
        · have absent : cmpVersion ∉ rest := by
            intro member
            have := below cmpVersion member
            omega
          simp [older, same, absent]
        · simp [older, same]

theorem getMapValue_eq {bound : Nat} {kv : KeyValue} (wf : kv.WF bound) (keyVersion : Nat) :
    getMapValue keyVersion kv =
      (kv.values.filter fun value => keyVersion ∈ value.versions).map TagValue.data := by
  have allAscending := wf.valuesAscending
  unfold getMapValue
  generalize kv.values = values at allAscending ⊢
  induction values with
  | nil => rfl
  | cons value rest ih =>
      rw [List.flatMap_cons, ih fun other member => allAscending other (by simp [member]),
        mapValueWalk_eq (List.pairwise_reverse.mpr (allAscending value (by simp)))]
      by_cases present : keyVersion ∈ value.versions
      · simp [present]
      · simp [present]

theorem valuesAt_eq {bound : Nat} {kv : KeyValue} (wf : kv.WF bound) (version : Nat) :
    kv.valuesAt version =
      if version ∈ kv.versions then
        (kv.versionmap.find? fun entry => entry.listVersion == version).map fun entry =>
          getMapValue entry.keyVersion kv
      else none := by
  unfold KeyValue.valuesAt
  by_cases present : version ∈ kv.versions
  · rw [if_pos ((scan_eq_equal_iff wf.ascending).mpr present), if_pos present]
  · have notFound : ¬ scan version kv.versions = .equal := fun found =>
      present ((scan_eq_equal_iff wf.ascending).mp found)
    rw [if_neg notFound, if_neg present]

/-! ## One step of the version lists -/

/-- What `update_tag_versions` does to one key when no key maps the new list
version yet. -/
def KeyValue.carry (cmpVersion newVersion : Nat) (kv : KeyValue) : KeyValue :=
  if cmpVersion ∈ kv.versions ∨ newVersion ∈ kv.versions then
    { kv with
      versions := addUniqueNewVersion kv.versions newVersion
      versionmap := kv.versionmap ++ [⟨newVersion, kv.keyVersion⟩] }
  else kv

@[simp]
theorem KeyValue.carry_key (cmpVersion newVersion : Nat) (kv : KeyValue) :
    (kv.carry cmpVersion newVersion).key = kv.key := by
  unfold KeyValue.carry
  split <;> rfl

/-- Without an entry for the new list version the early return of
`update_tag_versions` is never taken. -/
theorem updateTagVersions_eq_map {cmpVersion newVersion : Nat} {tags : List KeyValue}
    (unmapped : ∀ kv ∈ tags, ∀ entry ∈ kv.versionmap, entry.listVersion ≠ newVersion) :
    updateTagVersions cmpVersion newVersion tags =
      tags.map (KeyValue.carry cmpVersion newVersion) := by
  induction tags with
  | nil => rfl
  | cons kv rest ih =>
      have restMapped := ih fun other member => unmapped other (by simp [member])
      rw [updateTagVersions, List.map_cons]
      unfold KeyValue.carry
      cases update : updateUniqueNewVersion kv.versions cmpVersion newVersion with
      | none =>
          have ⟨cmpAbsent, newAbsent⟩ := updateUniqueNewVersion_eq_none_iff.mp update
          rw [restMapped, if_neg (by tauto)]
          rfl
      | some versions =>
          have present : cmpVersion ∈ kv.versions ∨ newVersion ∈ kv.versions := by
            by_contra absent
            rw [updateUniqueNewVersion_eq_none_iff.mpr (by tauto)] at update
            simp at update
          have noEntry : (kv.versionmap.any fun entry => entry.listVersion == newVersion) =
              false := by
            rw [List.any_eq_false]
            intro entry member
            simpa using unmapped kv (by simp) entry member
          rw [if_pos present, updateUniqueNewVersion_eq_some update, restMapped]
          simp only [noEntry, Bool.false_eq_true, if_false]
          rfl

theorem KeyValue.WF.unmapped_succ {bound : Nat} {kv : KeyValue} (wf : kv.WF bound) :
    kv.entryAt (bound + 1) = none := by
  unfold KeyValue.entryAt
  rw [List.find?_eq_none]
  intro entry member isNext
  have := (wf.mapped entry member).1
  rw [beq_iff_eq] at isNext
  omega

/-- The new entry is the one read at the new list version. -/
theorem KeyValue.entryAt_append_succ {bound : Nat} {kv : KeyValue} (wf : kv.WF bound)
    (keyVersion : Nat) :
    (kv.versionmap ++ [ListToVersionMap.mk (bound + 1) keyVersion]).find? (fun entry =>
      entry.listVersion == bound + 1) = some ⟨bound + 1, keyVersion⟩ := by
  have unmapped : kv.versionmap.find? (fun entry => entry.listVersion == bound + 1) = none :=
    wf.unmapped_succ
  rw [List.find?_append, unmapped]
  simp

theorem KeyValue.WF.not_mem_succ {bound : Nat} {kv : KeyValue} (wf : kv.WF bound) :
    bound + 1 ∉ kv.versions := by
  intro member
  have := wf.bounded _ member
  omega

theorem KeyValue.WF.carry {bound cmpVersion : Nat} {kv : KeyValue} (wf : kv.WF bound) :
    (kv.carry cmpVersion (bound + 1)).WF (bound + 1) := by
  have bounded : ∀ version ∈ kv.versions, version ≤ bound + 1 := fun version member =>
    Nat.le_succ_of_le (wf.bounded version member)
  unfold KeyValue.carry
  split
  · refine ⟨addUniqueNewVersion_ascending wf.ascending bounded, ?_, ?_, ?_, wf.valuesAscending,
      wf.valuesBounded, wf.valuesNodup⟩
    · intro version member
      rcases mem_addUniqueNewVersion.mp member with old | rfl
      · exact bounded version old
      · exact Nat.le_refl _
    · intro entry member
      rcases List.mem_append.mp member with old | new
      · exact ⟨Nat.le_succ_of_le (wf.mapped entry old).1, (wf.mapped entry old).2⟩
      · rw [List.mem_singleton.mp new]
        exact ⟨Nat.le_refl _, Nat.le_refl _⟩
    · intro _
      unfold KeyValue.entryAt
      rw [KeyValue.entryAt_append_succ wf]
      rfl
  · exact ⟨wf.ascending, bounded, fun entry member =>
      ⟨Nat.le_succ_of_le (wf.mapped entry member).1, (wf.mapped entry member).2⟩,
      fun member => absurd member wf.not_mem_succ, wf.valuesAscending, wf.valuesBounded,
      wf.valuesNodup⟩

theorem KeyValue.valuesAt_carry {bound cmpVersion version : Nat} {kv : KeyValue}
    (wf : kv.WF bound) (le : version ≤ bound) :
    (kv.carry cmpVersion (bound + 1)).valuesAt version = kv.valuesAt version := by
  have ne : version ≠ bound + 1 := by omega
  rw [valuesAt_eq wf.carry, valuesAt_eq wf]
  unfold KeyValue.carry
  split
  · simp only [mem_addUniqueNewVersion, ne, or_false, List.find?_append]
    have notNew : ([⟨bound + 1, kv.keyVersion⟩] : List ListToVersionMap).find?
        (fun entry => entry.listVersion == version) = none := by
      simp [Ne.symm ne]
    rw [notNew, Option.or_none]
    rfl
  · rfl

/-- Carrying a key over keeps the values it has now. -/
theorem KeyValue.valuesAt_carry_succ {bound : Nat} {kv : KeyValue} (wf : kv.WF bound) :
    (kv.carry bound (bound + 1)).valuesAt (bound + 1) = kv.valuesAt bound := by
  rw [valuesAt_eq wf.carry, valuesAt_eq wf]
  unfold KeyValue.carry
  by_cases isSet : bound ∈ kv.versions
  · obtain ⟨entry, found, isKeyVersion⟩ := Option.map_eq_some_iff.mp (wf.current isSet)
    unfold KeyValue.entryAt at found
    rw [if_pos (Or.inl isSet), if_pos (mem_addUniqueNewVersion.mpr (Or.inr rfl)),
      if_pos isSet, found]
    dsimp only
    rw [KeyValue.entryAt_append_succ wf, Option.map_some, Option.map_some, isKeyVersion]
    rfl
  · have notCarried : ¬ (bound ∈ kv.versions ∨ bound + 1 ∈ kv.versions) :=
      not_or.mpr ⟨isSet, wf.not_mem_succ⟩
    rw [if_neg notCarried, if_neg wf.not_mem_succ, if_neg isSet]

theorem tagAt_map {change : KeyValue → KeyValue} {tags : List KeyValue} {version newVersion : Nat}
    (sameKey : ∀ kv, (change kv).key = kv.key)
    (sameValues : ∀ kv ∈ tags, (change kv).valuesAt newVersion = kv.valuesAt version)
    (key : String) : tagAt (tags.map change) newVersion key = tagAt tags version key := by
  unfold tagAt
  rw [List.find?_map]
  have sameTest : ((fun kv : KeyValue => key == kv.key) ∘ change) = fun kv => key == kv.key := by
    funext kv
    simp [sameKey]
  rw [sameTest]
  cases found : tags.find? fun kv => key == kv.key with
  | none => rfl
  | some kv => exact sameValues kv (List.mem_of_find?_eq_some found)

/-! ## Changing one key -/

theorem find?_upsertKey_same {key : String} {change : KeyValue → KeyValue}
    {tags : List KeyValue} (keepsKey : ∀ kv, (change kv).key = kv.key) :
    (upsertKey key change tags).find? (fun kv => key == kv.key) =
      some (change ((tags.find? fun kv => key == kv.key).getD ⟨key, 0, [], [], []⟩)) := by
  induction tags with
  | nil => simp [upsertKey, keepsKey]
  | cons kv rest ih =>
      rw [upsertKey]
      by_cases same : key = kv.key
      · rw [if_pos same]
        simp [keepsKey, same]
      · rw [if_neg same]
        simp [same, ih]

theorem find?_upsertKey_ne {key other : String} {change : KeyValue → KeyValue}
    {tags : List KeyValue} (keepsKey : ∀ kv, (change kv).key = kv.key) (ne : other ≠ key) :
    (upsertKey key change tags).find? (fun kv => other == kv.key) =
      tags.find? fun kv => other == kv.key := by
  induction tags with
  | nil => simp [upsertKey, keepsKey, ne]
  | cons kv rest ih =>
      rw [upsertKey]
      by_cases same : key = kv.key
      · rw [if_pos same]
        simp [keepsKey, ← same, ne]
      · rw [if_neg same]
        simp [List.find?_cons, ih]

theorem mem_upsertKey {key : String} {change : KeyValue → KeyValue} {tags : List KeyValue}
    {kv : KeyValue} (member : kv ∈ upsertKey key change tags) :
    kv ∈ tags ∨
      kv = change ((tags.find? fun other => key == other.key).getD ⟨key, 0, [], [], []⟩) := by
  induction tags with
  | nil => exact Or.inr (by simpa [upsertKey] using member)
  | cons head rest ih =>
      rw [upsertKey] at member
      by_cases same : key = head.key
      · rw [if_pos same] at member
        rcases List.mem_cons.mp member with atHead | inRest
        · right
          simpa [same] using atHead
        · exact Or.inl (by simp [inRest])
      · rw [if_neg same] at member
        rcases List.mem_cons.mp member with rfl | inRest
        · exact Or.inl (by simp)
        · rcases ih inRest with old | changed
          · exact Or.inl (by simp [old])
          · right
            simpa [same] using changed

theorem map_key_upsertKey {key : String} {change : KeyValue → KeyValue}
    (keepsKey : ∀ kv, (change kv).key = kv.key) (tags : List KeyValue) :
    (upsertKey key change tags).map KeyValue.key =
      if key ∈ tags.map KeyValue.key then tags.map KeyValue.key
      else tags.map KeyValue.key ++ [key] := by
  induction tags with
  | nil => simp [upsertKey, keepsKey]
  | cons kv rest ih =>
      rw [upsertKey]
      by_cases same : key = kv.key
      · rw [if_pos same]
        simp [keepsKey, same]
      · rw [if_neg same, List.map_cons, ih]
        by_cases present : key ∈ rest.map KeyValue.key
        · rw [if_pos present, if_pos (by simp [present])]
          rfl
        · rw [if_neg present, if_neg (by simpa [same] using present)]
          rfl

theorem nodup_map_key_upsertKey {key : String} {change : KeyValue → KeyValue}
    {tags : List KeyValue} (keepsKey : ∀ kv, (change kv).key = kv.key)
    (nodup : (tags.map KeyValue.key).Nodup) :
    ((upsertKey key change tags).map KeyValue.key).Nodup := by
  rw [map_key_upsertKey keepsKey]
  split
  · exact nodup
  · rename_i absent
    rw [List.nodup_append]
    refine ⟨nodup, List.nodup_singleton key, ?_⟩
    rintro first firstMember second secondMember rfl
    rw [List.mem_singleton.mp secondMember] at firstMember
    exact absent firstMember

theorem mem_removeLastKeyVersion {key : String} {tags : List KeyValue} {kv : KeyValue}
    (member : kv ∈ removeLastKeyVersion key tags) :
    kv ∈ tags ∨ ∃ old ∈ tags, old.key = key ∧
      kv = { old with versions := old.versions.dropLast } := by
  induction tags with
  | nil => simp [removeLastKeyVersion] at member
  | cons head rest ih =>
      rw [removeLastKeyVersion] at member
      split at member
      · rename_i same
        rcases List.mem_cons.mp member with rfl | inRest
        · exact Or.inr ⟨head, by simp, same.symm, rfl⟩
        · exact Or.inl (by simp [inRest])
      · rcases List.mem_cons.mp member with rfl | inRest
        · exact Or.inl (by simp)
        · rcases ih inRest with old | ⟨old, oldMember, changed⟩
          · exact Or.inl (by simp [old])
          · exact Or.inr ⟨old, by simp [oldMember], changed⟩

theorem map_key_removeLastKeyVersion (key : String) (tags : List KeyValue) :
    (removeLastKeyVersion key tags).map KeyValue.key = tags.map KeyValue.key := by
  induction tags with
  | nil => rfl
  | cons kv rest ih =>
      rw [removeLastKeyVersion]
      split
      · rfl
      · simp [ih]

theorem find?_removeLastKeyVersion (key other : String) (tags : List KeyValue) :
    (removeLastKeyVersion key tags).find? (fun kv => other == kv.key) =
      (tags.find? fun kv => other == kv.key).map fun kv =>
        if other = key then { kv with versions := kv.versions.dropLast } else kv := by
  induction tags with
  | nil => rfl
  | cons kv rest ih =>
      rw [removeLastKeyVersion]
      by_cases same : key = kv.key
      · rw [if_pos same]
        by_cases asked : other = kv.key
        · simp [asked, same]
        · have notKey : ¬ other = key := by
            rw [same]
            exact asked
          simp [asked, notKey]
      · rw [if_neg same]
        by_cases asked : other = kv.key
        · have notKey : ¬ kv.key = key := fun equal => same equal.symm
          simp [asked, notKey]
        · simp [asked, ih]

theorem KeyValue.WF.dropLast {bound : Nat} {kv : KeyValue} (wf : kv.WF bound) :
    ({ kv with versions := kv.versions.dropLast } : KeyValue).WF bound where
  ascending := wf.ascending.dropLast
  bounded := fun version member => 
    wf.bounded version ((List.dropLast_sublist _).subset member)
  mapped := wf.mapped
  current := fun member => wf.current ((List.dropLast_sublist _).subset member)
  valuesAscending := wf.valuesAscending
  valuesBounded := wf.valuesBounded
  valuesNodup := wf.valuesNodup

/-! ## Adding values -/

theorem mem_addTagValue {newVersion : Nat} {data : String} {values : List TagValue}
    {value : TagValue} (member : value ∈ addTagValue newVersion data values) :
    value ∈ values ∨ value.versions = [newVersion] ∨
      ∃ old ∈ values, value.versions = addUniqueNewVersion old.versions newVersion := by
  induction values with
  | nil =>
      right; left
      simp only [addTagValue, List.mem_singleton] at member
      rw [member]
  | cons head rest ih =>
      rw [addTagValue] at member
      split at member
      · rcases List.mem_cons.mp member with rfl | inRest
        · exact Or.inr (Or.inr ⟨head, by simp, rfl⟩)
        · exact Or.inl (by simp [inRest])
      · rcases List.mem_cons.mp member with rfl | inRest
        · exact Or.inl (by simp)
        · rcases ih inRest with old | fresh | ⟨old, oldMember, changed⟩
          · exact Or.inl (by simp [old])
          · exact Or.inr (Or.inl fresh)
          · exact Or.inr (Or.inr ⟨old, by simp [oldMember], changed⟩)

/-- Values added at a new key version do not show at an earlier one. -/
theorem map_data_filter_addTagValue {newVersion keyVersion : Nat} {data : String}
    (ne : keyVersion ≠ newVersion) (values : List TagValue) :
    ((addTagValue newVersion data values).filter fun value =>
        keyVersion ∈ value.versions).map TagValue.data =
      (values.filter fun value => keyVersion ∈ value.versions).map TagValue.data := by
  induction values with
  | nil => simp [addTagValue, ne]
  | cons head rest ih =>
      rw [addTagValue]
      split
      · by_cases present : keyVersion ∈ head.versions
        · simp [mem_addUniqueNewVersion, present]
        · simp [mem_addUniqueNewVersion, present, ne]
      · by_cases present : keyVersion ∈ head.versions
        · simp [present, ih]
        · simp [present, ih]

theorem map_data_filter_foldl_addTagValue {newVersion keyVersion : Nat}
    (ne : keyVersion ≠ newVersion) (added : List String) (values : List TagValue) :
    ((added.foldl (fun stored value => addTagValue newVersion value stored) values).filter
        fun value => keyVersion ∈ value.versions).map TagValue.data =
      (values.filter fun value => keyVersion ∈ value.versions).map TagValue.data := by
  induction added generalizing values with
  | nil => rfl
  | cons data rest ih => rw [List.foldl_cons, ih, map_data_filter_addTagValue ne]

theorem map_data_addTagValue (newVersion : Nat) (data : String) (values : List TagValue) :
    (addTagValue newVersion data values).map TagValue.data =
      SlotList.reserve (values.map TagValue.data) data := by
  induction values with
  | nil => rfl
  | cons head rest ih =>
      rw [addTagValue]
      by_cases same : data = head.data
      · simp [same, SlotList.reserve]
      · rw [if_neg same, List.map_cons, ih]
        by_cases present : data ∈ rest.map TagValue.data
        · rw [SlotList.reserve_of_mem present, SlotList.reserve_of_mem (by simp [present])]
          rfl
        · have absent : data ∉ (head :: rest).map TagValue.data := by
            simpa [same] using present
          rw [SlotList.reserve, if_neg present, SlotList.reserve, if_neg absent]
          rfl

/-- The values of a key keep the slots they were first stored in. -/
theorem map_data_foldl_addTagValue (newVersion : Nat) (added : List String)
    (values : List TagValue) :
    (added.foldl (fun stored value => addTagValue newVersion value stored) values).map
        TagValue.data =
      SlotList.reserveAll (values.map TagValue.data) added := by
  induction added generalizing values with
  | nil => rfl
  | cons data rest ih =>
      rw [List.foldl_cons, ih, map_data_addTagValue]
      rfl

theorem foldl_addTagValue_wf (newVersion : Nat) (added : List String) {values : List TagValue}
    (ascending : ∀ value ∈ values, Ascending value.versions)
    (bounded : ∀ value ∈ values, ∀ version ∈ value.versions, version ≤ newVersion) :
    ∀ value ∈ added.foldl (fun stored value => addTagValue newVersion value stored) values,
      Ascending value.versions ∧ ∀ version ∈ value.versions, version ≤ newVersion := by
  induction added generalizing values with
  | nil => exact fun value member => ⟨ascending value member, bounded value member⟩
  | cons data rest ih =>
      rw [List.foldl_cons]
      have step : ∀ value ∈ addTagValue newVersion data values,
          Ascending value.versions ∧ ∀ version ∈ value.versions, version ≤ newVersion := by
        intro value member
        rcases mem_addTagValue member with old | fresh | ⟨old, oldMember, changed⟩
        · exact ⟨ascending value old, bounded value old⟩
        · rw [fresh]
          exact ⟨List.pairwise_singleton _ _, by simp⟩
        · rw [changed]
          refine ⟨addUniqueNewVersion_ascending (ascending old oldMember)
            (bounded old oldMember), ?_⟩
          intro version inVersions
          rcases mem_addUniqueNewVersion.mp inVersions with older | rfl
          · exact bounded old oldMember version older
          · exact Nat.le_refl _
      exact ih (fun value member => (step value member).1) fun value member =>
        (step value member).2

end Rangexx
