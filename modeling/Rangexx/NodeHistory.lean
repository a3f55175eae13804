import Rangexx.TagHistory

/-!
# Changes of a node record keep its past

Every changing function of a node record moves it from list version `L` to
`L + 1`.  `NodeInfo.Advance` says what that means: reads at any version up to
`L` are unchanged, and the edges present at `L + 1` are the ones the function
is meant to leave.  `NodeInfo.Extends` is the transitive form, which is what
survives from one committed record to a later one.
-/

namespace Rangexx

open AscendingScan

namespace NodeInfo

structure WF (info : NodeInfo) : Prop where
  edges : ∀ direction, EdgesWF info.listVersion (info.edges direction)
  tags : TagsWF info.listVersion info.tags
  graphVersions : Ascending info.graphVersions

/-- The edges a record shows at its own list version. -/
def Present (info : NodeInfo) (direction : Direction) (other : String) : Prop :=
  EdgeAt (info.edges direction) info.listVersion other

/-- One change of a record, leaving the edges `present`. -/
structure Advance (info changed : NodeInfo) (present : Direction → String → Prop) : Prop where
  listVersion : changed.listVersion = info.listVersion + 1
  graphVersions : changed.graphVersions = info.graphVersions
  wf : changed.WF
  pastEdges : ∀ direction version other, version ≤ info.listVersion →
    (EdgeAt (changed.edges direction) version other ↔
      EdgeAt (info.edges direction) version other)
  pastTags : ∀ version key, version ≤ info.listVersion →
    tagAt changed.tags version key = tagAt info.tags version key
  present : ∀ direction other, changed.Present direction other ↔ present direction other

/-- `later` is a later state of the record `earlier`. -/
structure Extends (earlier later : NodeInfo) : Prop where
  listVersion : earlier.listVersion ≤ later.listVersion
  graphVersions : earlier.graphVersions <+: later.graphVersions
  pastEdges : ∀ direction version other, version ≤ earlier.listVersion →
    (EdgeAt (later.edges direction) version other ↔
      EdgeAt (earlier.edges direction) version other)
  pastTags : ∀ version key, version ≤ earlier.listVersion →
    tagAt later.tags version key = tagAt earlier.tags version key

theorem Extends.refl (info : NodeInfo) : info.Extends info where
  listVersion := Nat.le_refl _
  graphVersions := List.prefix_rfl
  pastEdges := fun _ _ _ _ => Iff.rfl
  pastTags := fun _ _ _ => rfl

theorem Extends.trans {first second third : NodeInfo} (one : first.Extends second)
    (two : second.Extends third) : first.Extends third where
  listVersion := Nat.le_trans one.listVersion two.listVersion
  graphVersions := one.graphVersions.trans two.graphVersions
  pastEdges := fun direction version other le =>
    (two.pastEdges direction version other (Nat.le_trans le one.listVersion)).trans
      (one.pastEdges direction version other le)
  pastTags := fun version key le =>
    (two.pastTags version key (Nat.le_trans le one.listVersion)).trans
      (one.pastTags version key le)

theorem Advance.extends {info changed : NodeInfo} {present : Direction → String → Prop}
    (advance : info.Advance changed present) : info.Extends changed where
  listVersion := by
    rw [advance.listVersion]
    omega
  graphVersions := ⟨[], by rw [List.append_nil, advance.graphVersions]⟩
  pastEdges := advance.pastEdges
  pastTags := advance.pastTags

theorem default_wf : NodeInfo.default.WF where
  edges := by
    intro direction
    cases direction <;> exact EdgesWF.nil 0
  tags := ⟨by simp [NodeInfo.default], by simp [NodeInfo.default]⟩
  graphVersions := by simp [NodeInfo.default, Ascending]

/-- The names read from a record at a version are the edges recorded there. -/
theorem mem_getEdges {info : NodeInfo} (wf : info.WF) (direction : Direction)
    (wanted : Option Nat) (other : String) :
    other ∈ info.getEdges direction wanted ↔
      EdgeAt (info.edges direction) (info.cmpVersion wanted) other :=
  mem_filter_scan_iff (wf.edges direction) _ _

theorem nodup_getEdges {info : NodeInfo} (wf : info.WF) (direction : Direction)
    (wanted : Option Nat) : (info.getEdges direction wanted).Nodup :=
  (wf.edges direction).nodup.sublist (List.filter_sublist.map _)

private theorem lookup_foldl_noteValues {tags : List KeyValue}
    (nodup : (tags.map KeyValue.key).Nodup) (version : Nat)
    (table : AList fun _ : String => List String) (key : String) :
    (tags.foldl (KeyValue.noteValues version) table).lookup key =
      (tagAt tags version key).or (table.lookup key) := by
  induction tags generalizing table with
  | nil => rfl
  | cons kv rest ih =>
      have ⟨absent, restNodup⟩ := List.nodup_cons.mp nodup
      rw [List.foldl_cons, ih restNodup]
      by_cases same : key = kv.key
      · subst same
        have restNone : tagAt rest version kv.key = none := by
          unfold tagAt
          rw [List.find?_eq_none.mpr]
          · rfl
          · intro other member equal
            apply absent
            rw [show kv.key = other.key by simpa using equal]
            exact List.mem_map_of_mem member
        have here : tagAt (kv :: rest) version kv.key = kv.valuesAt version := by
          simp [tagAt]
        rw [restNone, here]
        unfold KeyValue.noteValues
        cases kv.valuesAt version with
        | none => rfl
        | some values => simp
      · have sameTag : tagAt (kv :: rest) version key = tagAt rest version key := by
          simp [tagAt, same]
        rw [sameTag]
        unfold KeyValue.noteValues
        cases kv.valuesAt version with
        | none => rfl
        | some values => rw [AList.lookup_insert_ne same]

/-- The tag table read at a version holds the tags recorded there. -/
theorem lookup_tagTable {info : NodeInfo} (wf : info.WF) (wanted : Option Nat) (key : String) :
    (info.tagTable wanted).lookup key = tagAt info.tags (info.cmpVersion wanted) key := by
  unfold tagTable
  rw [lookup_foldl_noteValues wf.tags.nodup]
  simp

/-! ## The parts of an advance -/

end NodeInfo

/-- Edge lists that only gained the next version. -/
structure EdgesAdvance (bound : Nat) (edges changed : List Adjacency)
    (present : String → Prop) : Prop where
  wf : EdgesWF (bound + 1) changed
  past : ∀ version other, version ≤ bound →
    (EdgeAt changed version other ↔ EdgeAt edges version other)
  present : ∀ other, EdgeAt changed (bound + 1) other ↔ present other

/-- Tag lists that only gained the next version. -/
structure TagsAdvance (bound : Nat) (tags changed : List KeyValue) : Prop where
  wf : TagsWF (bound + 1) changed
  past : ∀ version key, version ≤ bound → tagAt changed version key = tagAt tags version key

theorem EdgesWF.not_edgeAt_succ {bound : Nat} {edges : List Adjacency}
    (wf : EdgesWF bound edges) (other : String) : ¬ EdgeAt edges (bound + 1) other := by
  rintro ⟨edge, member, _, inVersions⟩
  have := wf.bounded edge member _ inVersions
  omega

theorem edgesAdvance_carry {bound : Nat} {edges : List Adjacency} (wf : EdgesWF bound edges) :
    EdgesAdvance bound edges (edges.map (Adjacency.updateVersion bound (bound + 1)))
      (EdgeAt edges bound) where
  wf := (wf.mono (Nat.le_succ bound)).map_updateVersion
  past := by
    intro version other le
    rw [edgeAt_map_updateVersion]
    constructor
    · rintro (old | ⟨equal, _⟩)
      · exact old
      · omega
    · exact Or.inl
  present := by
    intro other
    rw [edgeAt_map_updateVersion]
    have absent := wf.not_edgeAt_succ other
    simp [absent]

theorem EdgesWF.append_entry {bound : Nat} {edges : List Adjacency} {entry : Adjacency}
    (wf : EdgesWF bound edges) (fresh : entry.id ∉ edges.map Adjacency.id)
    (ascending : Ascending entry.versions)
    (bounded : ∀ version ∈ entry.versions, version ≤ bound + 1)
    (nonempty : entry.versions ≠ []) : EdgesWF (bound + 1) (edges ++ [entry]) where
  nodup := by
    rw [List.map_append, List.nodup_append]
    refine ⟨wf.nodup, by simp, ?_⟩
    rintro first firstMember second secondMember rfl
    simp only [List.map_cons, List.map_nil, List.mem_singleton] at secondMember
    rw [secondMember] at firstMember
    exact fresh firstMember
  ascending := by
    intro edge member
    rcases List.mem_append.mp member with old | new
    · exact wf.ascending edge old
    · rw [List.mem_singleton.mp new]
      exact ascending
  bounded := by
    intro edge member version inVersions
    rcases List.mem_append.mp member with old | new
    · exact Nat.le_succ_of_le (wf.bounded edge old version inVersions)
    · rw [List.mem_singleton.mp new] at inVersions
      exact bounded version inVersions
  nonempty := by
    intro edge member
    rcases List.mem_append.mp member with old | new
    · exact wf.nonempty edge old
    · rw [List.mem_singleton.mp new]
      exact nonempty

theorem EdgesWF.tail {bound : Nat} {edge : Adjacency} {edges : List Adjacency}
    (wf : EdgesWF bound (edge :: edges)) : EdgesWF bound edges where
  nodup := (List.nodup_cons.mp wf.nodup).2
  ascending := fun entry member => wf.ascending entry (by simp [member])
  bounded := fun entry member => wf.bounded entry (by simp [member])
  nonempty := fun entry member => wf.nonempty entry (by simp [member])

private theorem edgesAdvance_add_fresh {bound : Nat} {edges : List Adjacency} {other : String}
    (wf : EdgesWF bound edges) (absent : other ∉ edges.map Adjacency.id) :
    EdgesAdvance bound edges
      ((edges ++ [appendedEdge other (bound + 1) none]).map
        (Adjacency.updateVersion bound (bound + 1)))
      (fun name => EdgeAt edges bound name ∨ name = other) := by
  have extended : EdgesWF (bound + 1) (edges ++ [appendedEdge other (bound + 1) none]) :=
    wf.append_entry absent (List.pairwise_singleton _ _) (by simp [appendedEdge])
      (by simp [appendedEdge])
  refine ⟨extended.map_updateVersion, ?_, ?_⟩
  · intro version name le
    have ne : version ≠ bound + 1 := by omega
    rw [edgeAt_map_updateVersion]
    simp [appendedEdge, ne]
  · intro name
    have absentNext := wf.not_edgeAt_succ name
    simp only [edgeAt_map_updateVersion, edgeAt_append, edgeAt_cons, edgeAt_nil, absentNext,
      appendedEdge, List.mem_singleton, and_true, or_false, false_or, true_and]
    constructor
    · rintro (same | present | ⟨_, impossible⟩)
      · exact Or.inr same.symm
      · exact Or.inl present
      · omega
    · rintro (present | same)
      · exact Or.inr (Or.inl present)
      · exact Or.inl same.symm

private theorem edgesAdvance_add_older {bound : Nat} {edges others : List Adjacency}
    {edge : Adjacency} (wf : EdgesWF bound edges) (perm : edges.Perm (edge :: others)) :
    EdgesAdvance bound edges
      ((others ++ [appendedEdge edge.id (bound + 1) (some edge)]).map
        (Adjacency.updateVersion bound (bound + 1)))
      (fun name => EdgeAt edges bound name ∨ name = edge.id) := by
  have permWF := wf.perm perm
  have extended : EdgesWF (bound + 1)
      (others ++ [appendedEdge edge.id (bound + 1) (some edge)]) := by
    refine permWF.tail.append_entry ?_ ?_ ?_ ?_
    · exact (List.nodup_cons.mp permWF.nodup).1
    · apply (permWF.ascending edge (by simp)).append_singleton
      intro version inVersions
      have := permWF.bounded edge (by simp) version inVersions
      omega
    · intro version inVersions
      rcases List.mem_append.mp inVersions with older | latest
      · exact Nat.le_succ_of_le (permWF.bounded edge (by simp) version older)
      · rw [List.mem_singleton.mp latest]
    · simp [appendedEdge]
  refine ⟨extended.map_updateVersion, ?_, ?_⟩
  · intro version name le
    have ne : version ≠ bound + 1 := by omega
    rw [EdgeAt.perm perm]
    simp only [edgeAt_map_updateVersion, edgeAt_append, edgeAt_cons, edgeAt_nil, appendedEdge,
      List.mem_append, List.mem_singleton, ne, or_false, false_and]
    exact or_comm
  · intro name
    rw [EdgeAt.perm perm]
    have absentHere := permWF.not_edgeAt_succ name
    simp only [edgeAt_cons, not_or] at absentHere
    simp only [edgeAt_map_updateVersion, edgeAt_append, edgeAt_cons, edgeAt_nil, absentHere.2,
      appendedEdge, List.mem_append, List.mem_singleton, true_and, or_true, and_true, or_false,
      false_or]
    constructor
    · rintro (same | present | ⟨same, _⟩)
      · exact Or.inr same.symm
      · exact Or.inl (Or.inr present)
      · exact Or.inr same.symm
    · rintro ((⟨same, _⟩ | present) | same)
      · exact Or.inl same
      · exact Or.inr (Or.inl present)
      · exact Or.inl same.symm

theorem edgesAdvance_add {bound : Nat} {edges others : List Adjacency} {other : String}
    {found : Option Adjacency} (wf : EdgesWF bound edges)
    (search : searchEdge bound other edges = some (found, others)) :
    EdgesAdvance bound edges
      ((others ++ [appendedEdge other (bound + 1) found]).map
        (Adjacency.updateVersion bound (bound + 1)))
      (fun name => EdgeAt edges bound name ∨ name = other) := by
  rcases searchEdge_eq_some wf search with ⟨rfl, rfl, absent⟩ | ⟨edge, rfl, rfl, perm⟩
  · exact edgesAdvance_add_fresh wf absent
  · exact edgesAdvance_add_older wf perm

section RemovedEdge

variable {bound : Nat} {edges : List Adjacency} {other : String} (wf : EdgesWF bound edges)
  (present : EdgeAt edges bound other)

include wf present

/-- The entry that is removed gained `bound + 1` as its last version, and loses
it again. -/
private theorem dropLast_updateVersion {edge : Adjacency} (member : edge ∈ edges)
    (sameId : edge.id = other) :
    (edge.updateVersion bound (bound + 1)).versions.dropLast = edge.versions := by
  obtain ⟨holder, holderMember, holderId, holds⟩ := present
  have same : holder = edge :=
    List.inj_on_of_nodup_map wf.nodup holderMember member (holderId.trans sameId.symm)
  subst same
  have newAbsent : bound + 1 ∉ holder.versions := by
    intro inVersions
    have := wf.bounded holder member _ inVersions
    omega
  unfold Adjacency.updateVersion
  cases update : updateUniqueNewVersion holder.versions bound (bound + 1) with
  | none => exact absurd holds (updateUniqueNewVersion_eq_none_iff.mp update).1
  | some updated =>
      rw [updateUniqueNewVersion_eq_some update]
      simp [addUniqueNewVersion, newAbsent]

private theorem edgeAt_removed (version : Nat) (name : String) :
    EdgeAt (removeLastVersion other (edges.map (Adjacency.updateVersion bound (bound + 1))))
        version name ↔
      ∃ edge ∈ edges, edge.id = name ∧
        version ∈ (if edge.id = other then edge.versions
          else (edge.updateVersion bound (bound + 1)).versions) := by
  rw [edgeAt_removeLastVersion (edgesAdvance_carry wf).wf.nodup]
  constructor
  · rintro ⟨updated, member, sameName, inVersions⟩
    obtain ⟨edge, edgeMember, rfl⟩ := List.mem_map.mp member
    refine ⟨edge, edgeMember, sameName, ?_⟩
    by_cases sameId : edge.id = other
    · rw [if_pos sameId]
      rw [updateVersion_id, if_pos sameId,
        dropLast_updateVersion wf present edgeMember sameId] at inVersions
      exact inVersions
    · rw [if_neg sameId]
      rw [updateVersion_id, if_neg sameId] at inVersions
      exact inVersions
  · rintro ⟨edge, edgeMember, sameName, inVersions⟩
    refine ⟨edge.updateVersion bound (bound + 1), List.mem_map_of_mem edgeMember, sameName, ?_⟩
    by_cases sameId : edge.id = other
    · rw [if_pos sameId] at inVersions
      rw [updateVersion_id, if_pos sameId, dropLast_updateVersion wf present edgeMember sameId]
      exact inVersions
    · rw [if_neg sameId] at inVersions
      rw [updateVersion_id, if_neg sameId]
      exact inVersions

private theorem edgesWF_removed : EdgesWF (bound + 1)
    (removeLastVersion other (edges.map (Adjacency.updateVersion bound (bound + 1)))) := by
  have carried := (edgesAdvance_carry wf).wf
  refine ⟨?_, ?_, ?_, ?_⟩
  · rw [map_id_removeLastVersion]
    exact carried.nodup
  · intro edge member
    rcases mem_removeLastVersion member with old | ⟨old, oldMember, _, rfl⟩
    · exact carried.ascending edge old
    · exact (carried.ascending old oldMember).dropLast
  · intro edge member version inVersions
    rcases mem_removeLastVersion member with old | ⟨old, oldMember, _, rfl⟩
    · exact carried.bounded edge old version inVersions
    · exact carried.bounded old oldMember version ((List.dropLast_sublist _).subset inVersions)
  · intro edge member
    rcases mem_removeLastVersion member with old | ⟨old, oldMember, sameId, rfl⟩
    · exact carried.nonempty edge old
    · obtain ⟨source, sourceMember, rfl⟩ := List.mem_map.mp oldMember
      rw [dropLast_updateVersion wf present sourceMember sameId]
      exact wf.nonempty source sourceMember

theorem edgesAdvance_remove :
    EdgesAdvance bound edges
      (removeLastVersion other (edges.map (Adjacency.updateVersion bound (bound + 1))))
      (fun name => EdgeAt edges bound name ∧ name ≠ other) := by
  refine ⟨edgesWF_removed wf present, ?_, ?_⟩
  · intro version name le
    rw [edgeAt_removed wf present]
    unfold EdgeAt
    apply exists_congr
    intro edge
    have ne : version ≠ bound + 1 := by omega
    by_cases sameId : edge.id = other
    · simp [sameId]
    · simp [sameId, mem_updateVersion_versions, ne]
  · intro name
    rw [edgeAt_removed wf present]
    constructor
    · rintro ⟨edge, member, rfl, inVersions⟩
      by_cases sameId : edge.id = other
      · rw [if_pos sameId] at inVersions
        have := wf.bounded edge member _ inVersions
        omega
      · rw [if_neg sameId, mem_updateVersion_versions] at inVersions
        rcases inVersions with old | ⟨_, current⟩
        · have := wf.bounded edge member _ old
          omega
        · exact ⟨⟨edge, member, rfl, current⟩, sameId⟩
    · rintro ⟨⟨edge, member, rfl, current⟩, differs⟩
      refine ⟨edge, member, rfl, ?_⟩
      rw [if_neg differs, mem_updateVersion_versions]
      exact Or.inr ⟨rfl, current⟩

end RemovedEdge

theorem TagsWF.unmapped_succ {bound : Nat} {tags : List KeyValue} (wf : TagsWF bound tags) :
    ∀ kv ∈ tags, ∀ entry ∈ kv.versionmap, entry.listVersion ≠ bound + 1 := by
  intro kv member entry entryMember
  have := ((wf.entries kv member).mapped entry entryMember).1
  omega

theorem tagsAdvance_carry {bound : Nat} {tags : List KeyValue} (wf : TagsWF bound tags) :
    TagsAdvance bound tags (updateTagVersions bound (bound + 1) tags) := by
  rw [updateTagVersions_eq_map wf.unmapped_succ]
  refine ⟨⟨?_, ?_⟩, ?_⟩
  · simpa [List.map_map, Function.comp_def] using wf.nodup
  · intro changed member
    obtain ⟨kv, kvMember, rfl⟩ := List.mem_map.mp member
    exact (wf.entries kv kvMember).carry
  · intro version key le
    exact tagAt_map (KeyValue.carry_key _ _)
      (fun kv member => KeyValue.valuesAt_carry (wf.entries kv member) le) key

/-- Carrying the tags over keeps the values they have now. -/
theorem tagAt_carry_succ {bound : Nat} {tags : List KeyValue} (wf : TagsWF bound tags)
    (key : String) :
    tagAt (updateTagVersions bound (bound + 1) tags) (bound + 1) key = tagAt tags bound key := by
  rw [updateTagVersions_eq_map wf.unmapped_succ]
  exact tagAt_map (KeyValue.carry_key _ _)
    (fun kv member => KeyValue.valuesAt_carry_succ (wf.entries kv member)) key

theorem tagsAdvance_delete {bound : Nat} {tags : List KeyValue} {key : String}
    (wf : TagsWF bound tags) (present : ∀ kv ∈ tags, kv.key = key → bound ∈ kv.versions) :
    TagsAdvance bound tags
      (removeLastKeyVersion key (updateTagVersions bound (bound + 1) tags)) := by
  have carried := tagsAdvance_carry wf
  rw [updateTagVersions_eq_map wf.unmapped_succ] at carried ⊢
  refine ⟨⟨?_, ?_⟩, ?_⟩
  · rw [map_key_removeLastKeyVersion]
    exact carried.wf.nodup
  · intro kv member
    rcases mem_removeLastKeyVersion member with old | ⟨old, oldMember, _, rfl⟩
    · exact carried.wf.entries kv old
    · exact (carried.wf.entries old oldMember).dropLast
  · intro version other le
    rw [← carried.past version other le]
    unfold tagAt
    rw [find?_removeLastKeyVersion]
    cases found : (tags.map (KeyValue.carry bound (bound + 1))).find?
        fun kv => other == kv.key with
    | none => rfl
    | some kv =>
        have kvWF := carried.wf.entries kv (List.mem_of_find?_eq_some found)
        have kvKey : other = kv.key := by simpa using List.find?_some found
        by_cases same : other = key
        · -- Dropping the version just added shows only at that version.
          obtain ⟨source, sourceMember, rfl⟩ :=
            List.mem_map.mp (List.mem_of_find?_eq_some found)
          have holds : bound ∈ source.versions :=
            present source sourceMember (by rw [← same, kvKey, KeyValue.carry_key])
          have newAbsent : bound + 1 ∉ source.versions := by
            intro inVersions
            have := (wf.entries source sourceMember).bounded _ inVersions
            omega
          have versionsEq : (source.carry bound (bound + 1)).versions =
              source.versions ++ [bound + 1] := by
            simp [KeyValue.carry, holds, addUniqueNewVersion, newAbsent]
          simp only [Option.map_some, Option.bind_some, same, if_true]
          rw [valuesAt_eq kvWF.dropLast, valuesAt_eq kvWF, versionsEq]
          have ne : version ≠ bound + 1 := by omega
          simp only [List.dropLast_concat, List.mem_append, List.mem_singleton, ne, or_false]
          rfl
        · simp [same]

/-! ## Updating one key -/

/-- The change `update_tag` makes to its key before the list versions are
carried over. -/
def KeyValue.touch (newVersion : Nat) (kv : KeyValue) : KeyValue :=
  { kv with
    versions := kv.versions ++ [newVersion]
    keyVersion := kv.keyVersion + 1 }

/-- The change it makes afterwards. -/
def KeyValue.fill (values : List String) (kv : KeyValue) : KeyValue :=
  { kv with
    values := values.foldl (fun stored value => addTagValue kv.keyVersion value stored)
      kv.values }

theorem KeyValue.touch_key (newVersion : Nat) (kv : KeyValue) :
    (kv.touch newVersion).key = kv.key :=
  rfl

theorem KeyValue.fill_key (values : List String) (kv : KeyValue) :
    (kv.fill values).key = kv.key :=
  rfl

/-- Both changes together. -/
def KeyValue.updated (bound : Nat) (values : List String) (kv : KeyValue) : KeyValue :=
  ((kv.touch (bound + 1)).carry bound (bound + 1)).fill values

/-- The keys of a record after `update_tag`. -/
def updatedTags (bound : Nat) (key : String) (values : List String) (tags : List KeyValue) :
    List KeyValue :=
  upsertKey key (KeyValue.fill values)
    (updateTagVersions bound (bound + 1) (upsertKey key (KeyValue.touch (bound + 1)) tags))

/-- The entry of a key, or the one `update_tag` starts with. -/
def entryOf (key : String) (tags : List KeyValue) : KeyValue :=
  (tags.find? fun kv => key == kv.key).getD ⟨key, 0, [], [], []⟩

theorem TagsWF.entryOf {bound : Nat} {tags : List KeyValue} (wf : TagsWF bound tags)
    (key : String) : (entryOf key tags).WF bound := by
  unfold Rangexx.entryOf
  cases found : tags.find? fun kv => key == kv.key with
  | none => exact ⟨List.Pairwise.nil, by simp, by simp, by simp, by simp, by simp, by simp⟩
  | some kv => exact wf.entries kv (List.mem_of_find?_eq_some found)

theorem KeyValue.updated_eq (bound : Nat) (values : List String) (kv : KeyValue) :
    kv.updated bound values = { kv with
      versions := kv.versions ++ [bound + 1]
      keyVersion := kv.keyVersion + 1
      versionmap := kv.versionmap ++ [⟨bound + 1, kv.keyVersion + 1⟩]
      values := values.foldl (fun stored value => addTagValue (kv.keyVersion + 1) value stored)
        kv.values } := by
  simp [KeyValue.updated, KeyValue.touch, KeyValue.carry, KeyValue.fill, addUniqueNewVersion]

theorem KeyValue.WF.updated {bound : Nat} {kv : KeyValue} (wf : kv.WF bound)
    (values : List String) : (kv.updated bound values).WF (bound + 1) := by
  have valuesWF := foldl_addTagValue_wf (kv.keyVersion + 1) values
    wf.valuesAscending (fun value member older inVersions =>
      Nat.le_succ_of_le (wf.valuesBounded value member older inVersions))
  rw [KeyValue.updated_eq]
  refine ⟨?_, ?_, ?_, ?_, ?_, ?_, ?_⟩
  · apply wf.ascending.append_singleton
    intro older member
    have := wf.bounded older member
    omega
  · intro older member
    rcases List.mem_append.mp member with old | new
    · exact Nat.le_succ_of_le (wf.bounded older old)
    · rw [List.mem_singleton.mp new]
  · intro entry member
    rcases List.mem_append.mp member with old | new
    · have := wf.mapped entry old
      dsimp only
      omega
    · rw [List.mem_singleton.mp new]
      exact ⟨Nat.le_refl _, Nat.le_refl _⟩
  · intro _
    unfold KeyValue.entryAt
    dsimp only
    rw [KeyValue.entryAt_append_succ wf]
    rfl
  · exact fun value member => (valuesWF value member).1
  · exact fun value member => (valuesWF value member).2
  · dsimp only
    rw [map_data_foldl_addTagValue]
    exact SlotList.nodup_reserveAll wf.valuesNodup values

theorem KeyValue.valuesAt_updated {bound version : Nat} {kv : KeyValue} (values : List String)
    (wf : kv.WF bound) (le : version ≤ bound) :
    (kv.updated bound values).valuesAt version = kv.valuesAt version := by
  have updatedWF := wf.updated values
  have ne : version ≠ bound + 1 := by omega
  have read := getMapValue_eq updatedWF
  rw [valuesAt_eq updatedWF, valuesAt_eq wf]
  rw [KeyValue.updated_eq] at read ⊢
  simp only [List.mem_append, List.mem_singleton, ne, or_false, List.find?_append]
  have notNew : ([⟨bound + 1, kv.keyVersion + 1⟩] : List ListToVersionMap).find?
      (fun entry => entry.listVersion == version) = none := by
    simp [Ne.symm ne]
  rw [notNew, Option.or_none]
  by_cases member : version ∈ kv.versions
  · rw [if_pos member, if_pos member]
    cases found : kv.versionmap.find? fun entry => entry.listVersion == version with
    | none => rfl
    | some entry =>
        have bounded := (wf.mapped entry (List.mem_of_find?_eq_some found)).2
        have older : entry.keyVersion ≠ kv.keyVersion + 1 := by omega
        rw [Option.map_some, Option.map_some, getMapValue_eq wf, read,
          map_data_filter_foldl_addTagValue older]
  · rw [if_neg member, if_neg member]

section UpdatedTags

variable {bound : Nat} {tags : List KeyValue} (key : String) (values : List String)
  (wf : TagsWF bound tags)

include wf

private theorem updatedTags_eq :
    updatedTags bound key values tags = upsertKey key (KeyValue.fill values)
      ((upsertKey key (KeyValue.touch (bound + 1)) tags).map
        (KeyValue.carry bound (bound + 1))) := by
  unfold updatedTags
  rw [updateTagVersions_eq_map]
  intro kv member entry entryMember
  rcases mem_upsertKey member with inTags | rfl
  · exact wf.unmapped_succ kv inTags entry entryMember
  · have := ((wf.entryOf key).mapped entry entryMember).1
    omega

omit wf in
private theorem find?_carried (other : String) (tags : List KeyValue) :
    ((tags.map (KeyValue.carry bound (bound + 1))).find? fun kv => other == kv.key) =
      (tags.find? fun kv => other == kv.key).map (KeyValue.carry bound (bound + 1)) := by
  have sameTest : ((fun kv : KeyValue => other == kv.key) ∘
      KeyValue.carry bound (bound + 1)) = fun kv => other == kv.key := by
    funext kv
    simp
  rw [List.find?_map, sameTest]

theorem find?_updatedTags_same :
    (updatedTags bound key values tags).find? (fun kv => key == kv.key) =
      some ((entryOf key tags).updated bound values) := by
  rw [updatedTags_eq key values wf, find?_upsertKey_same (KeyValue.fill_key values),
    find?_carried, find?_upsertKey_same (KeyValue.touch_key (bound + 1))]
  rfl

theorem find?_updatedTags_ne {other : String} (differs : other ≠ key) :
    (updatedTags bound key values tags).find? (fun kv => other == kv.key) =
      (tags.find? fun kv => other == kv.key).map (KeyValue.carry bound (bound + 1)) := by
  rw [updatedTags_eq key values wf, find?_upsertKey_ne (KeyValue.fill_key values) differs,
    find?_carried, find?_upsertKey_ne (KeyValue.touch_key (bound + 1)) differs]

private theorem tagsWF_updatedTags : TagsWF (bound + 1) (updatedTags bound key values tags) := by
  have found := find?_updatedTags_same key values wf
  rw [updatedTags_eq key values wf] at found ⊢
  constructor
  · apply nodup_map_key_upsertKey (KeyValue.fill_key values)
    have touched : ((upsertKey key (KeyValue.touch (bound + 1)) tags).map KeyValue.key).Nodup :=
      nodup_map_key_upsertKey (KeyValue.touch_key (bound + 1)) wf.nodup
    simpa [List.map_map, Function.comp_def] using touched
  · intro kv member
    rcases mem_upsertKey member with carried | changed
    · obtain ⟨source, sourceMember, rfl⟩ := List.mem_map.mp carried
      rcases mem_upsertKey sourceMember with inTags | rfl
      · exact (wf.entries source inTags).carry
      · -- The touched entry itself is the filled one without its new values.
        exact (wf.entryOf key).updated []
    · rw [find?_upsertKey_same (KeyValue.fill_key values), Option.some.injEq] at found
      rw [changed, found]
      exact (wf.entryOf key).updated values

theorem tagsAdvance_update : TagsAdvance bound tags (updatedTags bound key values tags) := by
  refine ⟨tagsWF_updatedTags key values wf, ?_⟩
  intro version other le
  unfold tagAt
  by_cases same : other = key
  · subst same
    rw [find?_updatedTags_same other values wf, Option.bind_some,
      KeyValue.valuesAt_updated values (wf.entryOf other) le]
    unfold entryOf
    cases tags.find? fun kv => other == kv.key with
    | none => rfl
    | some kv => rfl
  · rw [find?_updatedTags_ne key values wf same]
    cases found : tags.find? fun kv => other == kv.key with
    | none => rfl
    | some kv =>
        exact KeyValue.valuesAt_carry (wf.entries kv (List.mem_of_find?_eq_some found)) le

end UpdatedTags

namespace NodeInfo

/-! ## The changing functions -/

theorem addEdge_eq_none_iff {info : NodeInfo} (wf : info.WF) (direction : Direction)
    (other : String) :
    info.addEdge direction other = none ↔ info.Present direction other := by
  unfold addEdge Present
  rw [← searchEdge_eq_none_iff (wf.edges direction)]
  cases search : searchEdge info.listVersion other (info.edges direction) with
  | none => simp [search]
  | some found => simp [search]

theorem Advance.of_parts {info changed : NodeInfo} {present : Direction → String → Prop}
    (ascending : Ascending info.graphVersions)
    (listVersion : changed.listVersion = info.listVersion + 1)
    (graphVersions : changed.graphVersions = info.graphVersions)
    (edges : ∀ direction, EdgesAdvance info.listVersion (info.edges direction)
      (changed.edges direction) (present direction))
    (tags : TagsAdvance info.listVersion info.tags changed.tags) :
    info.Advance changed present where
  listVersion := listVersion
  graphVersions := graphVersions
  wf :=
    { edges := fun direction => by
        rw [listVersion]
        exact (edges direction).wf
      tags := by
        rw [listVersion]
        exact tags.wf
      graphVersions := by
        rw [graphVersions]
        exact ascending }
  pastEdges := fun direction version other le => (edges direction).past version other le
  pastTags := tags.past
  present := fun direction other => by
    unfold Present
    rw [listVersion]
    exact (edges direction).present other

theorem addEdge_advance {info changed : NodeInfo} {direction : Direction} {other : String}
    (wf : info.WF) (added : info.addEdge direction other = some changed) :
    info.Advance changed fun side name =>
      info.Present side name ∨ (side = direction ∧ name = other) := by
  unfold addEdge at added
  cases search : searchEdge info.listVersion other (info.edges direction) with
  | none => simp [search] at added
  | some found =>
      obtain ⟨edge, others⟩ := found
      simp only [search, Option.some.injEq] at added
      subst added
      apply Advance.of_parts wf.graphVersions
      · rfl
      · cases direction <;> rfl
      · intro side
        by_cases same : side = direction
        · subst same
          have advance := edgesAdvance_add (wf.edges side) search
          cases side <;> simpa [Present, edges, setEdges, updateAllEdgeVersions] using advance
        · have advance := edgesAdvance_carry (wf.edges side)
          cases side <;> cases direction <;>
            first
            | exact absurd rfl same
            | simpa [Present, edges, setEdges, updateAllEdgeVersions] using advance
      · have tags := tagsAdvance_carry wf.tags
        cases direction <;> exact tags

/-- The entry `remove_edge` finds holds the current version exactly when the
edge is present. -/
private theorem find?_edge_present {info : NodeInfo} (wf : info.WF) (direction : Direction)
    (other : String) :
    info.Present direction other ↔
      ∃ edge, (info.edges direction).find? (fun edge => other == edge.id) = some edge ∧
        scan info.listVersion edge.versions = .equal := by
  have edgesWF := wf.edges direction
  constructor
  · rintro ⟨edge, member, sameId, current⟩
    cases found : (info.edges direction).find? fun edge => other == edge.id with
    | none =>
        have absent := List.find?_eq_none.mp found edge member
        simp [sameId] at absent
    | some entry =>
        have entryMember := List.mem_of_find?_eq_some found
        have entryId : other = entry.id := by simpa using List.find?_some found
        have same : entry = edge :=
          List.inj_on_of_nodup_map edgesWF.nodup entryMember member
            (entryId.symm.trans sameId.symm)
        subst same
        exact ⟨entry, rfl, (scan_eq_equal_iff (edgesWF.ascending entry entryMember)).mpr current⟩
  · rintro ⟨edge, found, current⟩
    have member := List.mem_of_find?_eq_some found
    have sameId : other = edge.id := by simpa using List.find?_some found
    exact ⟨edge, member, sameId.symm,
      (scan_eq_equal_iff (edgesWF.ascending edge member)).mp current⟩

theorem removeEdge_eq_none_iff {info : NodeInfo} (wf : info.WF) (direction : Direction)
    (other : String) :
    info.removeEdge direction other = none ↔ ¬ info.Present direction other := by
  rw [find?_edge_present wf]
  unfold removeEdge
  cases found : (info.edges direction).find? fun edge => other == edge.id with
  | none => simp
  | some edge =>
      by_cases current : scan info.listVersion edge.versions = .equal
      · simp [current]
      · simp [current]

theorem removeEdge_advance {info changed : NodeInfo} {direction : Direction} {other : String}
    (wf : info.WF) (removed : info.removeEdge direction other = some changed) :
    info.Advance changed fun side name =>
      info.Present side name ∧ ¬ (side = direction ∧ name = other) := by
  have present : info.Present direction other := by
    by_contra absent
    rw [(removeEdge_eq_none_iff wf direction other).mpr absent] at removed
    simp at removed
  obtain ⟨edge, found, current⟩ := (find?_edge_present wf direction other).mp present
  simp only [removeEdge, found, current, if_true, Option.some.injEq] at removed
  subst removed
  apply Advance.of_parts wf.graphVersions
  · cases direction <;> rfl
  · cases direction <;> rfl
  · intro side
    by_cases same : side = direction
    · subst same
      have advance := edgesAdvance_remove (wf.edges side) present
      cases side <;> simpa [Present, edges, setEdges, updateAllEdgeVersions] using advance
    · have advance := edgesAdvance_carry (wf.edges side)
      cases side <;> cases direction <;>
        first
        | exact absurd rfl same
        | simpa [Present, edges, setEdges, updateAllEdgeVersions] using advance
  · have tags := tagsAdvance_carry wf.tags
    cases direction <;> exact tags

theorem updateTag_advance {info : NodeInfo} (wf : info.WF) (key : String)
    (values : List String) : info.Advance (info.updateTag key values) info.Present := by
  apply Advance.of_parts wf.graphVersions
  · rfl
  · rfl
  · intro side
    have advance := edgesAdvance_carry (wf.edges side)
    cases side <;> exact advance
  · exact tagsAdvance_update key values wf.tags

theorem deleteTag_advance {info changed : NodeInfo} {key : String} (wf : info.WF)
    (deleted : info.deleteTag key = some changed) : info.Advance changed info.Present := by
  unfold deleteTag at deleted
  cases found : info.tags.find? fun kv => key == kv.key with
  | none => simp [found] at deleted
  | some kv =>
      by_cases current : scan info.listVersion kv.versions = .equal
      · simp only [found, current, if_true, Option.some.injEq] at deleted
        subst deleted
        have kvMember := List.mem_of_find?_eq_some found
        have kvKey : key = kv.key := by simpa using List.find?_some found
        have holds := (scan_eq_equal_iff (wf.tags.entries kv kvMember).ascending).mp current
        have present : ∀ other ∈ info.tags, other.key = key →
            info.listVersion ∈ other.versions := by
          intro other member sameKey
          have same : other = kv :=
            List.inj_on_of_nodup_map wf.tags.nodup member kvMember (sameKey.trans kvKey)
          rw [same]
          exact holds
        apply Advance.of_parts wf.graphVersions
        · rfl
        · rfl
        · intro side
          have advance := edgesAdvance_carry (wf.edges side)
          cases side <;> exact advance
        · exact tagsAdvance_delete wf.tags present
      · simp [found, current] at deleted

theorem setType_advance {info : NodeInfo} (wf : info.WF) (type : NodeType) :
    info.Advance (info.setType type) info.Present := by
  apply Advance.of_parts wf.graphVersions
  · rfl
  · rfl
  · intro side
    have advance := edgesAdvance_carry (wf.edges side)
    cases side <;> exact advance
  · exact tagsAdvance_carry wf.tags

/-! ## The node type -/

theorem addEdge_nodeType {info changed : NodeInfo} {direction : Direction} {other : String}
    (added : info.addEdge direction other = some changed) :
    changed.nodeType = info.nodeType := by
  unfold addEdge at added
  cases search : searchEdge info.listVersion other (info.edges direction) with
  | none => simp [search] at added
  | some found =>
      simp only [search, Option.some.injEq] at added
      subst added
      cases direction <;> rfl

theorem removeEdge_nodeType {info changed : NodeInfo} {direction : Direction} {other : String}
    (removed : info.removeEdge direction other = some changed) :
    changed.nodeType = info.nodeType := by
  unfold removeEdge at removed
  cases found : (info.edges direction).find? fun edge => other == edge.id with
  | none => simp [found] at removed
  | some edge =>
      by_cases current : scan info.listVersion edge.versions = .equal
      · simp only [found, current, if_true, Option.some.injEq] at removed
        subst removed
        cases direction <;> rfl
      · simp [found, current] at removed

theorem deleteTag_nodeType {info changed : NodeInfo} {key : String}
    (deleted : info.deleteTag key = some changed) : changed.nodeType = info.nodeType := by
  unfold deleteTag at deleted
  cases found : info.tags.find? fun kv => key == kv.key with
  | none => simp [found] at deleted
  | some kv =>
      by_cases current : scan info.listVersion kv.versions = .equal
      · simp only [found, current, if_true, Option.some.injEq] at deleted
        subst deleted
        rfl
      · simp [found, current] at deleted

/-! ## The tags -/

/-- The values a key has now. -/
def tagNow (info : NodeInfo) (key : String) : Option (List String) :=
  tagAt info.tags info.listVersion key

theorem addEdge_tagNow {info changed : NodeInfo} {direction : Direction} {other : String}
    (wf : info.WF) (added : info.addEdge direction other = some changed) (key : String) :
    changed.tagNow key = info.tagNow key := by
  unfold addEdge at added
  cases search : searchEdge info.listVersion other (info.edges direction) with
  | none => simp [search] at added
  | some found =>
      simp only [search, Option.some.injEq] at added
      subst added
      have carried := tagAt_carry_succ wf.tags key
      cases direction <;> exact carried

theorem removeEdge_tagNow {info changed : NodeInfo} {direction : Direction} {other : String}
    (wf : info.WF) (removed : info.removeEdge direction other = some changed) (key : String) :
    changed.tagNow key = info.tagNow key := by
  unfold removeEdge at removed
  cases found : (info.edges direction).find? fun edge => other == edge.id with
  | none => simp [found] at removed
  | some edge =>
      by_cases current : scan info.listVersion edge.versions = .equal
      · simp only [found, current, if_true, Option.some.injEq] at removed
        subst removed
        have carried := tagAt_carry_succ wf.tags key
        cases direction <;> exact carried
      · simp [found, current] at removed

theorem setType_tagNow {info : NodeInfo} (wf : info.WF) (type : NodeType) (key : String) :
    (info.setType type).tagNow key = info.tagNow key :=
  tagAt_carry_succ wf.tags key

end NodeInfo

end Rangexx
