import Rangexx.NodeInfo

/-!
# The edge history of a node record

`EdgeAt edges version other` says that `other` is recorded in an edge list at
a list version.  The lemmas below describe, for each list operation of the
record functions, which versions it changes: adding and removing an edge write
only the next list version, so everything recorded before stays readable.
-/

namespace Rangexx

open AscendingScan

def EdgeAt (edges : List Adjacency) (version : Nat) (other : String) : Prop :=
  ∃ edge ∈ edges, edge.id = other ∧ version ∈ edge.versions

/-- An edge list whose version lists ascend up to a bound, with one nonempty
entry for each neighbour. -/
structure EdgesWF (bound : Nat) (edges : List Adjacency) : Prop where
  nodup : (edges.map Adjacency.id).Nodup
  ascending : ∀ edge ∈ edges, Ascending edge.versions
  bounded : ∀ edge ∈ edges, ∀ version ∈ edge.versions, version ≤ bound
  nonempty : ∀ edge ∈ edges, edge.versions ≠ []

theorem EdgesWF.nil (bound : Nat) : EdgesWF bound [] where
  nodup := by simp
  ascending := by simp
  bounded := by simp
  nonempty := by simp

theorem EdgesWF.mono {bound larger : Nat} {edges : List Adjacency}
    (wf : EdgesWF bound edges) (le : bound ≤ larger) : EdgesWF larger edges where
  nodup := wf.nodup
  ascending := wf.ascending
  bounded := fun edge member version inVersions =>
    Nat.le_trans (wf.bounded edge member version inVersions) le
  nonempty := wf.nonempty

theorem EdgesWF.perm {bound : Nat} {edges others : List Adjacency}
    (wf : EdgesWF bound edges) (perm : edges.Perm others) : EdgesWF bound others where
  nodup := (perm.map Adjacency.id).nodup_iff.mp wf.nodup
  ascending := fun edge member => wf.ascending edge (perm.mem_iff.mpr member)
  bounded := fun edge member => wf.bounded edge (perm.mem_iff.mpr member)
  nonempty := fun edge member => wf.nonempty edge (perm.mem_iff.mpr member)

theorem EdgeAt.perm {edges others : List Adjacency} {version : Nat} {other : String}
    (perm : edges.Perm others) :
    EdgeAt edges version other ↔ EdgeAt others version other := by
  unfold EdgeAt
  constructor
  · rintro ⟨edge, member, rest⟩
    exact ⟨edge, perm.mem_iff.mp member, rest⟩
  · rintro ⟨edge, member, rest⟩
    exact ⟨edge, perm.mem_iff.mpr member, rest⟩

@[simp]
theorem edgeAt_nil (version : Nat) (other : String) : ¬ EdgeAt [] version other := by
  simp [EdgeAt]

@[simp]
theorem edgeAt_cons (edge : Adjacency) (edges : List Adjacency) (version : Nat)
    (other : String) :
    EdgeAt (edge :: edges) version other ↔
      (edge.id = other ∧ version ∈ edge.versions) ∨ EdgeAt edges version other := by
  simp [EdgeAt]

@[simp]
theorem edgeAt_append (first second : List Adjacency) (version : Nat) (other : String) :
    EdgeAt (first ++ second) version other ↔
      EdgeAt first version other ∨ EdgeAt second version other := by
  simp only [EdgeAt, List.mem_append, or_and_right, exists_or]

/-- Reading the edges of a record back at a version gives the recorded ones. -/
theorem mem_filter_scan_iff {bound : Nat} {edges : List Adjacency}
    (wf : EdgesWF bound edges) (version : Nat) (other : String) :
    other ∈ (edges.filter fun edge => scan version edge.versions = .equal).map Adjacency.id ↔
      EdgeAt edges version other := by
  simp only [List.mem_map, List.mem_filter, decide_eq_true_eq, EdgeAt]
  constructor
  · rintro ⟨edge, ⟨member, found⟩, rfl⟩
    exact ⟨edge, member, rfl, (scan_eq_equal_iff (wf.ascending edge member)).mp found⟩
  · rintro ⟨edge, member, rfl, found⟩
    exact ⟨edge, ⟨member, (scan_eq_equal_iff (wf.ascending edge member)).mpr found⟩, rfl⟩

/-! ## Carrying the present entries to the next version -/

theorem updateUniqueNewVersion_eq_none_iff {versions : List Nat} {cmpVersion newVersion : Nat} :
    updateUniqueNewVersion versions cmpVersion newVersion = none ↔
      cmpVersion ∉ versions ∧ newVersion ∉ versions := by
  unfold updateUniqueNewVersion
  split
  · rename_i notFound
    have none := List.find?_eq_none.mp notFound
    simp only [true_iff]
    constructor
    · intro member
      exact none cmpVersion (by simpa using member) (by simp)
    · intro member
      exact none newVersion (by simpa using member) (by simp)
  · rename_i version found
    have member : version ∈ versions := by
      simpa using List.mem_of_find?_eq_some found
    have matched := List.find?_some found
    simp only [Bool.or_eq_true, beq_iff_eq] at matched
    simp only [reduceCtorEq, false_iff, not_and, not_not]
    intro cmpAbsent
    rcases matched with rfl | rfl
    · exact member
    · exact absurd member cmpAbsent

theorem updateUniqueNewVersion_eq_some {versions : List Nat} {cmpVersion newVersion : Nat}
    {updated : List Nat}
    (update : updateUniqueNewVersion versions cmpVersion newVersion = some updated) :
    updated = addUniqueNewVersion versions newVersion := by
  unfold updateUniqueNewVersion at update
  split at update
  · simp at update
  · rename_i version found
    have member : version ∈ versions := by
      simpa using List.mem_of_find?_eq_some found
    simp only [Option.some.injEq] at update
    rw [← update]
    split
    · rename_i same
      subst same
      simp [addUniqueNewVersion, member]
    · rfl

theorem mem_addUniqueNewVersion {versions : List Nat} {newVersion version : Nat} :
    version ∈ addUniqueNewVersion versions newVersion ↔
      version ∈ versions ∨ version = newVersion := by
  unfold addUniqueNewVersion
  split
  · rename_i present
    constructor
    · exact Or.inl
    · rintro (member | rfl)
      · exact member
      · exact present
  · simp

theorem addUniqueNewVersion_ascending {versions : List Nat} {newVersion : Nat}
    (ascending : Ascending versions) (bounded : ∀ version ∈ versions, version ≤ newVersion) :
    Ascending (addUniqueNewVersion versions newVersion) := by
  unfold addUniqueNewVersion
  split
  · exact ascending
  · rename_i absent
    apply ascending.append_singleton
    intro version member
    have le := bounded version member
    have ne : version ≠ newVersion := by
      rintro rfl
      exact absent member
    omega

theorem mem_updateVersion_versions {edge : Adjacency} {cmpVersion newVersion version : Nat} :
    version ∈ (edge.updateVersion cmpVersion newVersion).versions ↔
      version ∈ edge.versions ∨ (version = newVersion ∧ cmpVersion ∈ edge.versions) := by
  unfold Adjacency.updateVersion
  cases update : updateUniqueNewVersion edge.versions cmpVersion newVersion with
  | none =>
      have ⟨cmpAbsent, _⟩ := updateUniqueNewVersion_eq_none_iff.mp update
      simp [cmpAbsent]
  | some updated =>
      have present : ¬ (cmpVersion ∉ edge.versions ∧ newVersion ∉ edge.versions) := by
        intro absent
        rw [updateUniqueNewVersion_eq_none_iff.mpr absent] at update
        simp at update
      rw [updateUniqueNewVersion_eq_some update]
      simp only [Option.getD_some, mem_addUniqueNewVersion]
      constructor
      · rintro (member | rfl)
        · exact Or.inl member
        · by_cases new : version ∈ edge.versions
          · exact Or.inl new
          · exact Or.inr ⟨rfl, by tauto⟩
      · rintro (member | ⟨same, _⟩)
        · exact Or.inl member
        · exact Or.inr same

@[simp]
theorem updateVersion_id (edge : Adjacency) (cmpVersion newVersion : Nat) :
    (edge.updateVersion cmpVersion newVersion).id = edge.id :=
  rfl

theorem updateVersion_ascending {edge : Adjacency} {cmpVersion newVersion : Nat}
    (ascending : Ascending edge.versions)
    (bounded : ∀ version ∈ edge.versions, version ≤ newVersion) :
    Ascending (edge.updateVersion cmpVersion newVersion).versions := by
  unfold Adjacency.updateVersion
  cases update : updateUniqueNewVersion edge.versions cmpVersion newVersion with
  | none => exact ascending
  | some updated =>
      rw [updateUniqueNewVersion_eq_some update]
      exact addUniqueNewVersion_ascending ascending bounded

theorem edgeAt_map_updateVersion {edges : List Adjacency} {cmpVersion newVersion version : Nat}
    {other : String} :
    EdgeAt (edges.map (Adjacency.updateVersion cmpVersion newVersion)) version other ↔
      EdgeAt edges version other ∨
        (version = newVersion ∧ EdgeAt edges cmpVersion other) := by
  induction edges with
  | nil => simp
  | cons edge edges ih =>
      rw [List.map_cons, edgeAt_cons, edgeAt_cons, edgeAt_cons, ih, updateVersion_id,
        mem_updateVersion_versions]
      tauto

theorem EdgesWF.map_updateVersion {edges : List Adjacency} {cmpVersion newVersion : Nat}
    (wf : EdgesWF newVersion edges) :
    EdgesWF newVersion (edges.map (Adjacency.updateVersion cmpVersion newVersion)) where
  nodup := by
    simpa [List.map_map, Function.comp_def] using wf.nodup
  ascending := by
    intro updated member
    obtain ⟨edge, edgeMember, rfl⟩ := List.mem_map.mp member
    exact updateVersion_ascending (wf.ascending edge edgeMember) (wf.bounded edge edgeMember)
  bounded := by
    intro updated member version inVersions
    obtain ⟨edge, edgeMember, rfl⟩ := List.mem_map.mp member
    rcases mem_updateVersion_versions.mp inVersions with old | ⟨rfl, _⟩
    · exact wf.bounded edge edgeMember version old
    · exact Nat.le_refl _
  nonempty := by
    intro updated member empty
    obtain ⟨edge, edgeMember, rfl⟩ := List.mem_map.mp member
    obtain ⟨version, inVersions⟩ := List.exists_mem_of_ne_nil _ (wf.nonempty edge edgeMember)
    have kept : version ∈ (edge.updateVersion cmpVersion newVersion).versions :=
      mem_updateVersion_versions.mpr (Or.inl inVersions)
    rw [empty] at kept
    simp at kept

/-! ## Finding and removing one entry -/

theorem searchEdge_eq_none_iff {cmpVersion : Nat} {other : String} {edges : List Adjacency}
    (wf : EdgesWF cmpVersion edges) :
    searchEdge cmpVersion other edges = none ↔ EdgeAt edges cmpVersion other := by
  induction edges with
  | nil => simp [searchEdge]
  | cons edge rest ih =>
      have ⟨idAbsent, restNodup⟩ := List.nodup_cons.mp wf.nodup
      have restWF : EdgesWF cmpVersion rest :=
        ⟨restNodup, fun e m => wf.ascending e (by simp [m]), fun e m => wf.bounded e (by simp [m]),
          fun e m => wf.nonempty e (by simp [m])⟩
      have headAscending := wf.ascending edge (by simp)
      rw [edgeAt_cons, searchEdge]
      by_cases same : other = edge.id
      · rw [if_pos same]
        have restAbsent : ¬ EdgeAt rest cmpVersion other := by
          rintro ⟨found, member, sameId, _⟩
          apply idAbsent
          rw [← same, ← sameId]
          exact List.mem_map_of_mem member
        by_cases present : cmpVersion ∈ edge.versions
        · rw [(scan_eq_equal_iff headAscending).mpr present]
          simp [same, present]
        · rw [scan_eq_older_of_bounded (wf.nonempty edge (by simp))
            (wf.bounded edge (by simp)) present]
          simp [present, restAbsent]
      · rw [if_neg same]
        simp [ih restWF, Ne.symm same]

theorem searchEdge_eq_some {cmpVersion : Nat} {other : String} {edges others : List Adjacency}
    {found : Option Adjacency}
    (wf : EdgesWF cmpVersion edges)
    (search : searchEdge cmpVersion other edges = some (found, others)) :
    (found = none ∧ others = edges ∧ other ∉ edges.map Adjacency.id) ∨
      ∃ edge, found = some edge ∧ edge.id = other ∧ edges.Perm (edge :: others) := by
  induction edges generalizing others found with
  | nil =>
      simp only [searchEdge, Option.some.injEq, Prod.mk.injEq] at search
      exact Or.inl ⟨search.1.symm, search.2.symm, by simp⟩
  | cons edge rest ih =>
      have ⟨idAbsent, restNodup⟩ := List.nodup_cons.mp wf.nodup
      have restWF : EdgesWF cmpVersion rest :=
        ⟨restNodup, fun e m => wf.ascending e (by simp [m]), fun e m => wf.bounded e (by simp [m]),
          fun e m => wf.nonempty e (by simp [m])⟩
      rw [searchEdge] at search
      by_cases same : other = edge.id
      · rw [if_pos same] at search
        by_cases present : cmpVersion ∈ edge.versions
        · rw [(scan_eq_equal_iff (wf.ascending edge (by simp))).mpr present] at search
          simp at search
        · rw [scan_eq_older_of_bounded (wf.nonempty edge (by simp))
            (wf.bounded edge (by simp)) present] at search
          simp only [Option.some.injEq, Prod.mk.injEq] at search
          right
          exact ⟨edge, search.1.symm, same.symm, by rw [search.2]⟩
      · rw [if_neg same] at search
        obtain ⟨⟨restFound, restOthers⟩, restSearch, paired⟩ := Option.map_eq_some_iff.mp search
        simp only [Prod.mk.injEq] at paired
        obtain ⟨rfl, rfl⟩ := paired
        rcases ih restWF restSearch with ⟨none, sameRest, absent⟩ | ⟨older, some, sameId, perm⟩
        · left
          refine ⟨none, by rw [sameRest], ?_⟩
          rw [List.map_cons, List.mem_cons, not_or]
          exact ⟨same, absent⟩
        · right
          refine ⟨older, some, sameId, ?_⟩
          exact (List.Perm.cons edge perm).trans (List.Perm.swap older edge restOthers)

theorem edgeAt_removeLastVersion {edges : List Adjacency} {other name : String} {version : Nat}
    (nodup : (edges.map Adjacency.id).Nodup) :
    EdgeAt (removeLastVersion other edges) version name ↔
      ∃ edge ∈ edges, edge.id = name ∧
        version ∈ (if edge.id = other then edge.versions.dropLast else edge.versions) := by
  induction edges with
  | nil => simp [removeLastVersion]
  | cons edge rest ih =>
      have ⟨idAbsent, restNodup⟩ := List.nodup_cons.mp nodup
      rw [removeLastVersion]
      by_cases same : other = edge.id
      · have untouched : ∀ found ∈ rest, found.id ≠ other := by
          intro found member equal
          apply idAbsent
          rw [← same, ← equal]
          exact List.mem_map_of_mem member
        rw [if_pos same, edgeAt_cons]
        simp only [List.mem_cons, exists_eq_or_imp, same.symm, if_true]
        apply or_congr (by rfl)
        unfold EdgeAt
        constructor
        · rintro ⟨found, member, sameName, inVersions⟩
          exact ⟨found, member, sameName, by simpa [untouched found member] using inVersions⟩
        · rintro ⟨found, member, sameName, inVersions⟩
          exact ⟨found, member, sameName, by simpa [untouched found member] using inVersions⟩
      · rw [if_neg same, edgeAt_cons, ih restNodup]
        simp [Ne.symm same]

theorem map_id_removeLastVersion (other : String) (edges : List Adjacency) :
    (removeLastVersion other edges).map Adjacency.id = edges.map Adjacency.id := by
  induction edges with
  | nil => rfl
  | cons edge rest ih =>
      rw [removeLastVersion]
      split
      · rfl
      · simp [ih]

theorem mem_removeLastVersion {other : String} {edges : List Adjacency} {edge : Adjacency}
    (member : edge ∈ removeLastVersion other edges) :
    edge ∈ edges ∨ ∃ old ∈ edges, old.id = other ∧
      edge = { old with versions := old.versions.dropLast } := by
  induction edges with
  | nil => simp [removeLastVersion] at member
  | cons head rest ih =>
      rw [removeLastVersion] at member
      split at member
      · rename_i same
        rcases List.mem_cons.mp member with rfl | inRest
        · exact Or.inr ⟨head, by simp, same.symm, rfl⟩
        · exact Or.inl (by simp [inRest])
      · rcases List.mem_cons.mp member with rfl | inRest
        · exact Or.inl (by simp)
        · rcases ih inRest with old | ⟨old, oldMember, rest⟩
          · exact Or.inl (by simp [old])
          · exact Or.inr ⟨old, by simp [oldMember], rest⟩

end Rangexx
