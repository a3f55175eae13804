import Rangexx.NodeEdits

/-!
# The order of the edges of a node object

The entries of removed edges stay in the edge list, and an edge that is added
again moves with its whole history to the end of the list.  So the present
edges stand in the order in which they were last added, which is what the
choice of the first proposer of a cluster relies on.
-/

namespace Rangexx

open AscendingScan

/-- The edges of a node in order, one list for each direction. -/
abbrev EdgeLists :=
  Direction → List String

/-- What the change is for, on the lists of edges: a new edge comes last, and
the others keep their places. -/
def NodeEdit.applyOrder (lists : EdgeLists) : NodeEdit → EdgeLists
  | addEdge direction other =>
      if other ∈ lists direction then lists
      else Function.update lists direction (lists direction ++ [other])
  | removeEdge direction other =>
      Function.update lists direction ((lists direction).erase other)
  | updateTag _ _ => lists
  | deleteTag _ => lists
  | setType _ => lists

/-- The edges after a run of changes of a fresh node, in order. -/
def currentOrder (edits : List NodeEdit) : EdgeLists :=
  edits.foldl NodeEdit.applyOrder fun _ => []

theorem currentOrder_concat (edits : List NodeEdit) (edit : NodeEdit) :
    currentOrder (edits ++ [edit]) = edit.applyOrder (currentOrder edits) := by
  simp [currentOrder]

instance (edges : List Adjacency) (version : Nat) (other : String) :
    Decidable (EdgeAt edges version other) :=
  inferInstanceAs (Decidable (∃ edge ∈ edges, edge.id = other ∧ version ∈ edge.versions))

instance (info : NodeInfo) (direction : Direction) (other : String) :
    Decidable (info.Present direction other) :=
  inferInstanceAs (Decidable (EdgeAt _ _ _))

/-- The search of `add_edge` takes an older entry out of the list, which the
edge is not present in. -/
theorem searchEdge_split {bound : Nat} {other : String} {edges others : List Adjacency}
    {found : Option Adjacency} (wf : EdgesWF bound edges)
    (search : searchEdge bound other edges = some (found, others)) :
    (found = none ∧ others = edges) ∨
      ∃ edge front back, found = some edge ∧ edge.id = other ∧
        edges = front ++ edge :: back ∧ others = front ++ back := by
  induction edges generalizing others found with
  | nil =>
      simp only [searchEdge, Option.some.injEq, Prod.mk.injEq] at search
      exact Or.inl ⟨search.1.symm, search.2.symm⟩
  | cons edge rest ih =>
      rw [searchEdge] at search
      by_cases same : other = edge.id
      · rw [if_pos same] at search
        by_cases present : bound ∈ edge.versions
        · rw [(scan_eq_equal_iff (wf.ascending edge (by simp))).mpr present] at search
          simp at search
        · rw [scan_eq_older_of_bounded (wf.nonempty edge (by simp))
            (wf.bounded edge (by simp)) present] at search
          simp only [Option.some.injEq, Prod.mk.injEq] at search
          exact Or.inr ⟨edge, [], rest, search.1.symm, same.symm, rfl, search.2.symm⟩
      · rw [if_neg same] at search
        obtain ⟨⟨restFound, restOthers⟩, restSearch, paired⟩ := Option.map_eq_some_iff.mp search
        simp only [Prod.mk.injEq] at paired
        obtain ⟨rfl, rfl⟩ := paired
        rcases ih wf.tail restSearch with ⟨isNone, sameRest⟩ |
          ⟨older, front, back, isSome, sameId, split, taken⟩
        · exact Or.inl ⟨isNone, by rw [sameRest]⟩
        · exact Or.inr ⟨older, edge :: front, back, isSome, sameId, by rw [split]; rfl,
            by rw [taken]; rfl⟩

namespace NodeInfo

/-- The names in the edge list of a record, present or not. -/
def edgeIds (info : NodeInfo) (direction : Direction) : List String :=
  (info.edges direction).map Adjacency.id

/-- The present edges stand in the order of the edge list. -/
theorem getEdges_eq_filter {info : NodeInfo} (wf : info.WF) (direction : Direction) :
    info.getEdges direction none =
      (info.edgeIds direction).filter fun other => info.Present direction other := by
  have edgesWF := wf.edges direction
  unfold getEdges edgeIds
  rw [List.filter_map]
  congr 1
  apply List.filter_congr
  intro edge member
  rw [Function.comp_apply, decide_eq_decide]
  change scan info.listVersion edge.versions = .equal ↔ _
  rw [scan_eq_equal_iff (edgesWF.ascending edge member)]
  constructor
  · intro current
    exact ⟨edge, member, rfl, current⟩
  · rintro ⟨holder, holderMember, sameId, current⟩
    have same : holder = edge :=
      List.inj_on_of_nodup_map edgesWF.nodup holderMember member sameId
    rw [← same]
    exact current

theorem getEdges_of_same {info changed : NodeInfo} {direction : Direction} (wf : info.WF)
    (changedWF : changed.WF) (sameIds : changed.edgeIds direction = info.edgeIds direction)
    (same : ∀ other, changed.Present direction other ↔ info.Present direction other) :
    changed.getEdges direction none = info.getEdges direction none := by
  rw [getEdges_eq_filter wf, getEdges_eq_filter changedWF, sameIds]
  apply List.filter_congr
  intro other _
  rw [decide_eq_decide]
  exact same other

private theorem map_id_updateVersion (cmpVersion newVersion : Nat) (edges : List Adjacency) :
    (edges.map (Adjacency.updateVersion cmpVersion newVersion)).map Adjacency.id =
      edges.map Adjacency.id := by
  simp [Function.comp_def]

/-! ## The edge lists after a change -/

theorem updateTag_edgeIds (info : NodeInfo) (key : String) (values : List String)
    (direction : Direction) :
    (info.updateTag key values).edgeIds direction = info.edgeIds direction := by
  cases direction <;> exact map_id_updateVersion _ _ _

theorem setType_edgeIds (info : NodeInfo) (type : NodeType) (direction : Direction) :
    (info.setType type).edgeIds direction = info.edgeIds direction := by
  cases direction <;> exact map_id_updateVersion _ _ _

theorem deleteTag_edgeIds {info changed : NodeInfo} {key : String}
    (deleted : info.deleteTag key = some changed) (direction : Direction) :
    changed.edgeIds direction = info.edgeIds direction := by
  unfold deleteTag at deleted
  cases found : info.tags.find? fun kv => key == kv.key with
  | none => simp [found] at deleted
  | some kv =>
      by_cases current : scan info.listVersion kv.versions = .equal
      · simp only [found, current, if_true, Option.some.injEq] at deleted
        subst deleted
        cases direction <;> exact map_id_updateVersion _ _ _
      · simp [found, current] at deleted

theorem removeEdge_edgeIds {info changed : NodeInfo} {direction : Direction} {other : String}
    (removed : info.removeEdge direction other = some changed) (side : Direction) :
    changed.edgeIds side = info.edgeIds side := by
  unfold removeEdge at removed
  cases found : (info.edges direction).find? fun edge => other == edge.id with
  | none => simp [found] at removed
  | some edge =>
      by_cases current : scan info.listVersion edge.versions = .equal
      · simp only [found, current, if_true, Option.some.injEq] at removed
        subst removed
        have dropped : ∀ edges : List Adjacency,
            (removeLastVersion other (edges.map (Adjacency.updateVersion info.listVersion
              (info.listVersion + 1)))).map Adjacency.id = edges.map Adjacency.id := by
          intro edges
          rw [map_id_removeLastVersion, map_id_updateVersion]
        cases direction <;> cases side <;>
          first
          | exact dropped _
          | exact map_id_updateVersion _ _ _
      · simp [found, current] at removed

theorem addEdge_edgeIds_ne {info changed : NodeInfo} {direction side : Direction}
    {other : String} (added : info.addEdge direction other = some changed)
    (differs : side ≠ direction) : changed.edgeIds side = info.edgeIds side := by
  unfold addEdge at added
  cases search : searchEdge info.listVersion other (info.edges direction) with
  | none => simp [search] at added
  | some found =>
      simp only [search, Option.some.injEq] at added
      subst added
      cases direction <;> cases side <;>
        first
        | exact absurd rfl differs
        | exact map_id_updateVersion _ _ _

/-- An added edge is the last of the list; the entry it may have had before is
taken out. -/
theorem addEdge_edgeIds_same {info changed : NodeInfo} {direction : Direction} {other : String}
    (wf : info.WF) (added : info.addEdge direction other = some changed) :
    ∃ kept, changed.edgeIds direction = kept ++ [other] ∧
      (kept = info.edgeIds direction ∨ ∃ front back,
        info.edgeIds direction = front ++ other :: back ∧ kept = front ++ back) := by
  unfold addEdge at added
  cases search : searchEdge info.listVersion other (info.edges direction) with
  | none => simp [search] at added
  | some found =>
      obtain ⟨entry, others⟩ := found
      simp only [search, Option.some.injEq] at added
      subst added
      refine ⟨others.map Adjacency.id, ?_, ?_⟩
      · have lastId : (appendedEdge other (info.listVersion + 1) entry).id = other := by
          rcases searchEdge_split (wf.edges direction) search with ⟨rfl, _⟩ | ⟨_, _, _, rfl, isId, _⟩
          · rfl
          · exact isId
        have ids : ((others ++ [appendedEdge other (info.listVersion + 1) entry]).map
            (Adjacency.updateVersion info.listVersion (info.listVersion + 1))).map Adjacency.id =
              others.map Adjacency.id ++ [other] := by
          rw [map_id_updateVersion, List.map_append, List.map_singleton, lastId]
        cases direction <;> exact ids
      · rcases searchEdge_split (wf.edges direction) search with ⟨_, same⟩ |
          ⟨edge, front, back, _, isId, split, taken⟩
        · exact Or.inl (by rw [same]; rfl)
        · refine Or.inr ⟨front.map Adjacency.id, back.map Adjacency.id, ?_, ?_⟩
          · unfold edgeIds
            rw [split, List.map_append, List.map_cons, isId]
          · rw [taken, List.map_append]

/-! ## The present edges after a change -/

theorem addEdge_getEdges_same {info changed : NodeInfo} {direction : Direction} {other : String}
    (wf : info.WF) (added : info.addEdge direction other = some changed) :
    changed.getEdges direction none = info.getEdges direction none ++ [other] := by
  have advance := addEdge_advance wf added
  have absent : ¬ info.Present direction other := by
    intro present
    rw [(addEdge_eq_none_iff wf direction other).mpr present] at added
    simp at added
  have nodup : (changed.edgeIds direction).Nodup := (advance.wf.edges direction).nodup
  obtain ⟨kept, ids, taken⟩ := addEdge_edgeIds_same wf added
  rw [ids] at nodup
  have notKept : other ∉ kept := by
    have apart := (List.nodup_append.mp nodup).2.2
    exact fun member => apart other member other (by simp) rfl
  have sameKept : kept.filter (fun name => info.Present direction name) =
      info.getEdges direction none := by
    rw [getEdges_eq_filter wf]
    rcases taken with rfl | ⟨front, back, split, rfl⟩
    · rfl
    · rw [split, List.filter_append, List.filter_append,
        List.filter_cons_of_neg (by simpa using absent)]
  rw [getEdges_eq_filter advance.wf, ids, List.filter_append, ← sameKept]
  congr 1
  · apply List.filter_congr
    intro name member
    have differs : name ≠ other := by
      rintro rfl
      exact notKept member
    rw [decide_eq_decide, advance.present]
    simp [differs]
  · have present : changed.Present direction other := by
      rw [advance.present]
      exact Or.inr ⟨rfl, rfl⟩
    simp [present]

theorem addEdge_getEdges_ne {info changed : NodeInfo} {direction side : Direction}
    {other : String} (wf : info.WF) (added : info.addEdge direction other = some changed)
    (differs : side ≠ direction) :
    changed.getEdges side none = info.getEdges side none := by
  have advance := addEdge_advance wf added
  apply getEdges_of_same wf advance.wf (addEdge_edgeIds_ne added differs)
  intro name
  rw [advance.present]
  simp [differs]

theorem removeEdge_getEdges {info changed : NodeInfo} {direction : Direction} {other : String}
    (wf : info.WF) (removed : info.removeEdge direction other = some changed)
    (side : Direction) :
    changed.getEdges side none =
      if side = direction then (info.getEdges side none).erase other
      else info.getEdges side none := by
  have advance := removeEdge_advance wf removed
  split
  · rename_i same
    rw [(nodup_getEdges wf side none).erase_eq_filter, getEdges_eq_filter wf,
      getEdges_eq_filter advance.wf, removeEdge_edgeIds removed, List.filter_filter]
    apply List.filter_congr
    intro name _
    rw [Bool.eq_iff_iff]
    simp only [decide_eq_true_eq, Bool.and_eq_true, bne_iff_ne, advance.present, same, true_and]
    exact and_comm
  · rename_i differs
    apply getEdges_of_same wf advance.wf (removeEdge_edgeIds removed side)
    intro name
    rw [advance.present]
    simp [differs]

end NodeInfo

/-! ## Runs -/

/-- The record shows the edges of the lists, in their order. -/
def NodeInfo.ShowsOrder (info : NodeInfo) (lists : EdgeLists) : Prop :=
  ∀ direction, info.getEdges direction none = lists direction

theorem NodeEdit.apply_showsOrder {info changed : NodeInfo} {lists : EdgeLists}
    {edit : NodeEdit} (wf : info.WF) (shows : info.ShowsOrder lists)
    (applied : edit.apply info = some changed) :
    changed.ShowsOrder (edit.applyOrder lists) := by
  intro side
  cases edit with
  | addEdge direction other =>
      have absent : other ∉ lists direction := by
        rw [← shows direction, NodeInfo.mem_getEdges wf]
        intro present
        have failed := (NodeInfo.addEdge_eq_none_iff wf direction other).mpr present
        rw [apply, failed] at applied
        simp at applied
      rw [applyOrder, if_neg absent]
      by_cases same : side = direction
      · subst same
        rw [NodeInfo.addEdge_getEdges_same wf applied, Function.update_self, shows]
      · rw [NodeInfo.addEdge_getEdges_ne wf applied same, Function.update_of_ne same, shows]
  | removeEdge direction other =>
      rw [NodeInfo.removeEdge_getEdges wf applied, applyOrder, shows]
      split
      · rename_i same
        rw [same, Function.update_self]
      · rename_i differs
        rw [Function.update_of_ne differs]
  | updateTag key values =>
      obtain rfl := Option.some.inj applied
      have advance := NodeInfo.updateTag_advance wf key values
      rw [NodeInfo.getEdges_of_same wf advance.wf (NodeInfo.updateTag_edgeIds _ _ _ side)
        (advance.present side)]
      exact shows side
  | deleteTag key =>
      have advance := NodeInfo.deleteTag_advance wf applied
      rw [NodeInfo.getEdges_of_same wf advance.wf (NodeInfo.deleteTag_edgeIds applied side)
        (advance.present side)]
      exact shows side
  | setType type =>
      obtain rfl := Option.some.inj applied
      have advance := NodeInfo.setType_advance wf type
      rw [NodeInfo.getEdges_of_same wf advance.wf (NodeInfo.setType_edgeIds _ _ side)
        (advance.present side)]
      exact shows side

/-- A change that fails would leave the lists as they are. -/
theorem NodeEdit.applyOrder_of_none {info : NodeInfo} {lists : EdgeLists} {edit : NodeEdit}
    (wf : info.WF) (shows : info.ShowsOrder lists) (failed : edit.apply info = none) :
    edit.applyOrder lists = lists := by
  cases edit with
  | addEdge direction other =>
      have present := (NodeInfo.addEdge_eq_none_iff wf direction other).mp failed
      have listed : other ∈ lists direction := by
        rw [← shows direction, NodeInfo.mem_getEdges wf]
        exact present
      rw [applyOrder, if_pos listed]
  | removeEdge direction other =>
      have absent := (NodeInfo.removeEdge_eq_none_iff wf direction other).mp failed
      have unlisted : other ∉ lists direction := by
        rw [← shows direction, NodeInfo.mem_getEdges wf]
        exact absent
      rw [applyOrder, List.erase_of_not_mem unlisted, Function.update_eq_self]
  | updateTag key values => simp [apply] at failed
  | deleteTag key => rfl
  | setType type => simp [apply] at failed

theorem NodeInfo.edited_showsOrder (edits : List NodeEdit) :
    (default.edited edits).ShowsOrder (currentOrder edits) := by
  induction edits using List.reverseRecOn with
  | nil =>
      intro direction
      cases direction <;> rfl
  | append_singleton edits edit shows =>
      have wf := (edited_shows edits).1
      rw [edited_concat, currentOrder_concat]
      cases applied : edit.apply (default.edited edits) with
      | none =>
          rw [NodeEdit.applyOrder_of_none wf shows applied]
          exact shows
      | some changed => exact NodeEdit.apply_showsOrder wf shows applied

namespace Node

/-- After any run of changes, the edges of a node object at its current version
stand in the order of their most recent additions. -/
theorem edgeNames_in_order {name : String} {inst later : GraphInstance} {node : Node}
    {edits : List NodeEdit} (fresh : inst.getRecord (.node, name) = none)
    (ran : (createNode name).edits inst edits = (node, later)) (direction : Direction) :
    (node.setWantedVersion none).edgeNames direction later = currentOrder edits direction := by
  rw [edgeNames_eq]
  change (node.initInfo later).getEdges direction none = _
  rw [initInfo_edits fresh ran]
  exact NodeInfo.edited_showsOrder edits direction

/-- The first edge is removed and added again. -/
theorem edgeNames_in_order_readded :
    (((createNode "c").edits Instance.empty [.addEdge .forward "a", .addEdge .forward "b",
        .setType .cluster, .removeEdge .forward "a",
        .addEdge .forward "a"]).1.setWantedVersion none).edgeNames .forward
          ((createNode "c").edits Instance.empty [.addEdge .forward "a", .addEdge .forward "b",
            .setType .cluster, .removeEdge .forward "a", .addEdge .forward "a"]).2 =
      ["b", "a"] :=
  (@edgeNames_in_order "c" Instance.empty _ _ _ rfl rfl .forward).trans (by decide)

end Node

end Rangexx
