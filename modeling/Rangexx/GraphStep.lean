import Rangexx.Wiring

/-!
# Steps of a graph

A write call takes each graph from one committed instance to the next.
`GraphStep` collects what is known of such a step: how the roster of live nodes
changes, which edges and tags it may change, that no stored name is given a new
meaning when the step is `fresh`, and that the edges stay balanced when the step
keeps nodes `apart`.
-/

namespace Rangexx

open AscendingScan

/-- No node became live at an earlier version, and no stored node changed its
type. -/
structure Unrevived (earlier later : GraphInstance) : Prop where
  liveness : LivenessKept earlier later
  types : ∀ name, (earlier.readNode name).listVersion ≠ 0 →
    (later.readNode name).nodeType = (earlier.readNode name).nodeType

theorem Unrevived.refl (inst : GraphInstance) : Unrevived inst inst :=
  ⟨LivenessKept.refl inst, fun _ _ => rfl⟩

theorem Unrevived.trans {first second third : GraphInstance} (past : Past first second)
    (one : Unrevived first second) (two : Unrevived second third) : Unrevived first third where
  liveness := LivenessKept.trans past.version one.liveness two.liveness
  types := by
    intro name stored
    have grown := (past.records name).listVersion
    rw [two.types name (by omega), one.types name stored]

/-- No half-edge of or to an erased node is left. -/
def Cleared (base : GraphInstance) (change : Roster.Change String NodeType)
    (after : GraphInstance) : Prop :=
  ∀ erased, change = .erase erased → Paired base → ∀ name side other,
    (after.readNode name).Present side other → name ≠ erased ∧ other ≠ erased

structure GraphStep (base : GraphInstance) (change : Roster.Change String NodeType)
    (effect : Effect) (fresh apart : Prop) (after : GraphInstance) : Prop where
  committed : Committed after
  past : Past base after
  roster : (GraphDB.ofInstance after).roster = change.apply (GraphDB.ofInstance base).roster
  wired : Wired base effect after
  cleared : Cleared base change after
  unrevived : fresh → Unrevived base after
  balanced : apart → Balanced base → Balanced after
  written : Written base → Written after

/-- The graph at the end of a transaction, and the step its end completes. -/
structure Ending (base : GraphInstance) (change : Roster.Change String NodeType)
    (effect : Effect) (fresh apart : Prop) (graph : GraphDB) : Prop where
  step : GraphStep base change effect fresh apart (graph.endTxn base.version false).inst
  version : graph.version =
    (graph.endTxn base.version false).inst.changelist.currentVersion

section Endings

variable {base : GraphInstance} {change : Roster.Change String NodeType} {effect : Effect}
  {fresh apart : Prop}

theorem Cleared.of_keeps {after : GraphInstance} (keeps : ∀ erased, change ≠ .erase erased) :
    Cleared base change after :=
  fun erased isErased => absurd isErased (keeps erased)

theorem GraphStep.unchanged (committed : Committed base)
    (sameRoster : change.apply (GraphDB.ofInstance base).roster =
      (GraphDB.ofInstance base).roster) (wired : Wired base effect base)
    (cleared : Cleared base change base) : GraphStep base change effect fresh apart base where
  committed := committed
  past := Past.refl base
  roster := sameRoster.symm
  wired := wired
  cleared := cleared
  unrevived := fun _ => Unrevived.refl base
  balanced := fun _ balanced => balanced
  written := id

theorem Ending.unchanged {graph : GraphDB} (committed : Committed base)
    (same : graph.inst = base)
    (sameRoster : change.apply (GraphDB.ofInstance base).roster =
      (GraphDB.ofInstance base).roster) (wired : Wired base effect base)
    (cleared : Cleared base change base) : Ending base change effect fresh apart graph := by
  subst same
  have ended := GraphDB.endTxn_unchanged committed graph.inst.version rfl false
  constructor
  · rw [ended]
    exact GraphStep.unchanged committed sameRoster wired cleared
  · rw [ended]
    exact committed.version_eq

/-- Drafts for every floor a step may have. -/
def Drafts (base : GraphInstance) (fresh : Prop) (live : String → Prop)
    (types : String → NodeType) (inst : GraphInstance) : Prop :=
  ∀ floor, (floor ≤ base.changelist.currentVersion ∨
    floor = base.changelist.currentVersion + 1 ∧ fresh) → Draft base floor live types inst

theorem Ending.of_drafts {graph : GraphDB} {live : String → Prop} {types : String → NodeType}
    (committed : Committed base) (drafts : Drafts base fresh live types graph.inst)
    (touched : graph.inst.Touched)
    (removedOld : ∀ name ∈ graph.removedNodes,
      ∀ graphVersion ∈ (graph.inst.readNode name).graphVersions,
        graphVersion ≤ base.changelist.currentVersion)
    (roster : ∀ name, (live name ∧ name ∉ graph.removedNodes →
        change.apply (GraphDB.ofInstance base).roster name = some (types name)) ∧
      (¬ (live name ∧ name ∉ graph.removedNodes) →
        change.apply (GraphDB.ofInstance base).roster name = none))
    (typesKept : fresh → ∀ name, (base.readNode name).listVersion ≠ 0 →
      types name = (base.readNode name).nodeType)
    (wired : Wired base effect graph.inst) (cleared : Cleared base change graph.inst)
    (balanced : apart → Balanced base → Balanced graph.inst) :
    Ending base change effect fresh apart graph := by
  have published := GraphDB.endTxn_draft committed (Nat.le_succ _)
    (drafts base.changelist.currentVersion (Or.inl (Nat.le_refl _))) touched removedOld
  refine ⟨⟨published.committed, published.past, ?_, wired.of_same published.present published.tags,
    ?_, ?_, ?_, published.written⟩, ?_⟩
  · funext name
    rw [GraphDB.roster_ofInstance published.committed]
    split
    · rename_i isLive
      rw [published.types]
      exact ((roster name).1 ((published.live name).mp isLive)).symm
    · rename_i notLive
      exact ((roster name).2 (mt (published.live name).mpr notLive)).symm
  · intro erased isErased paired name side other found
    rw [published.present] at found
    exact cleared erased isErased paired name side other found
  · intro isFresh
    have freshly := GraphDB.endTxn_draft committed (Nat.le_refl _)
      (drafts (base.changelist.currentVersion + 1) (Or.inr ⟨rfl, isFresh⟩)) touched removedOld
    refine ⟨freshly.kept rfl, ?_⟩
    intro name stored
    rw [published.types]
    exact typesKept isFresh name stored
  · intro isApart isBalanced
    exact (balanced isApart isBalanced).of_present published.present
  · rw [published.version]
    exact (drafts _ (Or.inl (Nat.le_refl _))).working.version_of_pending touched.pending_pos

/-! ## Edits

Changes of edges and tags, which leave liveness and types to the committed
records. -/

/-- A working set in which no node was created. -/
def Edit (base inst : GraphInstance) : Prop :=
  ∀ floor, Working base
    (Drafted base floor base.Live fun name => (base.readNode name).nodeType) inst

theorem Edit.refl (committed : Committed base) : Edit base base :=
  fun floor => (committed.draft floor).working

theorem Committed.tagsKept (committed : Committed base) : Working base (TagsKept base) base :=
  (Edit.refl committed 0).strengthen fun name => ⟨committed.wf name, fun _ => rfl⟩

theorem Edit.drafts {inst : GraphInstance} (committed : Committed base) (edit : Edit base inst) :
    Drafts base fresh base.Live (fun name => (base.readNode name).nodeType) inst := by
  intro floor _
  refine ⟨edit floor, ?_⟩
  intro name live
  exact (edit floor).stored name ((committed.draft floor).stored name live)

theorem Ending.of_edit {graph : GraphDB} (committed : Committed base)
    (edit : Edit base graph.inst) (noneRemoved : graph.removedNodes = [])
    (outcome : graph.inst = base ∨ graph.inst.Touched)
    (sameRoster : change.apply (GraphDB.ofInstance base).roster =
      (GraphDB.ofInstance base).roster)
    (wired : Wired base effect graph.inst) (keeps : ∀ erased, change ≠ .erase erased)
    (balanced : apart → Balanced base → Balanced graph.inst) :
    Ending base change effect fresh apart graph := by
  rcases outcome with same | touched
  · rw [same] at wired
    exact Ending.unchanged committed same sameRoster wired (.of_keeps keeps)
  · refine Ending.of_drafts committed (edit.drafts committed) touched ?_ ?_ ?_ wired
      (.of_keeps keeps) balanced
    · rw [noneRemoved]
      simp
    · intro name
      rw [sameRoster, GraphDB.roster_ofInstance committed, noneRemoved]
      constructor
      · intro live
        rw [if_pos live.1]
      · intro notLive
        rw [if_neg fun live => notLive ⟨live, by simp⟩]
    · exact fun _ _ _ => rfl

theorem Ending.of_removal {graph : GraphDB} {name : String} (committed : Committed base)
    (edit : Edit base graph.inst) (isRemoved : graph.removedNodes = [name])
    (touched : graph.inst.Touched) (wired : Wired base effect graph.inst)
    (cleared : Cleared base (.erase name) graph.inst)
    (balanced : apart → Balanced base → Balanced graph.inst) :
    Ending base (.erase name) effect fresh apart graph := by
  refine Ending.of_drafts committed (edit.drafts committed) touched ?_ ?_ ?_ wired cleared
    balanced
  · -- With a floor above every new version, only committed versions are left.
    intro removed _ graphVersion member
    have good := (edit (base.changelist.currentVersion + 2)).good removed
    rcases good.derived.graphVersions graphVersion member with old | ⟨above, le⟩
    · exact committed.graphVersions removed graphVersion old
    · omega
  · intro other
    rw [isRemoved, List.mem_singleton]
    simp only [Roster.Change.apply]
    by_cases same : other = name
    · simp [same]
    · rw [if_neg same, GraphDB.roster_ofInstance committed]
      constructor
      · intro live
        rw [if_pos live.1]
      · intro notLive
        rw [if_neg fun live => notLive ⟨live, same⟩]
  · exact fun _ _ _ => rfl

theorem Edit.changed {inst : GraphInstance} {node : Node} {update : NodeInfo → Option NodeInfo}
    (edit : Edit base inst) (holds : node.Holds inst)
    (keeps : ∀ floor, KeepsGood (Drafted base floor base.Live fun name =>
      (base.readNode name).nodeType) update) : Edit base (node.change update inst).2.2 :=
  fun floor => (Node.change_working (keeps floor) (edit floor) (holds.sound (edit floor))).1

theorem Edit.addEdge {inst : GraphInstance} {node other : Node} (direction : Direction)
    (edit : Edit base inst) (holds : node.Holds inst) (otherHolds : other.Holds inst) :
    Edit base (node.addEdge direction other inst).2.2.2 :=
  fun floor => (Node.addEdge_working (Drafted.edgeClosed _ _ _ _) direction (edit floor)
    (holds.sound (edit floor)) (otherHolds.sound (edit floor))).1

theorem Edit.removeEdge {inst : GraphInstance} {node other : Node} (direction : Direction)
    (edit : Edit base inst) (holds : node.Holds inst) (otherHolds : other.Holds inst) :
    Edit base (node.removeEdge direction other inst).2.2.2 :=
  fun floor => (Node.removeEdge_working (Drafted.edgeClosed _ _ _ _) direction (edit floor)
    (holds.sound (edit floor)) (otherHolds.sound (edit floor))).1

/-- The end of a transaction shows the edges that were changed in it. -/
theorem Edit.present_endTxn {inst : GraphInstance} (edit : Edit base inst)
    (committed : Committed base) (touched : inst.Touched) (name : String) :
    (((GraphDB.ofInstance inst).endTxn base.version false).inst.readNode name).Present =
      (inst.readNode name).Present := by
  have advanced : base.version < (GraphDB.ofInstance inst).version := by
    have before := committed.version_eq
    have after := (edit 0).version_of_pending touched.pending_pos
    change base.version < inst.version
    omega
  exact @GraphDB.present_endTxn (.ofInstance inst) touched _ advanced name

theorem Edit.detach {inst after : GraphInstance} {node removed : Node} {version : Nat}
    (edit : Edit base inst) (holds : node.Holds inst)
    (detached : node.detach version inst = some (removed, after)) : Edit base after :=
  fun floor => (Node.detach_working (Drafted.edgeClosed _ _ _ _) (edit floor)
    (holds.sound (edit floor)) detached).1

end Endings

section Outcomes

variable (node other : Node) (direction : Direction) (inst : GraphInstance)

theorem Node.touched_of_addEdge (success : (node.addEdge direction other inst).1 = true) :
    (node.addEdge direction other inst).2.2.2.Touched := by
  obtain ⟨half, result⟩ := Node.addEdge_of_true direction success
  rw [result]
  exact Node.touched_change (Node.touched_of_true half)

theorem Node.touched_of_removeEdge
    (success : (node.removeEdge direction other inst).1 = true) :
    (node.removeEdge direction other inst).2.2.2.Touched := by
  obtain ⟨half, _, result⟩ := Node.removeEdge_of_true direction success
  rw [result]
  exact Node.touched_change (Node.touched_of_true half)

/-- Adding an edge touches the graph or leaves it as it is. -/
theorem Node.addEdge_outcome :
    (node.addEdge direction other inst).2.2.2 = inst ∨
      (node.addEdge direction other inst).2.2.2.Touched := by
  cases success : (node.addEdge direction other inst).1 with
  | false => exact Or.inl (Node.addEdge_of_false direction success)
  | true => exact Or.inr (Node.touched_of_addEdge node other direction inst success)

theorem Node.removeEdge_outcome :
    (node.removeEdge direction other inst).2.2.2 = inst ∨
      (node.removeEdge direction other inst).2.2.2.Touched := by
  cases success : (node.removeEdge direction other inst).1 with
  | false => exact Or.inl (Node.removeEdge_of_false direction success)
  | true => exact Or.inr (Node.touched_of_removeEdge node other direction inst success)

end Outcomes

theorem Node.change_outcome (node : Node) (update : NodeInfo → Option NodeInfo)
    (inst : GraphInstance) :
    (node.change update inst).2.2 = inst ∨ (node.change update inst).2.2.Touched := by
  cases success : (node.change update inst).1 with
  | false => exact Or.inl (Node.change_of_false success)
  | true => exact Or.inr (Node.touched_of_true success)

theorem Node.records_addEdge (node other : Node) (direction : Direction)
    (inst : GraphInstance) :
    (node.addEdge direction other inst).2.2.2.records = inst.records := by
  cases success : (node.addEdge direction other inst).1 with
  | false => rw [Node.addEdge_of_false direction success]
  | true =>
      rw [(Node.addEdge_of_true direction success).2, Node.addHalfEdge, Node.records_change,
        Node.addHalfEdge, Node.records_change]

/-! ## Creations -/

section Creations

variable {base inst : GraphInstance} {name : String} {type : NodeType} {effect : Effect}

/-- A node was created, and perhaps edges were changed since. -/
theorem Ending.of_created {graph : GraphDB} (committed : Committed base)
    (absent : ¬ base.Live name)
    (drafts : Drafts base ((base.readNode name).listVersion = 0)
      (fun other => other = name ∨ base.Live other)
      (fun other => if other = name then type else (base.readNode other).nodeType) graph.inst)
    (noneRemoved : graph.removedNodes = []) (touched : graph.inst.Touched)
    (wired : Wired base effect graph.inst) (balanced : Balanced base → Balanced graph.inst) :
    Ending base (.ensure name type) effect ((base.readNode name).listVersion = 0) True graph := by
  have unused : (GraphDB.ofInstance base).roster name = none := by
    rw [GraphDB.roster_ofInstance committed, if_neg absent]
  refine Ending.of_drafts committed drafts touched ?_ ?_ ?_ wired (.of_keeps (by simp))
    fun _ => balanced
  · rw [noneRemoved]
    simp
  · intro other
    rw [Roster.Change.apply_ensure_of_none unused, noneRemoved]
    by_cases same : other = name
    · simp [same]
    · rw [if_neg same, if_neg same, GraphDB.roster_ofInstance committed]
      constructor
      · rintro ⟨isNew | live, _⟩
        · exact absurd isNew same
        · rw [if_pos live]
      · intro notLive
        rw [if_neg fun live => notLive ⟨Or.inr live, by simp⟩]
  · intro unwritten other stored
    rw [if_neg]
    rintro rfl
    exact stored unwritten

theorem GraphDB.CreatedNode.balanced {floor : Nat}
    (created : GraphDB.CreatedNode base floor name type inst)
    (balanced : Balanced base) : Balanced inst :=
  balanced.of_present created.present

theorem GraphDB.CreatedNode.wired {floor : Nat}
    (created : GraphDB.CreatedNode base floor name type inst) : Wired base .still inst :=
  (Wired.refl base).of_same created.present created.tags

theorem GraphDB.CreatedNode.tagsKept {floor : Nat}
    (created : GraphDB.CreatedNode base floor name type inst) :
    Working base (TagsKept base) inst :=
  created.draft.working.strengthen fun other =>
    ⟨(created.draft.working.good other).derived.wf, created.tags other⟩

theorem Ending.created (committed : Committed base) (absent : ¬ base.Live name)
    (created : ∀ floor, (floor ≤ base.changelist.currentVersion ∨
      floor = base.changelist.currentVersion + 1 ∧ (base.readNode name).listVersion = 0) →
      GraphDB.CreatedNode base floor name type inst) :
    Ending base (.ensure name type) .still ((base.readNode name).listVersion = 0) True
      (GraphDB.ofInstance inst) := by
  have first := created _ (Or.inl (Nat.le_refl _))
  exact Ending.of_created committed absent (fun floor floorOk => (created floor floorOk).draft)
    rfl first.touched first.wired first.balanced

/-- A node was created and linked to a live one. -/
theorem Ending.created_linked {parent : String} (committed : Committed base)
    (absent : ¬ base.Live name) (parentLive : base.Live parent)
    (created : ∀ floor, (floor ≤ base.changelist.currentVersion ∨
      floor = base.changelist.currentVersion + 1 ∧ (base.readNode name).listVersion = 0) →
      GraphDB.CreatedNode base floor name type inst) :
    Ending base (.ensure name type) (.links parent name) ((base.readNode name).listVersion = 0) True
      ((GraphDB.ofInstance inst).addForwardEdge (Node.loaded base parent)
        (Node.loaded inst name)).2 := by
  have first := created _ (Or.inl (Nat.le_refl _))
  have differ : parent ≠ name := by
    rintro rfl
    exact absent parentLive
  have holds : (Node.loaded base parent).Holds inst :=
    congrArg some (first.others parent differ).symm
  refine Ending.of_created committed absent ?_ rfl ?_
    (first.wired.addEdge first.tagsKept holds (Node.loaded_holds inst name)) ?_
  · intro floor floorOk
    have draft := (created floor floorOk).draft
    constructor
    · exact (Node.addEdge_working (Drafted.edgeClosed _ _ _ _) .forward draft.working
        (holds.sound draft.working)
        ((Node.loaded_holds inst name).sound draft.working)).1
    · intro other live
      rw [show ((GraphDB.ofInstance inst).addForwardEdge (Node.loaded base parent)
        (Node.loaded inst name)).2.inst.records = inst.records from
          Node.records_addEdge _ _ _ _]
      exact draft.stored other live
  · change ((Node.loaded base parent).addEdge .forward (Node.loaded inst name)
      inst).2.2.2.Touched
    rcases Node.addEdge_outcome (Node.loaded base parent) (Node.loaded inst name) .forward
      inst with same | touched
    · rw [same]
      exact first.touched
    · exact touched
  · intro balanced
    exact (first.balanced balanced).addEdge .forward
      (fun other => (first.draft.working.good other).derived.wf) holds
      (Node.loaded_holds inst name) differ

end Creations

end Rangexx
