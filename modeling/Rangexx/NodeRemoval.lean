import Rangexx.DraftOperations

/-!
# Removing a node

`GraphDB::remove` gives the node an edge to itself and then removes its reverse
and its forward edges one by one.  The objects at the other ends are new ones,
so the removal of the loop goes through a second object of the node: in the
first loop it writes a record the removed object does not know of, which the
next write of the removed object replaces.
-/

namespace Rangexx

open AscendingScan

theorem Direction.opposite_ne (direction : Direction) : direction.opposite ≠ direction := by
  cases direction <;> simp [Direction.opposite]

/-- What a loop over all neighbours in one direction leaves of the object
`node`, which held `info`, and of the instance. -/
structure EdgesCleared (direction : Direction) (name : String) (info : NodeInfo)
    (names : List String) (inst : GraphInstance) (info' : NodeInfo) (inst' : GraphInstance) :
    Prop where
  cleared : ∀ target, ¬ info'.Present direction target
  opposite : ∀ target,
    info'.Present direction.opposite target ↔ info.Present direction.opposite target
  others : ∀ other side target, other ≠ name →
    ((inst'.readNode other).Present side target ↔ (inst.readNode other).Present side target ∧
      ¬ (side = direction.opposite ∧ target = name ∧ other ∈ names))
  record : (∀ target, ¬ info.Present direction.opposite target) → names ≠ [] →
    inst'.readNode name = info'
  touched : names ≠ [] ∨ inst.Touched → inst'.Touched

section Removal

variable {base : GraphInstance} {Good : String → NodeInfo → Prop}

/-- One round of the loop. -/
theorem Node.removeEdge_round (wfOf : ∀ name info, Good name info → info.WF)
    (closed : EdgeClosed Good) {node neighbour : Node} {info : NodeInfo} {inst : GraphInstance}
    (direction : Direction) (working : Working base Good inst) (sound : node.Sound Good)
    (loaded : node.info = some info) (unread : neighbour.info = none)
    (present : info.Present direction neighbour.name) :
    ∃ info', (node.removeEdge direction neighbour inst).2.1 = { node with info := some info' } ∧
      (∀ side target, info'.Present side target ↔
        info.Present side target ∧ ¬ (side = direction ∧ target = neighbour.name)) ∧
      (∀ other side target, other ≠ node.name →
        (((node.removeEdge direction neighbour inst).2.2.2.readNode other).Present side target ↔
          (inst.readNode other).Present side target ∧
            ¬ (side = direction.opposite ∧ target = node.name ∧ other = neighbour.name))) ∧
      ((∀ target, ¬ info.Present direction.opposite target) →
        (node.removeEdge direction neighbour inst).2.2.2.readNode node.name = info') ∧
      (node.removeEdge direction neighbour inst).2.2.2.Touched := by
  have isInfo : node.initInfo inst = info := by
    rw [Node.initInfo, loaded, Option.getD_some]
  have wf : (node.initInfo inst).WF := wfOf _ _ (sound.initInfo working)
  have halfWorking := Node.removeHalfEdge_working closed direction neighbour.name working sound
  rcases Node.removeHalfEdge_cases wf direction neighbour.name with ⟨absent, _⟩ |
    ⟨info', _, advance, result⟩
  · rw [isInfo] at absent
    exact absurd present absent
  rw [isInfo] at advance
  have succeeded : (node.removeEdge direction neighbour inst).1 = true := by
    unfold Node.removeEdge
    rw [result]
  obtain ⟨_, object, after⟩ := Node.removeEdge_of_true direction succeeded
  rw [result] at object after halfWorking
  rw [object, after]
  dsimp only at halfWorking ⊢
  generalize written : inst.writeRecord (.node, node.name) info'.listVersion info' = middle
    at halfWorking ⊢
  have middleRecord : ∀ other, middle.readNode other =
      if other = node.name then info' else inst.readNode other := by
    intro other
    rw [← written, readNode_writeRecord_node]
  have neighbourRecord : neighbour.initInfo middle = middle.readNode neighbour.name := by
    rw [Node.initInfo, unread, Option.getD_none]
  have back := Node.removeHalfEdge_present neighbourRecord
    (wfOf _ _ (halfWorking.1.good neighbour.name)) direction.opposite node.name
  refine ⟨info', rfl, advance.present, ?_, ?_, ?_⟩
  · intro other side target differs
    rw [back, middleRecord, if_neg differs]
    tauto
  · intro noOpposite
    by_cases self : neighbour.name = node.name
    · -- The second object of the node finds no edge to remove.
      have absent : ¬ (neighbour.initInfo middle).Present direction.opposite node.name := by
        rw [neighbourRecord, middleRecord, if_pos self, advance.present]
        exact fun found => noOpposite _ found.1
      have neighbourWF : (neighbour.initInfo middle).WF := by
        rw [neighbourRecord]
        exact wfOf _ _ (halfWorking.1.good neighbour.name)
      rcases Node.removeHalfEdge_cases neighbourWF direction.opposite node.name with
        ⟨_, unchanged⟩ | ⟨_, found, _⟩
      · rw [unchanged, middleRecord, if_pos rfl]
      · exact absurd found absent
    · have kept : (neighbour.removeHalfEdge direction.opposite node.name middle).2.2.readNode
          node.name = middle.readNode node.name :=
        Node.readNode_change_ne _ _ _ (Ne.symm self)
      rw [kept, middleRecord, if_pos rfl]
  · have touched : middle.Touched := by
      rw [← written]
      exact Instance.touched_writeRecord _ _ _ _
    exact Node.touched_change touched

theorem Node.removeEdges_cleared (wfOf : ∀ name info, Good name info → info.WF)
    (closed : EdgeClosed Good) {node : Node} {info : NodeInfo} {inst : GraphInstance}
    (direction : Direction) (affected : List Node) (working : Working base Good inst)
    (sound : node.Sound Good) (loaded : node.info = some info)
    (unread : ∀ neighbour ∈ affected, neighbour.info = none)
    (nodup : (affected.map Node.name).Nodup)
    (present : ∀ target, info.Present direction target ↔ target ∈ affected.map Node.name) :
    ∃ info' inst', affected.foldl (fun state neighbour =>
        ((state.1.removeEdge direction neighbour state.2).2.1,
          (state.1.removeEdge direction neighbour state.2).2.2.2)) (node, inst) =
        ({ node with info := some info' }, inst') ∧
      EdgesCleared direction node.name info (affected.map Node.name) inst info' inst' := by
  induction affected generalizing node info inst with
  | nil =>
      refine ⟨info, inst, ?_, ?_⟩
      · rw [List.foldl_nil, ← loaded]
      · refine ⟨?_, fun _ => Iff.rfl, ?_, ?_, ?_⟩
        · intro target found
          simpa using (present target).mp found
        · simp
        · simp
        · simp
  | cons neighbour rest ih =>
      have ⟨notAgain, restNodup⟩ := List.nodup_cons.mp nodup
      obtain ⟨info₁, object, present₁, others₁, record₁, touched₁⟩ :=
        Node.removeEdge_round wfOf closed direction working sound loaded
          (unread neighbour (by simp)) ((present _).mpr (by simp))
      have step := Node.removeEdge_working closed direction working sound
        (show neighbour.Sound Good by
          intro loadedInfo isLoaded
          rw [unread neighbour (by simp)] at isLoaded
          simp at isLoaded)
      rw [List.foldl_cons]
      dsimp only
      rw [object] at step ⊢
      generalize (node.removeEdge direction neighbour inst).2.2.2 = inst₁
        at step others₁ record₁ touched₁ ⊢
      obtain ⟨info', inst', result, cleared⟩ := ih step.1 step.2.1 rfl
        (fun other member => unread other (by simp [member])) restNodup (by
          intro target
          rw [present₁, present]
          constructor
          · rintro ⟨member, notFirst⟩
            rcases List.mem_cons.mp member with same | later
            · exact absurd ⟨rfl, same⟩ notFirst
            · exact later
          · intro member
            refine ⟨List.mem_cons_of_mem _ member, ?_⟩
            rintro ⟨_, rfl⟩
            exact notAgain member)
      have sameOpposite : ∀ target, info₁.Present direction.opposite target ↔
          info.Present direction.opposite target := by
        intro target
        rw [present₁]
        simp [direction.opposite_ne]
      refine ⟨info', inst', result, cleared.cleared, ?_, ?_, ?_, ?_⟩
      · intro target
        rw [cleared.opposite, sameOpposite]
      · intro other side target differs
        rw [cleared.others other side target differs, others₁ other side target differs,
          List.map_cons, List.mem_cons]
        tauto
      · intro noOpposite _
        by_cases last : rest.map Node.name = []
        · have nothing : rest = [] := List.map_eq_nil_iff.mp last
          subst nothing
          rw [List.foldl_nil] at result
          obtain ⟨sameObject, rfl⟩ := Prod.mk.inj result
          have sameInfo : info₁ = info' := by simpa using congrArg Node.info sameObject
          rw [← sameInfo]
          exact record₁ noOpposite
        · apply cleared.record _ last
          intro target found
          exact noOpposite target ((sameOpposite target).mp found)
      · intro _
        exact cleared.touched (Or.inr touched₁)

theorem Node.removeAllEdges_cleared (wfOf : ∀ name info, Good name info → info.WF)
    (closed : EdgeClosed Good) {node : Node} {info : NodeInfo} {inst : GraphInstance}
    (direction : Direction) (working : Working base Good inst) (sound : node.Sound Good)
    (current : node.wantedVersion = none) (loaded : node.info = some info) :
    ∃ names info' inst',
      node.removeAllEdges direction inst = ({ node with info := some info' }, inst') ∧
      (∀ target, target ∈ names ↔ info.Present direction target) ∧
      EdgesCleared direction node.name info names inst info' inst' := by
  have wf : info.WF := wfOf _ _ (sound info loaded)
  have isInfo : node.initInfo inst = info := by
    rw [Node.initInfo, loaded, Option.getD_some]
  have names : (node.neighbours direction inst).map Node.name = info.getEdges direction none := by
    unfold Node.neighbours
    rw [isInfo, current, List.map_map]
    exact List.map_id _
  have member : ∀ target, target ∈ (node.neighbours direction inst).map Node.name ↔
      info.Present direction target := by
    intro target
    rw [names, NodeInfo.mem_getEdges wf]
    rfl
  obtain ⟨info', inst', result, cleared⟩ := Node.removeEdges_cleared wfOf closed direction
    (node.neighbours direction inst) working sound loaded
    (by
      intro neighbour isNeighbour
      obtain ⟨name, _, rfl⟩ := List.mem_map.mp isNeighbour
      rfl)
    (by
      rw [names]
      exact NodeInfo.nodup_getEdges wf direction none)
    (fun target => (member target).symm)
  exact ⟨_, info', inst', result, member, cleared⟩

/-- The loop is added in front of everything else; its forward half is there
afterwards in any case. -/
theorem Node.addSelfLoop_present (wfOf : ∀ name info, Good name info → info.WF)
    (closed : EdgeClosed Good) {node : Node} {info : NodeInfo} {inst : GraphInstance}
    (working : Working base Good inst) (sound : node.Sound Good)
    (loaded : node.info = some info) :
    ∃ info' inst', node.addSelfLoop inst = ({ node with info := some info' }, inst') ∧
      (∀ target, info'.Present .forward target ↔
        info.Present .forward target ∨ target = node.name) ∧
      (∀ target, target ≠ node.name →
        (info'.Present .reverse target ↔ info.Present .reverse target)) ∧
      ∀ other, other ≠ node.name → inst'.readNode other = inst.readNode other := by
  have isInfo : node.initInfo inst = info := by
    rw [Node.initInfo, loaded, Option.getD_some]
  have wf : (node.initInfo inst).WF := wfOf _ _ (sound.initInfo working)
  have half := Node.addHalfEdge_working closed .forward node.name working sound
  unfold Node.addSelfLoop
  rcases Node.addHalfEdge_cases wf .forward node.name with ⟨present, result⟩ |
    ⟨info₁, absent, advance, result⟩
  · rw [isInfo] at present
    rw [result, isInfo]
    refine ⟨info, inst, rfl, ?_, fun _ _ => Iff.rfl, fun _ _ => rfl⟩
    intro target
    refine ⟨Or.inl, ?_⟩
    rintro (old | rfl)
    · exact old
    · exact present
  · rw [isInfo] at advance
    rw [result] at half ⊢
    have wf₁ : (({ node with info := some info₁ } : Node).initInfo
        (inst.writeRecord (.node, node.name) info₁.listVersion info₁)).WF :=
      wfOf _ _ (half.2.initInfo half.1)
    dsimp only
    rcases Node.addHalfEdge_cases wf₁ .reverse node.name with ⟨present, result₁⟩ |
      ⟨info₂, _, advance₁, result₁⟩
    · rw [result₁]
      refine ⟨info₁, _, rfl, ?_, ?_, ?_⟩
      · intro target
        rw [advance.present]
        simp
      · intro target _
        rw [advance.present]
        simp
      · intro other differs
        rw [readNode_writeRecord_node, if_neg differs]
    · rw [result₁]
      refine ⟨info₂, _, rfl, ?_, ?_, ?_⟩
      · intro target
        rw [advance₁.present]
        change info₁.Present _ _ ∨ _ ↔ _
        rw [advance.present]
        simp
      · intro target differs
        rw [advance₁.present]
        change info₁.Present _ _ ∨ _ ↔ _
        rw [advance.present]
        simp [differs]
      · intro other differs
        rw [readNode_writeRecord_node, if_neg differs, readNode_writeRecord_node,
          if_neg differs]

/-- What `remove` does to the edges. -/
theorem Node.detach_edges (wfOf : ∀ name info, Good name info → info.WF)
    (closed : EdgeClosed Good) {node removed : Node} {inst after : GraphInstance}
    {version : Nat} (working : Working base Good inst) (sound : node.Sound Good)
    (current : node.wantedVersion = none)
    (detached : node.detach version inst = some (removed, after)) :
    removed.name = node.name ∧ removed.wantedVersion = none ∧ after.Touched ∧
      removed.Holds after ∧
      (∀ side target, ¬ (after.readNode node.name).Present side target) ∧
      ∀ other side target, other ≠ node.name →
        ((after.readNode other).Present side target ↔
          (inst.readNode other).Present side target ∧
            ¬ (target = node.name ∧ (node.initInfo inst).Present side.opposite other)) := by
  unfold Node.detach at detached
  dsimp only at detached
  split at detached
  · simp at detached
  rw [Option.some.injEq] at detached
  have loadedSound : ({ node with info := some (node.initInfo inst) } : Node).Sound Good :=
    Node.Sound.of_info (sound.initInfo working)
  generalize node.initInfo inst = info at loadedSound detached ⊢
  obtain ⟨info₁, inst₁, looped, forward₁, reverse₁, others₁⟩ :=
    Node.addSelfLoop_present wfOf closed working loadedSound rfl
  have kept₁ := Node.addSelfLoop_working closed working loadedSound
  rw [looped] at detached kept₁
  obtain ⟨names₂, info₂, inst₂, reversed, member₂, cleared₂⟩ :=
    Node.removeAllEdges_cleared wfOf closed .reverse kept₁.1 kept₁.2 current rfl
  have kept₂ := Node.removeAllEdges_working closed .reverse kept₁.1 kept₁.2
  dsimp only at detached
  rw [reversed] at detached kept₂
  obtain ⟨names₃, info₃, inst₃, forwarded, member₃, cleared₃⟩ :=
    Node.removeAllEdges_cleared wfOf closed .forward kept₂.1 kept₂.2 current rfl
  dsimp only at detached
  rw [forwarded] at detached
  obtain ⟨rfl, rfl⟩ := Prod.mk.inj detached
  have nonempty : names₃ ≠ [] := by
    have own : node.name ∈ names₃ :=
      (member₃ _).mpr ((cleared₂.opposite _).mpr ((forward₁ _).mpr (Or.inr rfl)))
    exact List.ne_nil_of_mem own
  have record : inst₃.readNode node.name = info₃ :=
    cleared₃.record (fun target => cleared₂.cleared target) nonempty
  refine ⟨rfl, current, cleared₃.touched (Or.inl nonempty), ?_, ?_, ?_⟩
  · exact congrArg some record.symm
  · intro side target
    rw [record]
    cases side with
    | forward => exact cleared₃.cleared target
    | reverse =>
        exact fun found => cleared₂.cleared target ((cleared₃.opposite target).mp found)
  · intro other side target differs
    rw [cleared₃.others other side target differs, cleared₂.others other side target differs,
      others₁ other differs, member₂, member₃, reverse₁ other differs]
    have forward₂ : info₂.Present .forward other ↔ info.Present .forward other := by
      rw [show info₂.Present .forward other ↔ info₁.Present .forward other from
        cleared₂.opposite other, forward₁]
      exact or_iff_left differs
    rw [forward₂]
    cases side with
    | forward => simp [Direction.opposite]
    | reverse => simp [Direction.opposite]

theorem Balanced.detach (wfOf : ∀ name info, Good name info → info.WF)
    (closed : EdgeClosed Good) {node removed : Node} {inst after : GraphInstance}
    {version : Nat} (working : Working base Good inst) (holds : node.Holds inst)
    (current : node.wantedVersion = none) (balanced : Balanced inst)
    (detached : node.detach version inst = some (removed, after)) : Balanced after := by
  obtain ⟨_, _, _, _, own, others⟩ := Node.detach_edges wfOf closed working
    (holds.sound working) current detached
  rw [holds.initInfo] at others
  constructor
  · intro name side target found
    by_cases isNode : name = node.name
    · rw [isNode] at found
      exact absurd found (own side target)
    · have ⟨old, notNode⟩ := (others name side target isNode).mp found
      have back := balanced.symmetric name side target old
      have targetDiffers : target ≠ node.name := by
        rintro rfl
        exact notNode ⟨rfl, back⟩
      refine (others target side.opposite name targetDiffers).mpr ⟨back, ?_⟩
      exact fun same => isNode same.1
  · intro name side found
    by_cases isNode : name = node.name
    · rw [isNode] at found
      exact own side _ found
    · exact balanced.loopFree name side ((others name side name isNode).mp found).1

end Removal

end Rangexx
