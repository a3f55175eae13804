import Rangexx.NodeRemoval

/-!
# What a step does to edges and tags

Balanced edges do not survive a cluster that is linked to itself, so what every
step keeps is weaker: an edge between two different nodes is known at both ends.
`Wired` says in addition which half-edges and which tags a step may have
changed.
-/

namespace Rangexx

/-- An edge between two nodes is known at both ends. -/
def Paired (inst : GraphInstance) : Prop :=
  ∀ name side other, name ≠ other → (inst.readNode name).Present side other →
    (inst.readNode other).Present side.opposite name

theorem Paired.empty : Paired Instance.empty := by
  intro name side other _ present
  exact absurd present (by cases side <;> exact edgeAt_nil _ _)

theorem Paired.of_present {inst after : GraphInstance} (paired : Paired inst)
    (same : ∀ name, (after.readNode name).Present = (inst.readNode name).Present) :
    Paired after := by
  intro name side other
  rw [same, same]
  exact paired name side other

/-- An edge is known at one end at least. -/
def Joined (inst : GraphInstance) (source target : String) : Prop :=
  (inst.readNode source).Present .forward target ∨ (inst.readNode target).Present .reverse source

/-! ## Edges of one node object -/

section Edges

variable {node other : Node} {inst : GraphInstance} (direction : Direction)
  (wf : ∀ name, (inst.readNode name).WF) (holds : node.Holds inst) (otherHolds : other.Holds inst)

include wf holds otherHolds

/-- An edge that is added, perhaps from a node to itself, leaves all half-edges
and adds at most its own two. -/
theorem Node.addEdge_between (name : String) (side : Direction) (target : String) :
    ((inst.readNode name).Present side target →
      ((node.addEdge direction other inst).2.2.2.readNode name).Present side target) ∧
    (((node.addEdge direction other inst).2.2.2.readNode name).Present side target →
      (inst.readNode name).Present side target ∨
        (name = node.name ∧ side = direction ∧ target = other.name) ∨
        (name = other.name ∧ side = direction.opposite ∧ target = node.name)) := by
  cases success : (node.addEdge direction other inst).1 with
  | false =>
      rw [Node.addEdge_of_false direction success]
      exact ⟨id, Or.inl⟩
  | true =>
      rw [(Node.addEdge_of_true direction success).2]
      have first := Node.addHalfEdge_present holds.initInfo (wf _) direction other.name
      generalize (node.addHalfEdge direction other.name inst).2.2 = middle at first ⊢
      -- The other object still has the record from before the first half.
      have stale : other.initInfo middle = inst.readNode other.name := by
        rw [Node.initInfo, otherHolds, Option.getD_some]
      have staleWF : (other.initInfo middle).WF := by
        rw [stale]
        exact wf _
      rcases Node.addHalfEdge_cases staleWF direction.opposite node.name with ⟨_, result⟩ |
        ⟨changed, _, advance, result⟩
      · rw [result]
        rw [first]
        exact ⟨Or.inl, fun found => found.imp_right Or.inl⟩
      · rw [result, readNode_writeRecord_node]
        split
        · rename_i same
          rw [advance.present, stale, same]
          refine ⟨Or.inl, fun found => found.imp_right fun isNew => Or.inr ⟨rfl, isNew⟩⟩
        · rw [first]
          exact ⟨Or.inl, fun found => found.imp_right Or.inl⟩

/-- An edge that is removed takes at most its own two half-edges away. -/
theorem Node.removeEdge_between (name : String) (side : Direction) (target : String) :
    (((node.removeEdge direction other inst).2.2.2.readNode name).Present side target →
      (inst.readNode name).Present side target) ∧
    ((inst.readNode name).Present side target →
      ¬ (name = node.name ∧ target = other.name) → ¬ (name = other.name ∧ target = node.name) →
      ((node.removeEdge direction other inst).2.2.2.readNode name).Present side target) := by
  cases success : (node.removeEdge direction other inst).1 with
  | false =>
      rw [Node.removeEdge_of_false direction success]
      exact ⟨id, fun found _ _ => found⟩
  | true =>
      rw [(Node.removeEdge_of_true direction success).2.2]
      have first := Node.removeHalfEdge_present holds.initInfo (wf _) direction other.name
      generalize (node.removeHalfEdge direction other.name inst).2.2 = middle at first ⊢
      have stale : other.initInfo middle = inst.readNode other.name := by
        rw [Node.initInfo, otherHolds, Option.getD_some]
      have staleWF : (other.initInfo middle).WF := by
        rw [stale]
        exact wf _
      rcases Node.removeHalfEdge_cases staleWF direction.opposite node.name with ⟨_, result⟩ |
        ⟨changed, _, advance, result⟩
      · rw [result, first]
        exact ⟨And.left, fun found notHere _ => ⟨found, fun here => notHere ⟨here.1, here.2.2⟩⟩⟩
      · rw [result, readNode_writeRecord_node]
        split
        · rename_i same
          rw [advance.present, stale, same]
          exact ⟨And.left, fun found _ notBack =>
            ⟨found, fun back => notBack ⟨rfl, back.2⟩⟩⟩
        · rw [first]
          exact ⟨And.left, fun found notHere _ => ⟨found, fun here => notHere ⟨here.1, here.2.2⟩⟩⟩

/-- After an edge was added it is there, whether or not it was before. -/
theorem Node.addEdge_joined :
    Joined (node.addEdge .forward other inst).2.2.2 node.name other.name := by
  cases success : (node.addEdge .forward other inst).1 with
  | false =>
      rw [Node.addEdge_of_false .forward success]
      have nodeWF : (node.initInfo inst).WF := by
        rw [holds.initInfo]
        exact wf _
      rcases Node.addHalfEdge_cases nodeWF .forward other.name with ⟨present, _⟩ |
        ⟨_, _, _, result⟩
      · rw [holds.initInfo] at present
        exact Or.inl present
      · unfold Node.addEdge at success
        rw [result] at success
        simp at success
  | true =>
      rw [(Node.addEdge_of_true .forward success).2]
      have first := Node.addHalfEdge_present holds.initInfo (wf _) .forward other.name
      generalize (node.addHalfEdge .forward other.name inst).2.2 = middle at first ⊢
      have stale : other.initInfo middle = inst.readNode other.name := by
        rw [Node.initInfo, otherHolds, Option.getD_some]
      have staleWF : (other.initInfo middle).WF := by
        rw [stale]
        exact wf _
      right
      rcases Node.addHalfEdge_cases staleWF .reverse node.name with ⟨present, result⟩ |
        ⟨changed, _, advance, result⟩
      · rw [stale] at present
        change ((other.addHalfEdge .reverse node.name middle).2.2.readNode
          other.name).Present .reverse node.name
        rw [result, first]
        exact Or.inl present
      · change ((other.addHalfEdge .reverse node.name middle).2.2.readNode
          other.name).Present .reverse node.name
        rw [result, readNode_writeRecord_node, if_pos rfl, advance.present]
        exact Or.inr ⟨rfl, rfl⟩

omit otherHolds in
theorem Node.addEdge_of_absent
    (absent : ¬ (inst.readNode node.name).Present direction other.name) :
    (node.addEdge direction other inst).1 = true := by
  rw [← holds.initInfo] at absent
  rcases Node.addHalfEdge_cases (by rw [holds.initInfo]; exact wf _) direction other.name with
    ⟨present, _⟩ | ⟨changed, _, _, result⟩
  · exact absurd present absent
  · unfold Node.addEdge
    rw [result]

/-- An edge that is added was not known at the node, and the node knows a
half-edge more afterwards. -/
theorem Node.addEdge_gains (success : (node.addEdge direction other inst).1 = true) :
    ¬ (inst.readNode node.name).Present direction other.name ∧
      ∃ side target, ¬ (inst.readNode node.name).Present side target ∧
        ((node.addEdge direction other inst).2.2.2.readNode node.name).Present side target := by
  obtain ⟨half, result⟩ := Node.addEdge_of_true direction success
  have absent : ¬ (inst.readNode node.name).Present direction other.name := by
    intro present
    rw [← holds.initInfo] at present
    rcases Node.addHalfEdge_cases (by rw [holds.initInfo]; exact wf _) direction other.name with
      ⟨_, refused⟩ | ⟨_, notPresent, _⟩
    · rw [refused] at half
      simp at half
    · exact notPresent present
  refine ⟨absent, ?_⟩
  by_cases self : node.name = other.name
  · have first := Node.addHalfEdge_present holds.initInfo (wf _) direction other.name
    rw [result]
    generalize (node.addHalfEdge direction other.name inst).2.2 = middle at first ⊢
    have stale : other.initInfo middle = inst.readNode node.name := by
      rw [Node.initInfo, otherHolds, Option.getD_some, self]
    -- The second half is written over the first one, unless it is there already.
    rcases Node.addHalfEdge_cases (by rw [stale]; exact wf _) direction.opposite node.name with
      ⟨_, kept⟩ | ⟨changed, notPresent, advance, written⟩
    · refine ⟨direction, other.name, absent, ?_⟩
      rw [kept]
      exact (first node.name direction other.name).mpr (Or.inr ⟨rfl, rfl, rfl⟩)
    · rw [stale] at notPresent
      refine ⟨direction.opposite, node.name, notPresent, ?_⟩
      rw [written, readNode_writeRecord_node, if_pos self, advance.present]
      exact Or.inr ⟨rfl, rfl⟩
  · refine ⟨direction, other.name, absent, ?_⟩
    rw [Node.addEdge_present direction wf holds otherHolds self success]
    exact Or.inr (Or.inl ⟨rfl, rfl, rfl⟩)

/-- When an edge is removed, the node knows a half-edge less afterwards. -/
theorem Node.removeEdge_loses (success : (node.removeEdge direction other inst).1 = true) :
    ∃ side target, (inst.readNode node.name).Present side target ∧
      ¬ ((node.removeEdge direction other inst).2.2.2.readNode node.name).Present
        side target := by
  obtain ⟨half, _, result⟩ := Node.removeEdge_of_true direction success
  have present : (inst.readNode node.name).Present direction other.name := by
    by_contra absent
    rw [← holds.initInfo] at absent
    rcases Node.removeHalfEdge_cases (by rw [holds.initInfo]; exact wf _) direction
      other.name with ⟨_, refused⟩ | ⟨_, isPresent, _⟩
    · rw [refused] at half
      simp at half
    · exact absent isPresent
  by_cases self : node.name = other.name
  · have first := Node.removeHalfEdge_present holds.initInfo (wf _) direction other.name
    rw [result]
    generalize (node.removeHalfEdge direction other.name inst).2.2 = middle at first ⊢
    have stale : other.initInfo middle = inst.readNode node.name := by
      rw [Node.initInfo, otherHolds, Option.getD_some, self]
    rcases Node.removeHalfEdge_cases (by rw [stale]; exact wf _) direction.opposite
      node.name with ⟨_, kept⟩ | ⟨changed, isPresent, advance, written⟩
    · refine ⟨direction, other.name, present, ?_⟩
      rw [kept, first]
      exact fun left => left.2 ⟨rfl, rfl, rfl⟩
    · rw [stale] at isPresent
      refine ⟨direction.opposite, node.name, isPresent, ?_⟩
      rw [written, readNode_writeRecord_node, if_pos self, advance.present]
      exact fun left => left.2 ⟨rfl, rfl⟩
  · refine ⟨direction, other.name, present, ?_⟩
    rw [Node.removeEdge_present direction wf holds otherHolds self success]
    exact fun left => left.1.2 ⟨rfl, rfl, rfl⟩

theorem Paired.addEdge (paired : Paired inst) :
    Paired (node.addEdge direction other inst).2.2.2 := by
  have between := Node.addEdge_between direction wf holds otherHolds
  intro name side target differ found
  rcases (between name side target).2 found with old | new
  · exact (between target side.opposite name).1 (paired name side target differ old)
  · by_cases self : node.name = other.name
    · rcases new with ⟨rfl, _, rfl⟩ | ⟨rfl, _, rfl⟩
      · exact absurd self differ
      · exact absurd self.symm differ
    · cases success : (node.addEdge direction other inst).1 with
      | false =>
          rw [Node.addEdge_of_false direction success] at found ⊢
          exact paired name side target differ found
      | true =>
          rw [Node.addEdge_present direction wf holds otherHolds self success]
          rcases new with ⟨rfl, rfl, rfl⟩ | ⟨rfl, rfl, rfl⟩
          · simp
          · simp

theorem Paired.removeEdge (paired : Paired inst) :
    Paired (node.removeEdge direction other inst).2.2.2 := by
  have between := Node.removeEdge_between direction wf holds otherHolds
  intro name side target differ found
  have old := (between name side target).1 found
  have back := paired name side target differ old
  by_cases self : node.name = other.name
  · refine (between target side.opposite name).2 back ?_ ?_
    · rintro ⟨rfl, rfl⟩
      exact differ self.symm
    · rintro ⟨rfl, rfl⟩
      exact differ self
  · cases success : (node.removeEdge direction other inst).1 with
    | false =>
        rw [Node.removeEdge_of_false direction success]
        exact back
    | true =>
        have present := Node.removeEdge_present direction wf holds otherHolds self success
        obtain ⟨⟨_, notForward⟩, notBack⟩ := (present name side target).mp found
        refine (present target side.opposite name).mpr ⟨⟨back, ?_⟩, ?_⟩
        · rintro ⟨rfl, rfl, rfl⟩
          exact notBack ⟨rfl, by simp, rfl⟩
        · rintro ⟨rfl, sameSide, rfl⟩
          refine notForward ⟨rfl, ?_, rfl⟩
          rw [← Direction.opposite_opposite side, sameSide, Direction.opposite_opposite]

end Edges

theorem Node.present_change {node : Node} {update : NodeInfo → Option NodeInfo}
    {inst : GraphInstance} (wf : (inst.readNode node.name).WF) (holds : node.Holds inst)
    (present : ∀ info changed, info.WF → update info = some changed →
      changed.Present = info.Present) (name : String) :
    ((node.change update inst).2.2.readNode name).Present = (inst.readNode name).Present := by
  by_cases own : name = node.name
  · subst own
    cases updated : update (node.initInfo inst) with
    | none => rw [Node.change_of_none updated]
    | some changed =>
        rw [Node.change_of_some updated, readNode_writeRecord_node, if_pos rfl]
        rw [holds.initInfo] at updated
        exact present _ changed wf updated
  · rw [Node.readNode_change_ne node update inst own]

section Detach

variable {base inst after : GraphInstance} {Good : String → NodeInfo → Prop}
  {node removed : Node} {version : Nat}
  (wfOf : ∀ name info, Good name info → info.WF) (closed : EdgeClosed Good)
  (working : Working base Good inst) (holds : node.Holds inst)
  (current : node.wantedVersion = none)
  (detached : node.detach version inst = some (removed, after))

include wfOf closed working holds current detached

theorem Node.detach_le (name : String) (side : Direction) (target : String)
    (found : (after.readNode name).Present side target) :
    name ≠ node.name ∧ (inst.readNode name).Present side target := by
  obtain ⟨_, _, _, _, own, others⟩ := Node.detach_edges wfOf closed working
    (holds.sound working) current detached
  have differs : name ≠ node.name := by
    rintro rfl
    exact own side target found
  exact ⟨differs, ((others name side target differs).mp found).1⟩

/-- No half-edge of or to a removed node is left. -/
theorem Node.detach_cleared (paired : Paired inst) (name : String) (side : Direction)
    (target : String) (found : (after.readNode name).Present side target) :
    name ≠ node.name ∧ target ≠ node.name := by
  obtain ⟨_, _, _, _, _, others⟩ := Node.detach_edges wfOf closed working
    (holds.sound working) current detached
  have differs := (Node.detach_le wfOf closed working holds current detached name side target
    found).1
  refine ⟨differs, ?_⟩
  rintro rfl
  obtain ⟨old, notNode⟩ := (others name side node.name differs).mp found
  rw [holds.initInfo] at notNode
  exact notNode ⟨rfl, paired name side node.name differs old⟩

theorem Paired.detach (paired : Paired inst) : Paired after := by
  obtain ⟨_, _, _, _, _, others⟩ := Node.detach_edges wfOf closed working
    (holds.sound working) current detached
  intro name side target differ found
  obtain ⟨nameDiffers, targetDiffers⟩ := Node.detach_cleared wfOf closed working holds current
    detached paired name side target found
  have old := ((others name side target nameDiffers).mp found).1
  refine (others target side.opposite name targetDiffers).mpr
    ⟨paired name side target differ old, ?_⟩
  exact fun same => nameDiffers same.1

end Detach

/-! ## The effect of a step -/

/-- What a step may do to a graph besides changing its roster. -/
inductive Effect where
  | still
  | links (source target : String)
  | tags (name : String)
  deriving DecidableEq

/-- The half-edges a step may add. -/
def Effect.Adds : Effect → String → Direction → String → Prop
  | .links source target, name, .forward, other => name = source ∧ other = target
  | .links source target, name, .reverse, other => name = target ∧ other = source
  | _, _, _, _ => False

theorem Effect.eq_links_of_adds_forward (effect : Effect) {source target : String}
    (adds : effect.Adds source .forward target) : effect = .links source target := by
  cases effect with
  | still => exact adds.elim
  | tags name => exact adds.elim
  | links first second =>
      obtain ⟨rfl, rfl⟩ := adds
      rfl

theorem Effect.eq_links_of_adds_reverse (effect : Effect) {source target : String}
    (adds : effect.Adds target .reverse source) : effect = .links source target := by
  cases effect with
  | still => exact adds.elim
  | tags name => exact adds.elim
  | links first second =>
      obtain ⟨rfl, rfl⟩ := adds
      rfl

/-- The node whose tags a step may change. -/
def Effect.Tags : Effect → String → Prop
  | .tags name, other => other = name
  | _, _ => False

/-- A record of a transaction that changes no tags. -/
structure TagsKept (base : GraphInstance) (name : String) (info : NodeInfo) : Prop where
  wf : info.WF
  tags : ∀ key, info.tagNow key = (base.readNode name).tagNow key

theorem TagsKept.edgeClosed (base : GraphInstance) : EdgeClosed (TagsKept base) where
  addEdge := fun _ _ _ _ _ kept added =>
    ⟨(NodeInfo.addEdge_advance kept.wf added).wf, fun key =>
      (NodeInfo.addEdge_tagNow kept.wf added key).trans (kept.tags key)⟩
  removeEdge := fun _ _ _ _ _ kept removed =>
    ⟨(NodeInfo.removeEdge_advance kept.wf removed).wf, fun key =>
      (NodeInfo.removeEdge_tagNow kept.wf removed key).trans (kept.tags key)⟩

structure Wired (base : GraphInstance) (effect : Effect) (after : GraphInstance) : Prop where
  bound : ∀ name side other, (after.readNode name).Present side other →
    (base.readNode name).Present side other ∨ effect.Adds name side other
  paired : Paired base → Paired after
  linked : ∀ source target, effect = .links source target → Joined after source target
  tags : ∀ name key, ¬ effect.Tags name →
    (after.readNode name).tagNow key = (base.readNode name).tagNow key

namespace Wired

variable {base inst after : GraphInstance} {effect : Effect}

theorem refl (base : GraphInstance) : Wired base .still base where
  bound := fun _ _ _ present => Or.inl present
  paired := id
  linked := by simp
  tags := fun _ _ _ => rfl

/-- `Wired` only looks at the edges and the tags. -/
theorem of_same {final : GraphInstance} (wired : Wired base effect after)
    (present : ∀ name, (final.readNode name).Present = (after.readNode name).Present)
    (tags : ∀ name key, (final.readNode name).tagNow key = (after.readNode name).tagNow key) :
    Wired base effect final where
  bound := by
    intro name side other
    rw [present]
    exact wired.bound name side other
  paired := fun paired => (wired.paired paired).of_present present
  linked := by
    intro source target links
    unfold Joined
    rw [present, present]
    exact wired.linked source target links
  tags := by
    intro name key untagged
    rw [tags]
    exact wired.tags name key untagged

/-- A change of one record that leaves its edges. -/
theorem change {node : Node} {update : NodeInfo → Option NodeInfo}
    (wf : (base.readNode node.name).WF) (holds : node.Holds base)
    (present : ∀ info changed, info.WF → update info = some changed →
      changed.Present = info.Present) :
    Wired base (.tags node.name) (node.change update base).2.2 := by
  have same := Node.present_change wf holds present
  refine ⟨?_, fun paired => paired.of_present same, by simp, ?_⟩
  · intro name side target found
    rw [same] at found
    exact Or.inl found
  · intro name key differs
    rw [Node.readNode_change_ne node update base differs]

section Edges

variable {node other : Node} {direction : Direction} (working : Working base (TagsKept base) inst)
  (holds : node.Holds inst) (otherHolds : other.Holds inst)

include working holds otherHolds

theorem addEdge (wired : Wired base .still inst) :
    Wired base (.links node.name other.name) (node.addEdge .forward other inst).2.2.2 where
  bound := by
    intro name side target found
    rcases (Node.addEdge_between .forward (fun name => (working.good name).wf) holds otherHolds
      name side target).2 found with old | ⟨rfl, rfl, rfl⟩ | ⟨rfl, rfl, rfl⟩
    · exact Or.inl ((wired.bound name side target old).resolve_right not_false)
    · exact Or.inr ⟨rfl, rfl⟩
    · exact Or.inr ⟨rfl, rfl⟩
  paired := fun paired => (wired.paired paired).addEdge .forward
    (fun name => (working.good name).wf) holds otherHolds
  linked := by
    rintro source target ⟨⟩
    exact Node.addEdge_joined (fun name => (working.good name).wf) holds otherHolds
  tags := fun name key _ => ((Node.addEdge_working (TagsKept.edgeClosed base) .forward working
    (holds.sound working) (otherHolds.sound working)).1.good name).tags key

theorem removeEdge (wired : Wired base .still inst) :
    Wired base .still (node.removeEdge direction other inst).2.2.2 where
  bound := by
    intro name side target found
    exact wired.bound name side target ((Node.removeEdge_between direction
      (fun name => (working.good name).wf) holds otherHolds name side target).1 found)
  paired := fun paired => (wired.paired paired).removeEdge direction
    (fun name => (working.good name).wf) holds otherHolds
  linked := by simp
  tags := fun name key _ => ((Node.removeEdge_working (TagsKept.edgeClosed base) direction working
    (holds.sound working) (otherHolds.sound working)).1.good name).tags key

end Edges

theorem detach {node removed : Node} {version : Nat}
    (working : Working base (TagsKept base) inst) (holds : node.Holds inst)
    (current : node.wantedVersion = none)
    (detached : node.detach version inst = some (removed, after))
    (wired : Wired base .still inst) : Wired base .still after where
  bound := fun name side target found => wired.bound name side target
    (Node.detach_le (fun _ _ kept => kept.wf) (TagsKept.edgeClosed base) working holds current
      detached name side target found).2
  paired := fun paired => (wired.paired paired).detach (fun _ _ kept => kept.wf)
    (TagsKept.edgeClosed base) working holds current detached
  linked := by simp
  tags := fun name key _ => ((Node.detach_working (TagsKept.edgeClosed base) working
    (holds.sound working) detached).1.good name).tags key

end Wired

end Rangexx
