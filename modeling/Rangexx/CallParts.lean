import Rangexx.GraphStep
import Rangexx.CallScopes

/-!
# The parts of a write call

What the guards and the changes that the write calls are made of do to a world
whose graphs were just opened, when they return.
-/

namespace Rangexx

open StateProgram

/-- The change gives a stored name that is not live a new meaning. -/
def Revives (base : GraphInstance) (change : Roster.Change String NodeType) : Prop :=
  match change with
  | .ensure name _ => ¬ base.Live name ∧ (base.readNode name).listVersion ≠ 0
  | _ => False

instance (base : GraphInstance) (change : Roster.Change String NodeType) :
    Decidable (Revives base change) := by
  unfold Revives
  split
  · exact inferInstanceAs (Decidable (_ ∧ _))
  · exact inferInstanceAs (Decidable False)

section Mono

variable {base : GraphInstance} {change : Roster.Change String NodeType} {effect : Effect}
  {fresh apart fresh' apart' : Prop}

theorem GraphStep.mono {after : GraphInstance}
    (step : GraphStep base change effect fresh apart after) (freshly : fresh' → fresh)
    (apartly : apart' → apart) : GraphStep base change effect fresh' apart' after where
  committed := step.committed
  past := step.past
  roster := step.roster
  wired := step.wired
  cleared := step.cleared
  unrevived := fun isFresh => step.unrevived (freshly isFresh)
  balanced := fun isApart => step.balanced (apartly isApart)
  written := step.written

theorem Ending.mono {graph : GraphDB} (ending : Ending base change effect fresh apart graph)
    (freshly : fresh' → fresh) (apartly : apart' → apart) :
    Ending base change effect fresh' apart' graph :=
  ⟨ending.step.mono freshly apartly, ending.version⟩

end Mono

namespace GraphDB

theorem getNode_eq_some {inst : GraphInstance} (committed : Committed inst) {name : String}
    {node : Node} (found : (ofInstance inst).getNode name = some node) :
    inst.Live name ∧ node = Node.loaded inst name := by
  rw [getNode_ofInstance committed] at found
  split at found
  · rename_i live
    exact ⟨live, (Option.some.inj found).symm⟩
  · simp at found

theorem getNode_eq_none {inst : GraphInstance} (committed : Committed inst) {name : String}
    (found : (ofInstance inst).getNode name = none) : ¬ inst.Live name := by
  rw [getNode_ofInstance committed] at found
  split at found
  · simp at found
  · assumption

theorem roster_eq_some {inst : GraphInstance} (committed : Committed inst) {name : String}
    (live : inst.Live name) :
    (ofInstance inst).roster name = some (inst.readNode name).nodeType := by
  rw [roster_ofInstance committed, if_pos live]

end GraphDB

namespace RangeApi

open Api

variable {Value : Type} {world after : World}

/-! ## Guards -/

theorem requireNode_ok {graph : GraphName} {name : String} {error : ApiError} {node : Node}
    (returned : requireNode graph name error world = (.ok node, after)) :
    after = world ∧ (world.graph graph).getNode name = some node := by
  unfold requireNode at returned
  rw [Api.getNode, read_bind] at returned
  cases isFound : (world.graph graph).getNode name with
  | none =>
      rw [isFound] at returned
      simp at returned
  | some found =>
      rw [isFound] at returned
      obtain ⟨same, rfl⟩ := Prod.mk.inj returned
      exact ⟨rfl, congrArg some (Except.ok.inj same)⟩

theorem requireType_ok {graph : GraphName} {node : Node} {expected : NodeType} {name : String}
    (returned : requireType graph node expected name world = (.ok (), after)) :
    after = world ∧ node.type (world.graph graph).inst = expected := by
  unfold requireType at returned
  rw [nodeType, read_bind] at returned
  split at returned
  · simp at returned
  · rename_i same
    rw [pure_apply] at returned
    exact ⟨(Prod.mk.inj returned).2.symm, not_not.mp same⟩

theorem requireNode_of_some {graph : GraphName} {name : String} {error : ApiError} {node : Node}
    (found : (world.graph graph).getNode name = some node) :
    requireNode graph name error world = (.ok node, world) := by
  rw [requireNode, Api.getNode, read_bind, found]
  rfl

theorem requireNode_of_none {graph : GraphName} {name : String} {error : ApiError}
    (missing : (world.graph graph).getNode name = none) :
    requireNode graph name error world = (.error error, world) := by
  rw [requireNode, Api.getNode, read_bind, missing]
  rfl

theorem requireType_of_eq {graph : GraphName} {node : Node} {expected : NodeType} {name : String}
    (same : node.type (world.graph graph).inst = expected) :
    requireType graph node expected name world = (.ok (), world) := by
  rw [requireType, nodeType, read_bind, if_neg (not_not.mpr same)]
  rfl

theorem requireType_of_ne {graph : GraphName} {node : Node} {expected : NodeType} {name : String}
    (differs : node.type (world.graph graph).inst ≠ expected) :
    requireType graph node expected name world =
      (.error (incorrectType name (node.type (world.graph graph).inst) expected), world) := by
  rw [requireType, nodeType, read_bind, if_pos differs]
  rfl

theorem requireTypeIfFound_ok {graph : GraphName} {found : Option Node} {expected : NodeType}
    {name : String}
    (returned : requireTypeIfFound graph found expected name world = (.ok (), after)) :
    after = world ∧ ∀ node, found = some node → node.type (world.graph graph).inst = expected := by
  cases found with
  | none =>
      rw [requireTypeIfFound, pure_apply] at returned
      exact ⟨(Prod.mk.inj returned).2.symm, by simp⟩
  | some node =>
      have checked := requireType_ok returned
      refine ⟨checked.1, ?_⟩
      rintro _ ⟨⟩
      exact checked.2

theorem orThrow_ok {result : Bool} {error : ApiError}
    (returned : orThrow result error world = (.ok (), after)) :
    after = world ∧ result = true := by
  unfold orThrow at returned
  split at returned
  · rename_i isTrue
    rw [pure_apply] at returned
    exact ⟨(Prod.mk.inj returned).2.symm, isTrue⟩
  · simp at returned

theorem withRangeTxn_ok {request : Request} {body : Api Value} {value : Value}
    (returned : withRangeTxn request body world = (.ok value, after)) :
    ∃ middle, body world = (.ok value, middle) ∧
      after = (middle.appendTxn request).addNewRangeVersion := by
  unfold withRangeTxn at returned
  cases outcome : body world with
  | mk result middle =>
      rw [outcome] at returned
      cases result with
      | ok found =>
          obtain ⟨same, rfl⟩ := Prod.mk.inj returned
          exact ⟨middle, by rw [Except.ok.inj same], rfl⟩
      | error error => simp at returned

theorem withRangeTxn_returns {request : Request} {body : Api Value} {value : Value}
    {middle : World} (returned : body world = (.ok value, middle)) :
    withRangeTxn request body world =
      (.ok value, (middle.appendTxn request).addNewRangeVersion) := by
  unfold withRangeTxn
  rw [returned]

/-! ## Creations -/

section Creation

variable {base : GraphInstance} {graph : GraphName} {name : String} {type : NodeType}

theorem onGraph_apply (function : GraphDB → Value × GraphDB) :
    onGraph graph function world = (.ok (function (world.graph graph)).1,
      world.setGraph graph (function (world.graph graph)).2) :=
  rfl

theorem createTyped_of_live (committed : Committed base)
    (opened : world.graph graph = .ofInstance base) (live : base.Live name) :
    createTyped graph name type world = (.error (.createNode name), world) := by
  have refused : create graph name world = (.ok none, world) := by
    rw [create, onGraph_apply, opened, GraphDB.create_of_live committed live, ← opened,
      World.setGraph_graph]
  unfold createTyped
  rw [bind_of_ok refused]
  rfl

theorem createTyped_of_absent (committed : Committed base)
    (opened : world.graph graph = .ofInstance base) (absent : ¬ base.Live name)
    (type : NodeType) : ∃ inst, createTyped graph name type world =
        (.ok (Node.loaded inst name), world.setGraph graph (.ofInstance inst)) ∧
      ∀ floor, (floor ≤ base.changelist.currentVersion ∨
        floor = base.changelist.currentVersion + 1 ∧ (base.readNode name).listVersion = 0) →
        GraphDB.CreatedNode base floor name type inst := by
  obtain ⟨node, middle, inst, created, typed, facts⟩ :=
    GraphDB.setType_create committed absent type
  refine ⟨inst, ?_, facts⟩
  have accepted : create graph name world = (.ok (some node), world.setGraph graph middle) := by
    rw [create, onGraph_apply, opened, created]
  unfold createTyped
  rw [bind_of_ok accepted]
  dsimp only
  rw [setType, onGraph_apply, World.graph_setGraph, typed]
  cases graph <;> rfl

theorem not_revives_ensure (absent : ¬ base.Live name)
    (fresh : ¬ Revives base (.ensure name type)) : (base.readNode name).listVersion = 0 := by
  by_contra stored
  exact fresh ⟨absent, stored⟩

/-- Fetch or create a node and link it to a live one. -/
theorem attach_ok {parent : String} {node : Node} {middle : World} {result : Bool}
    (committed : Committed base) (opened : world.primary = .ofInstance base)
    (parentLive : base.Live parent)
    (first : foundOrCreated .primary ((GraphDB.ofInstance base).getNode name) name type world =
      (.ok node, middle))
    (second : addForwardEdge .primary (Node.loaded base parent) node middle =
      (.ok result, after)) :
    Ending base (.ensure name type) (.links parent name)
        (¬ Revives base (.ensure name type)) (parent ≠ name) after.primary ∧
      after = { world with primary := after.primary } := by
  cases isFound : (GraphDB.ofInstance base).getNode name with
  | some found =>
      obtain ⟨live, rfl⟩ := GraphDB.getNode_eq_some committed isFound
      rw [isFound, foundOrCreated, pure_apply] at first
      obtain ⟨sameNode, rfl⟩ := Prod.mk.inj first
      rw [← Except.ok.inj sameNode, addForwardEdge, onGraph_apply] at second
      obtain ⟨_, rfl⟩ := Prod.mk.inj second
      refine ⟨?_, rfl⟩
      change Ending base _ _ _ _ (world.primary.addForwardEdge _ _).2
      rw [opened]
      have holds := Node.loaded_holds base
      refine Ending.of_edit committed
        ((Edit.refl committed).addEdge .forward (holds parent) (holds name)) rfl
        (Node.addEdge_outcome _ _ _ _) ?_
        ((Wired.refl base).addEdge committed.tagsKept (holds parent) (holds name))
        (by simp) ?_
      · apply Roster.Change.apply_ensure_of_isSome
        rw [GraphDB.roster_eq_some committed live]
        rfl
      · intro differ balanced
        exact balanced.addEdge .forward committed.wf (holds parent) (holds name) differ
  | none =>
      have absent := GraphDB.getNode_eq_none committed isFound
      obtain ⟨inst, created, facts⟩ := createTyped_of_absent committed
        (show world.graph .primary = .ofInstance base from opened) absent type
      rw [isFound, foundOrCreated, created] at first
      obtain ⟨sameNode, rfl⟩ := Prod.mk.inj first
      rw [← Except.ok.inj sameNode, addForwardEdge, onGraph_apply] at second
      obtain ⟨_, rfl⟩ := Prod.mk.inj second
      refine ⟨?_, rfl⟩
      exact (Ending.created_linked committed absent parentLive facts).mono
        (not_revives_ensure absent) fun _ => trivial

theorem createIfMissing_ok (committed : Committed base)
    (opened : world.dependency = .ofInstance base)
    (returned : createIfMissing .dependency name type world = (.ok (), after)) :
    Ending base (.ensure name type) .still (¬ Revives base (.ensure name type)) True
        after.dependency ∧
      after = { world with dependency := after.dependency } := by
  unfold createIfMissing at returned
  rw [Api.getNode, read_bind] at returned
  rw [show world.graph .dependency = .ofInstance base from opened] at returned
  cases isFound : (GraphDB.ofInstance base).getNode name with
  | some found =>
      have live := (GraphDB.getNode_eq_some committed isFound).1
      rw [isFound] at returned
      obtain ⟨_, rfl⟩ := Prod.mk.inj returned
      refine ⟨Ending.unchanged committed (by rw [opened]; rfl) ?_ (Wired.refl base)
        (.of_keeps (by simp)), rfl⟩
      apply Roster.Change.apply_ensure_of_isSome
      rw [GraphDB.roster_eq_some committed live]
      rfl
  | none =>
      have absent := GraphDB.getNode_eq_none committed isFound
      obtain ⟨node, middle, inst, created, typed, facts⟩ :=
        GraphDB.setType_create committed absent type
      have accepted : create .dependency name world =
          (.ok (some node), world.setGraph .dependency middle) := by
        rw [create, onGraph_apply]
        change (Except.ok (world.dependency.create name).1, world.setGraph .dependency
          (world.dependency.create name).2) = _
        rw [opened, created]
      rw [isFound] at returned
      dsimp only at returned
      rw [bind_of_ok accepted] at returned
      dsimp only at returned
      rw [setType, bind_of_ok (onGraph_apply _), World.graph_setGraph, typed] at returned
      obtain ⟨_, rfl⟩ := Prod.mk.inj returned
      refine ⟨?_, rfl⟩
      exact (Ending.created committed absent facts).mono (not_revives_ensure absent) id

theorem foundOrCreated_returns (committed : Committed base)
    (opened : world.graph graph = .ofInstance base) (name : String) (type : NodeType) :
    ∃ node after, foundOrCreated graph ((world.graph graph).getNode name) name type world =
      (.ok node, after) := by
  rw [opened]
  cases isFound : (GraphDB.ofInstance base).getNode name with
  | some node => exact ⟨node, world, rfl⟩
  | none =>
      obtain ⟨inst, created, _⟩ := createTyped_of_absent committed opened
        (GraphDB.getNode_eq_none committed isFound) type
      exact ⟨_, _, created⟩

theorem createIfMissing_returns (graph : GraphName) (name : String) (type : NodeType)
    (world : World) : ∃ after, createIfMissing graph name type world = (.ok (), after) := by
  unfold createIfMissing
  rw [Api.getNode, read_bind]
  cases (world.graph graph).getNode name with
  | some node => exact ⟨_, rfl⟩
  | none =>
      dsimp only
      rw [create, bind_of_ok (onGraph_apply _)]
      cases ((world.graph graph).create name).1 with
      | none => exact ⟨_, rfl⟩
      | some node => exact ⟨_, rfl⟩

end Creation

/-! ## Removals -/

section Removal

variable {base : GraphInstance} {graph : GraphName} {name : String}

/-- The removed object and the graph after its edges were taken away. -/
structure Detached (base : GraphInstance) (name : String) (removed : Node)
    (inst : GraphInstance) : Prop where
  sameName : removed.name = name
  current : removed.wantedVersion = none
  holds : removed.Holds inst
  edit : Edit base inst
  touched : inst.Touched
  balanced : Balanced base → Balanced inst
  tagsKept : Working base (TagsKept base) inst
  wired : Wired base .still inst
  cleared : Cleared base (.erase name) inst

/-- One more removal of the same object. -/
theorem detached_of_detach {node removed : Node} {version : Nat} {inst after : GraphInstance}
    (sameName : node.name = name) (current : node.wantedVersion = none)
    (holds : node.Holds inst) (edit : Edit base inst) (balanced : Balanced base → Balanced inst)
    (tagsKept : Working base (TagsKept base) inst) (wired : Wired base .still inst)
    (detached : node.detach version inst = some (removed, after)) :
    Detached base name removed after := by
  have wfOf : ∀ other info, Drafted base 0 base.Live
      (fun name => (base.readNode name).nodeType) other info → info.WF :=
    fun _ _ drafted => drafted.derived.wf
  have closed := Drafted.edgeClosed base 0 base.Live fun name => (base.readNode name).nodeType
  obtain ⟨stillName, stillCurrent, touched, stillHolds, _⟩ :=
    Node.detach_edges wfOf closed (edit 0) (holds.sound (edit 0)) current detached
  exact
    { sameName := stillName.trans sameName
      current := stillCurrent
      holds := stillHolds
      edit := edit.detach holds detached
      touched := touched
      balanced := fun isBalanced =>
        (balanced isBalanced).detach wfOf closed (edit 0) holds current detached
      tagsKept := (Node.detach_working (TagsKept.edgeClosed base) tagsKept
        (holds.sound tagsKept) detached).1
      wired := wired.detach tagsKept holds current detached
      cleared := by
        rintro erased ⟨⟩ paired other side target found
        rw [← sameName]
        exact Node.detach_cleared wfOf closed (edit 0) holds current detached
          (wired.paired paired) other side target found }

theorem detach_loaded (committed : Committed base) (live : base.Live name) :
    ∃ removed inst, (Node.loaded base name).detach base.version base = some (removed, inst) ∧
      Detached base name removed inst := by
  have found : AscendingScan.scan base.version (base.readNode name).graphVersions = .equal := by
    rw [committed.version_eq]
    exact (AscendingScan.scan_eq_equal_iff (committed.wf name).graphVersions).mpr live
  have holds := Node.loaded_holds base name
  cases detached : (Node.loaded base name).detach base.version base with
  | none =>
      unfold Node.detach at detached
      dsimp only at detached
      rw [holds.initInfo, if_neg (by
        change ¬ AscendingScan.scan base.version (base.readNode name).graphVersions = _
        rw [found]
        simp)] at detached
      simp at detached
  | some result =>
      obtain ⟨removed, inst⟩ := result
      exact ⟨removed, inst, rfl, detached_of_detach rfl rfl holds (Edit.refl committed) id
        committed.tagsKept (Wired.refl base) detached⟩

end Removal

end RangeApi

end Rangexx
