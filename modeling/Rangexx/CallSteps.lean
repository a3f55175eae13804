import Rangexx.NameResolution

/-!
# Steps of the store

What every write call that returns does to the two graphs and to the range
changelist.
-/

namespace Rangexx

open StateProgram

/-- The nodes a newly opened graph finds, with their types. -/
def World.roster (world : World) (graph : GraphName) : Roster String NodeType :=
  (GraphDB.ofInstance (world.graph graph).inst).roster

/-- A call that returned. -/
structure CallStep (world : World) (change : GraphName → Roster.Change String NodeType)
    (effect : GraphName → Effect) (apart : GraphName → Prop) (after : World) : Prop where
  graphs : ∀ name, GraphStep (world.graph name).inst (change name) (effect name)
    (¬ Revives (world.graph name).inst (change name)) (apart name) (after.graph name).inst
  unlocked : after.saved = none
  recorded : after.rangeChanges =
    ⟨world.rangeChanges.currentVersion + 1, world.rangeChanges.change ++
      [⟨world.now, [⟨.primary, after.primary.inst.changelist.currentVersion⟩,
        ⟨.dependency, after.dependency.inst.changelist.currentVersion⟩]⟩]⟩
  grounded : (∃ graph name, (world.graph graph).inst.Live name) ∨
    0 < after.primary.inst.changelist.currentVersion

/-- The same change of both graphs. -/
def onBoth (change : Roster.Change String NodeType) : GraphName → Roster.Change String NodeType :=
  fun _ => change

/-- A change of the primary graph. -/
def onPrimary (change : Roster.Change String NodeType) :
    GraphName → Roster.Change String NodeType
  | .primary => change
  | .dependency => .keep

/-- An effect on one of the graphs. -/
def Effect.onlyIn (graph : GraphName) (effect : Effect) (name : GraphName) : Effect :=
  if name = graph then effect else .still

/-- No effect besides the change of the rosters. -/
def quietly : GraphName → Effect :=
  fun _ => .still

@[simp]
theorem Effect.onlyIn_still (graph : GraphName) : Effect.still.onlyIn graph = quietly := by
  funext name
  simp [onlyIn, quietly]

theorem Effect.onlyIn_eq_links {effect : Effect} {graph name : GraphName}
    {source target : String} (links : effect.onlyIn graph name = .links source target) :
    name = graph ∧ effect = .links source target := by
  unfold onlyIn at links
  split at links
  · rename_i same
    exact ⟨same, links⟩
  · simp at links

/-- The end of a transaction for the graph of that name in `world`. -/
def EndingOf (world : World) (change : GraphName → Roster.Change String NodeType)
    (effect : GraphName → Effect) (apart : GraphName → Prop) (middle : World)
    (name : GraphName) : Prop :=
  Ending (world.graph name).inst (change name) (effect name)
    (¬ Revives (world.graph name).inst (change name)) (apart name) (middle.graph name)

section Closing

variable {world middle : World} {change : GraphName → Roster.Change String NodeType}
  {effect : GraphName → Effect} {apart : GraphName → Prop}

theorem CallStep.both (request : Request)
    (endings : ∀ name, EndingOf world change effect apart middle name)
    (ranges : middle.rangeChanges = world.rangeChanges) (now : middle.now = world.now)
    (live : ∃ graph name, (world.graph graph).inst.Live name) :
    CallStep world change effect apart
      (world.closedBoth (middle.appendTxn request).addNewRangeVersion) where
  graphs := by
    intro name
    cases name with
    | primary => exact (endings .primary).step
    | dependency => exact (endings .dependency).step
  unlocked := rfl
  recorded := by
    have primary : middle.primary.version = _ := (endings .primary).version
    have dependency : middle.dependency.version = _ := (endings .dependency).version
    change (⟨middle.rangeChanges.currentVersion + 1, middle.rangeChanges.change ++
      [⟨middle.now, [⟨.primary, middle.primary.version⟩,
        ⟨.dependency, middle.dependency.version⟩]⟩]⟩ : ChangeList RangeChange) = _
    rw [ranges, now, primary, dependency]
    rfl
  grounded := Or.inl live

theorem CallStep.one (request : Request) {graph : GraphName} (quiet : world.Quiet)
    (ending : EndingOf world change effect apart middle graph)
    (others : ∀ name, name ≠ graph →
      change name = .keep ∧ effect name = .still ∧
        (middle.graph name).inst = (world.graph name).inst)
    (ranges : middle.rangeChanges = world.rangeChanges) (now : middle.now = world.now)
    (live : ∃ graph name, (world.graph graph).inst.Live name) :
    CallStep world change effect apart
      (world.closed (middle.appendTxn request).addNewRangeVersion graph) := by
  have untouched : ∀ name, name ≠ graph → GraphStep (world.graph name).inst (change name)
      (effect name) (¬ Revives (world.graph name).inst (change name)) (apart name)
        (middle.graph name).inst := by
    intro name differs
    obtain ⟨keeps, still, same⟩ := others name differs
    rw [keeps, still, same]
    exact GraphStep.unchanged (quiet.graph name) rfl (Wired.refl _) (.of_keeps (by simp))
  have untouchedVersion : ∀ name, name ≠ graph →
      (middle.graph name).version = (middle.graph name).inst.changelist.currentVersion := by
    intro name differs
    rw [GraphDB.version, (others name differs).2.2]
    exact (quiet.graph name).version_eq
  have version : (middle.graph graph).version = _ := ending.version
  cases graph with
  | primary =>
      have dependency := untouchedVersion .dependency (by simp)
      refine ⟨?_, rfl, ?_, Or.inl live⟩
      · intro name
        cases name with
        | primary => exact ending.step
        | dependency => exact untouched .dependency (by simp)
      · change (⟨middle.rangeChanges.currentVersion + 1, middle.rangeChanges.change ++
          [⟨middle.now, [⟨.primary, (middle.graph .primary).version⟩,
            ⟨.dependency, (middle.graph .dependency).version⟩]⟩]⟩ : ChangeList RangeChange) = _
        rw [ranges, now, version, dependency]
        rfl
  | dependency =>
      have primary := untouchedVersion .primary (by simp)
      refine ⟨?_, rfl, ?_, Or.inl live⟩
      · intro name
        cases name with
        | primary => exact untouched .primary (by simp)
        | dependency => exact ending.step
      · change (⟨middle.rangeChanges.currentVersion + 1, middle.rangeChanges.change ++
          [⟨middle.now, [⟨.primary, (middle.graph .primary).version⟩,
            ⟨.dependency, (middle.graph .dependency).version⟩]⟩]⟩ : ChangeList RangeChange) = _
        rw [ranges, now, version, primary]
        rfl

theorem CallStep.mono {apart' : GraphName → Prop} {after : World}
    (step : CallStep world change effect apart after)
    (apartly : ∀ name, apart' name → apart name) : CallStep world change effect apart' after where
  graphs := fun name => (step.graphs name).mono id (apartly name)
  unlocked := step.unlocked
  recorded := step.recorded
  grounded := step.grounded

end Closing

namespace RangeApi

open Api

variable {Value : Type} {world after : World}

/-! ## Opening the graphs -/

theorem inBothTxns_ok {body : Api Value} {value : Value} (quiet : world.Quiet)
    (returned : inBothTxns body world = (.ok value, after)) :
    ∃ middle, body world.openedBoth = (.ok value, middle) ∧ after = world.closedBoth middle := by
  rw [inBothTxns_apply quiet.saved] at returned
  cases outcome : body world.openedBoth with
  | mk result middle =>
      rw [outcome] at returned
      cases result with
      | ok found =>
          obtain ⟨same, rfl⟩ := Prod.mk.inj returned
          exact ⟨middle, by rw [Except.ok.inj same], rfl⟩
      | error error => simp at returned

theorem inTxn_ok {graph : GraphName} {body : Api Value} {value : Value} (quiet : world.Quiet)
    (returned : inTxn graph body world = (.ok value, after)) :
    ∃ middle, body (world.opened graph) = (.ok value, middle) ∧
      after = world.closed middle graph := by
  rw [inTxn_apply quiet.saved] at returned
  cases outcome : body (world.opened graph) with
  | mk result middle =>
      rw [outcome] at returned
      cases result with
      | ok found =>
          obtain ⟨same, rfl⟩ := Prod.mk.inj returned
          exact ⟨middle, by rw [Except.ok.inj same], rfl⟩
      | error error => simp at returned

/-- Pass a part of a program that leaves the world alone. -/
theorem pass {Result : Type} {program : Api Value} {next : Value → Api Result}
    {holds : Value → Prop} {result : Result}
    (keeps : ∀ value middle, program world = (.ok value, middle) →
      middle = world ∧ holds value)
    (returned : (program >>= next) world = (.ok result, after)) :
    ∃ value, holds value ∧ next value world = (.ok result, after) := by
  obtain ⟨value, middle, first, rest⟩ := bind_eq_ok.mp returned
  obtain ⟨same, isSo⟩ := keeps value middle first
  rw [same] at rest
  exact ⟨value, isSo, rest⟩

/-- The common form of `requireNode` in an opened world. -/
theorem requireNode_live {base : GraphInstance} {graph : GraphName} {name : String}
    {error : ApiError} {node : Node} (committed : Committed base)
    (opened : world.graph graph = .ofInstance base)
    (returned : requireNode graph name error world = (.ok node, after)) :
    after = world ∧ base.Live name ∧ node = Node.loaded base name := by
  obtain ⟨same, found⟩ := requireNode_ok returned
  rw [opened] at found
  exact ⟨same, GraphDB.getNode_eq_some committed found⟩

/-! ## Calls that attach a node -/

theorem requireClusterIfFound_ok {env : Node} {found : Option Node} {clusterName : String}
    (returned : requireClusterIfFound env found clusterName world = (.ok (), after)) :
    after = world ∧ ∀ node, found = some node → node.type world.primary.inst = .cluster := by
  cases found with
  | none =>
      rw [requireClusterIfFound, pure_apply] at returned
      exact ⟨(Prod.mk.inj returned).2.symm, by simp⟩
  | some node =>
      rw [requireClusterIfFound, nodeType, read_bind, nodeType, read_bind] at returned
      split at returned
      · simp at returned
      · rename_i same
        rw [pure_apply] at returned
        refine ⟨(Prod.mk.inj returned).2.symm, ?_⟩
        rintro _ ⟨⟩
        exact not_not.mp same

/-- What a call checks before it links a node of that name to a parent. -/
structure Linkable (world : World) (parent : String) (parentType : NodeType) (name : String)
    (type : NodeType) : Prop where
  parent : world.roster .primary parent = some parentType
  child : ∀ found, world.roster .primary name = some found → found = type

theorem linkable_of_checked {parent name : String} {parentType type : NodeType}
    (quiet : world.Quiet) (parentLive : world.primary.inst.Live parent)
    (isParent : (Node.loaded world.primary.inst parent).type world.primary.inst = parentType)
    (isChild : ∀ node, (GraphDB.ofInstance world.primary.inst).getNode name = some node →
      node.type world.primary.inst = type) : Linkable world parent parentType name type where
  parent := (GraphDB.roster_eq_some quiet.primary parentLive).trans (congrArg some isParent)
  child := by
    intro found isFound
    obtain ⟨node, fetched, rfl⟩ := Option.map_eq_some_iff.mp isFound
    exact isChild node fetched

/-- A call that linked a node, created if need be, to a parent: the two graphs
as it left them to the end of its transactions, and whether the edge was new. -/
def Attaches (world : World) (parent name : String) (type : NodeType) (added : Bool)
    (request : Request) (after : World) : Prop :=
  world.primary.inst.Live parent ∧ ∃ node first second third,
    foundOrCreated .primary ((GraphDB.ofInstance world.primary.inst).getNode name) name type
      world.openedBoth = (.ok node, first) ∧
    addForwardEdge .primary (Node.loaded world.primary.inst parent) node first =
      (.ok added, second) ∧
    createIfMissing .dependency name type second = (.ok (), third) ∧
    after = world.closedBoth (third.appendTxn request).addNewRangeVersion

theorem Attaches.step {parent name : String} {type : NodeType} {added : Bool}
    {request : Request} (quiet : world.Quiet)
    (attaches : Attaches world parent name type added request after) :
    CallStep world (onBoth (.ensure name type)) (Effect.onlyIn .primary (.links parent name))
      (fun graph => graph = .primary → parent ≠ name) after := by
  obtain ⟨parentLive, node, first, second, third, fetched, linked, ensured, rfl⟩ := attaches
  obtain ⟨primary, onlyPrimary⟩ := attach_ok quiet.primary rfl parentLive fetched linked
  have opened : second.dependency = .ofInstance world.dependency.inst := by
    rw [onlyPrimary]
    rfl
  obtain ⟨dependency, onlyDependency⟩ := createIfMissing_ok quiet.dependency opened ensured
  have samePrimary : third.primary = second.primary := by rw [onlyDependency]
  apply CallStep.both request
  · intro graph
    cases graph with
    | primary =>
        change Ending _ _ _ _ _ third.primary
        rw [samePrimary]
        exact primary.mono id fun differ => differ rfl
    | dependency => exact dependency.mono id fun _ => trivial
  · rw [onlyDependency, onlyPrimary]
    rfl
  · rw [onlyDependency, onlyPrimary]
    rfl
  · exact ⟨.primary, parent, parentLive⟩

/-- A call that links a stored node to a parent adds the edge to the graph as
it was. -/
theorem Attaches.of_live {parent name : String} {type : NodeType} {added : Bool}
    {request : Request} (quiet : world.Quiet)
    (attaches : Attaches world parent name type added request after)
    (live : world.primary.inst.Live name) :
    ((Node.loaded world.primary.inst parent).addEdge .forward
        (Node.loaded world.primary.inst name) world.primary.inst).1 = added ∧
      after.primary.inst = ((GraphDB.ofInstance ((Node.loaded world.primary.inst parent).addEdge
        .forward (Node.loaded world.primary.inst name)
          world.primary.inst).2.2.2).endTxn world.primary.version false).inst := by
  obtain ⟨_, node, first, second, third, fetched, linked, ensured, rfl⟩ := attaches
  rw [GraphDB.getNode_ofInstance quiet.primary, if_pos live, foundOrCreated, pure_apply]
    at fetched
  obtain ⟨sameNode, rfl⟩ := Prod.mk.inj fetched
  rw [← Except.ok.inj sameNode, addForwardEdge, onGraph_apply] at linked
  obtain ⟨success, rfl⟩ := Prod.mk.inj linked
  obtain ⟨-, onlyDependency⟩ := createIfMissing_ok quiet.dependency rfl ensured
  have samePrimary := congrArg World.primary onlyDependency
  refine ⟨Except.ok.inj success, ?_⟩
  change (third.primary.endTxn world.primary.version false).inst = _
  rw [samePrimary]
  rfl

/-- A new edge was not known at the parent. -/
theorem Attaches.absent {parent name : String} {type : NodeType} {request : Request}
    (quiet : world.Quiet) (attaches : Attaches world parent name type true request after)
    (live : world.primary.inst.Live name) :
    ¬ (world.primary.inst.readNode parent).Present .forward name := by
  have holds := Node.loaded_holds world.primary.inst
  exact (Node.addEdge_gains .forward quiet.primary.wf (holds parent) (holds name)
    (attaches.of_live quiet live).1).1

theorem addClusterToEnv_attaches {envName clusterName : String} {id : Nat} {result : Bool}
    (quiet : world.Quiet)
    (returned : addClusterToEnv envName clusterName id world = (.ok result, after)) :
    Attaches world envName (prefixedNodeName envName clusterName) .cluster true
        ⟨"add_cluster_to_env", [envName, clusterName], id, 0⟩ after ∧
      Linkable world envName .environment (prefixedNodeName envName clusterName) .cluster := by
  obtain ⟨final, body, rfl⟩ := inBothTxns_ok quiet returned
  obtain ⟨_, ⟨envLive, rfl⟩, body₁⟩ := pass (fun _ _ => requireNode_live quiet.primary rfl) body
  obtain ⟨_, isEnvironment, body₂⟩ := pass (fun _ _ => requireType_ok) body₁
  obtain ⟨_, isCluster, body₃⟩ := pass (fun _ _ => requireClusterIfFound_ok) body₂
  obtain ⟨changed, inner, rfl⟩ := withRangeTxn_ok body₃
  obtain ⟨node, first, fetched, inner₁⟩ := bind_eq_ok.mp inner
  obtain ⟨added, second, linked, inner₂⟩ := bind_eq_ok.mp inner₁
  obtain ⟨_, rfl, inner₃⟩ := pass (fun _ _ => orThrow_ok) inner₂
  obtain ⟨_, third, ensured, inner₄⟩ := bind_eq_ok.mp inner₃
  obtain ⟨_, rfl⟩ := Prod.mk.inj inner₄
  exact ⟨⟨envLive, node, first, second, third, fetched, linked, ensured, rfl⟩,
    linkable_of_checked quiet envLive isEnvironment isCluster⟩

/-- A parent is not the node that is linked to it when their types differ. -/
theorem Linkable.ne {parent name : String} {parentType type : NodeType}
    (linkable : Linkable world parent parentType name type) (differ : parentType ≠ type) :
    parent ≠ name := by
  rintro rfl
  exact differ (linkable.child parentType linkable.parent)

theorem addClusterToEnv_ok {envName clusterName : String} {id : Nat} {result : Bool}
    (quiet : world.Quiet)
    (returned : addClusterToEnv envName clusterName id world = (.ok result, after)) :
    CallStep world (onBoth (.ensure (prefixedNodeName envName clusterName) .cluster))
        (Effect.onlyIn .primary (.links envName (prefixedNodeName envName clusterName)))
        (fun _ => True) after ∧
      Linkable world envName .environment (prefixedNodeName envName clusterName) .cluster := by
  obtain ⟨attaches, linkable⟩ := addClusterToEnv_attaches quiet returned
  exact ⟨(attaches.step quiet).mono fun _ _ _ => linkable.ne (by simp), linkable⟩

theorem addClusterToCluster_attaches {envName parentCluster childCluster : String} {id : Nat}
    {result : Bool} (quiet : world.Quiet)
    (returned : addClusterToCluster envName parentCluster childCluster id world =
      (.ok result, after)) :
    (∃ added, Attaches world (prefixedNodeName envName parentCluster)
        (prefixedNodeName envName childCluster) .cluster added
        ⟨"add_cluster_to_cluster", [envName, parentCluster, childCluster], id, 0⟩ after) ∧
      Linkable world (prefixedNodeName envName parentCluster) .cluster
        (prefixedNodeName envName childCluster) .cluster := by
  obtain ⟨final, body, rfl⟩ := inBothTxns_ok quiet returned
  obtain ⟨_, ⟨parentLive, rfl⟩, body₁⟩ :=
    pass (fun _ _ => requireNode_live quiet.primary rfl) body
  obtain ⟨_, isCluster, body₂⟩ := pass (fun _ _ => requireType_ok) body₁
  obtain ⟨_, childIsCluster, body₃⟩ := pass (fun _ _ => requireTypeIfFound_ok) body₂
  obtain ⟨changed, inner, rfl⟩ := withRangeTxn_ok body₃
  obtain ⟨node, first, fetched, inner₁⟩ := bind_eq_ok.mp inner
  obtain ⟨added, second, linked, inner₂⟩ := bind_eq_ok.mp inner₁
  obtain ⟨_, third, ensured, inner₃⟩ := bind_eq_ok.mp inner₂
  obtain ⟨_, rfl⟩ := Prod.mk.inj inner₃
  exact ⟨⟨added, parentLive, node, first, second, third, fetched, linked, ensured, rfl⟩,
    linkable_of_checked quiet parentLive isCluster childIsCluster⟩

theorem addClusterToCluster_ok {envName parentCluster childCluster : String} {id : Nat}
    {result : Bool} (quiet : world.Quiet)
    (returned : addClusterToCluster envName parentCluster childCluster id world =
      (.ok result, after)) :
    CallStep world (onBoth (.ensure (prefixedNodeName envName childCluster) .cluster))
        (Effect.onlyIn .primary (.links (prefixedNodeName envName parentCluster)
          (prefixedNodeName envName childCluster)))
        (fun graph => graph = .primary →
          prefixedNodeName envName parentCluster ≠ prefixedNodeName envName childCluster)
        after ∧
      Linkable world (prefixedNodeName envName parentCluster) .cluster
        (prefixedNodeName envName childCluster) .cluster := by
  obtain ⟨⟨_, attaches⟩, linkable⟩ := addClusterToCluster_attaches quiet returned
  exact ⟨attaches.step quiet, linkable⟩

/-- `add_cluster_to_cluster` returns when its checks are met. -/
theorem addClusterToCluster_returns {envName parentCluster childCluster : String}
    (quiet : world.Quiet)
    (linkable : Linkable world (prefixedNodeName envName parentCluster) .cluster
      (prefixedNodeName envName childCluster) .cluster) (id : Nat) :
    ∃ after, addClusterToCluster envName parentCluster childCluster id world =
      (.ok true, after) := by
  obtain ⟨parent, isParent, parentType⟩ := Option.map_eq_some_iff.mp linkable.parent
  have childType : requireTypeIfFound .primary
      ((world.openedBoth.graph .primary).getNode (prefixedNodeName envName childCluster))
      .cluster childCluster world.openedBoth = (.ok (), world.openedBoth) := by
    cases isChild : (world.openedBoth.graph .primary).getNode
        (prefixedNodeName envName childCluster) with
    | none => rfl
    | some child =>
        apply requireType_of_eq
        exact linkable.child _ (Option.map_eq_some_iff.mpr ⟨child, isChild, rfl⟩)
  obtain ⟨node, first, fetched⟩ := foundOrCreated_returns quiet.primary
    (show world.openedBoth.graph .primary = .ofInstance world.primary.inst from rfl)
    (prefixedNodeName envName childCluster) .cluster
  obtain ⟨third, ensured⟩ := createIfMissing_returns .dependency
    (prefixedNodeName envName childCluster) .cluster
    (first.setGraph .primary ((first.graph .primary).addForwardEdge parent node).2)
  have found : (world.openedBoth.graph .primary).getNode
      (prefixedNodeName envName parentCluster) = some parent := isParent
  have typed : parent.type (world.openedBoth.graph .primary).inst = .cluster := parentType
  unfold addClusterToCluster
  rw [inBothTxns_apply quiet.saved, bind_of_ok (requireNode_of_some found), Api.getNode,
    read_bind, bind_of_ok (requireType_of_eq typed), bind_of_ok childType,
    withRangeTxn_returns (by
      rw [bind_of_ok fetched, addForwardEdge, bind_of_ok (onGraph_apply _), bind_of_ok ensured]
      rfl)]
  exact ⟨_, rfl⟩

/-- The parents of a stored host that are clusters have the prefix of the
environment. -/
def ParentsWithin (inst : GraphInstance) (envName hostname : String) : Prop :=
  ∀ parent ∈ (inst.readNode hostname).getEdges .reverse none,
    (inst.readNode parent).nodeType = .cluster → (envName ++ "#").toList <+: parent.toList

theorem requireSameEnvironment_ok {envName hostname : String} {found : Option Node}
    (returned : requireSameEnvironment envName hostname found world = (.ok (), after)) :
    after = world ∧ (found = some (Node.loaded world.primary.inst hostname) →
      ParentsWithin world.primary.inst envName hostname) := by
  cases found with
  | none =>
      rw [requireSameEnvironment, pure_apply] at returned
      exact ⟨(Prod.mk.inj returned).2.symm, by simp⟩
  | some node =>
      rw [requireSameEnvironment, read_bind] at returned
      split at returned
      · simp at returned
      · rename_i noneOutside
        rw [pure_apply] at returned
        refine ⟨(Prod.mk.inj returned).2.symm, ?_⟩
        rintro ⟨⟩ parent member isCluster
        have inside : parent.toList.take (envName.length + 1) = (envName ++ "#").toList := by
          by_contra outside
          refine noneOutside (List.any_eq_true.mpr ⟨Node.createNode parent, ?_, ?_⟩)
          · exact List.mem_map.mpr ⟨parent, member, rfl⟩
          · exact decide_eq_true ⟨isCluster, outside⟩
        rw [← inside]
        exact List.take_prefix _ _

theorem addHostToCluster_attaches {envName parentCluster hostname : String} {id : Nat}
    {result : Bool} (quiet : world.Quiet)
    (returned : addHostToCluster envName parentCluster hostname id world =
      (.ok result, after)) :
    Attaches world (prefixedNodeName envName parentCluster) hostname .host true
        ⟨"add_host_to_cluster", [envName, parentCluster, hostname], id, 0⟩ after ∧
      Linkable world (prefixedNodeName envName parentCluster) .cluster hostname .host ∧
      (world.primary.inst.Live hostname →
        ParentsWithin world.primary.inst envName hostname) := by
  obtain ⟨final, body, rfl⟩ := inBothTxns_ok quiet returned
  obtain ⟨_, ⟨parentLive, rfl⟩, body₁⟩ :=
    pass (fun _ _ => requireNode_live quiet.primary rfl) body
  obtain ⟨_, isCluster, body₂⟩ := pass (fun _ _ => requireType_ok) body₁
  obtain ⟨_, isHost, body₃⟩ := pass (fun _ _ => requireTypeIfFound_ok) body₂
  obtain ⟨changed, inner, rfl⟩ := withRangeTxn_ok body₃
  obtain ⟨_, within, inner₁⟩ := pass (fun _ _ => requireSameEnvironment_ok) inner
  obtain ⟨node, first, fetched, inner₂⟩ := bind_eq_ok.mp inner₁
  obtain ⟨added, second, linked, inner₃⟩ := bind_eq_ok.mp inner₂
  obtain ⟨_, rfl, inner₄⟩ := pass (fun _ _ => orThrow_ok) inner₃
  obtain ⟨_, third, ensured, inner₅⟩ := bind_eq_ok.mp inner₄
  obtain ⟨_, rfl⟩ := Prod.mk.inj inner₅
  exact ⟨⟨parentLive, node, first, second, third, fetched, linked, ensured, rfl⟩,
    linkable_of_checked quiet parentLive isCluster isHost,
    fun live => within ((GraphDB.getNode_ofInstance quiet.primary hostname).trans
      (if_pos live))⟩

theorem addHostToCluster_ok {envName parentCluster hostname : String} {id : Nat}
    {result : Bool} (quiet : world.Quiet)
    (returned : addHostToCluster envName parentCluster hostname id world =
      (.ok result, after)) :
    CallStep world (onBoth (.ensure hostname .host))
        (Effect.onlyIn .primary (.links (prefixedNodeName envName parentCluster) hostname))
        (fun _ => True) after ∧
      Linkable world (prefixedNodeName envName parentCluster) .cluster hostname .host ∧
      (world.primary.inst.Live hostname →
        ParentsWithin world.primary.inst envName hostname) := by
  obtain ⟨attaches, linkable, within⟩ := addHostToCluster_attaches quiet returned
  exact ⟨(attaches.step quiet).mono fun _ _ _ => linkable.ne (by simp), linkable, within⟩

/-! ## Calls that remove an edge or change keys -/

/-- The end of a call that changed edges or tags of one graph. -/
theorem edit_step {graph : GraphName} {inst : GraphInstance} {effect : Effect}
    {apart : GraphName → Prop}
    (request : Request) (quiet : world.Quiet) {name : String}
    (live : (world.graph graph).inst.Live name) (edit : Edit (world.graph graph).inst inst)
    (outcome : inst = (world.graph graph).inst ∨ inst.Touched)
    (wired : Wired (world.graph graph).inst effect inst)
    (balanced : apart graph → Balanced (world.graph graph).inst → Balanced inst) :
    CallStep world (onBoth .keep) (effect.onlyIn graph) apart (world.closed
      (((world.opened graph).setGraph graph (.ofInstance inst)).appendTxn
        request).addNewRangeVersion graph) := by
  refine CallStep.one request quiet ?_ ?_ ?_ ?_ ⟨graph, name, live⟩
  · unfold EndingOf Effect.onlyIn
    rw [World.graph_setGraph, if_pos rfl]
    exact Ending.of_edit (quiet.graph graph) edit rfl outcome rfl wired (by simp [onBoth]) balanced
  · intro other differs
    rw [World.graph_setGraph_ne _ differs]
    refine ⟨rfl, if_neg differs, ?_⟩
    cases graph <;> cases other <;> rfl
  · cases graph <;> rfl
  · cases graph <;> rfl

theorem graph_opened (world : World) (graph : GraphName) :
    (world.opened graph).graph graph = .ofInstance (world.graph graph).inst := by
  cases graph <;> rfl

/-- A call that removed an edge, as it left the graph to the end of its
transaction. -/
def Unlinks (world : World) (graph : GraphName) (direction : Direction) (node other : String)
    (request : Request) (after : World) : Prop :=
  (world.graph graph).inst.Live node ∧ ∃ changed,
    removeEdge graph direction (Node.loaded (world.graph graph).inst node)
      (Node.loaded (world.graph graph).inst other) (world.opened graph) = (.ok true, changed) ∧
    after = world.closed (changed.appendTxn request).addNewRangeVersion graph

theorem Unlinks.removed {graph : GraphName} {direction : Direction} {node other : String}
    {request : Request} (unlinks : Unlinks world graph direction node other request after) :
    (world.graph graph).inst.Live node ∧
      ((Node.loaded (world.graph graph).inst node).removeEdge direction
        (Node.loaded (world.graph graph).inst other) (world.graph graph).inst).1 = true ∧
      after = world.closed (((world.opened graph).setGraph graph (.ofInstance
        ((Node.loaded (world.graph graph).inst node).removeEdge direction
          (Node.loaded (world.graph graph).inst other)
            (world.graph graph).inst).2.2.2)).appendTxn request).addNewRangeVersion graph := by
  obtain ⟨live, changed, unlinked, rfl⟩ := unlinks
  rw [removeEdge, onGraph_apply, graph_opened] at unlinked
  obtain ⟨success, rfl⟩ := Prod.mk.inj unlinked
  exact ⟨live, Except.ok.inj success, rfl⟩

theorem Unlinks.step {graph : GraphName} {direction : Direction} {node other : String}
    {request : Request} (quiet : world.Quiet)
    (unlinks : Unlinks world graph direction node other request after) :
    CallStep world (onBoth .keep) quietly (fun _ => True) after := by
  obtain ⟨live, -, rfl⟩ := unlinks.removed
  have holds := Node.loaded_holds (world.graph graph).inst
  rw [← Effect.onlyIn_still graph]
  exact edit_step request quiet live
    ((Edit.refl (quiet.graph graph)).removeEdge direction (holds node) (holds other))
    (Node.removeEdge_outcome _ _ _ _)
    ((Wired.refl _).removeEdge (quiet.graph graph).tagsKept (holds node) (holds other))
    fun _ balanced =>
      balanced.removeEdge direction (quiet.graph graph).wf (holds node) (holds other)

theorem removeClusterFromEnv_unlinks {envName clusterName : String} {id : Nat} {result : Bool}
    (quiet : world.Quiet)
    (returned : removeClusterFromEnv envName clusterName id world = (.ok result, after)) :
    Unlinks world .primary .forward envName (prefixedNodeName envName clusterName)
      ⟨"remove_cluster_from_env", [envName, clusterName], id, 0⟩ after := by
  obtain ⟨final, body, rfl⟩ := inTxn_ok quiet returned
  obtain ⟨_, ⟨envLive, rfl⟩, body₁⟩ := pass (fun _ _ => requireNode_live quiet.primary rfl) body
  obtain ⟨_, ⟨_, rfl⟩, body₂⟩ := pass (fun _ _ => requireNode_live quiet.primary rfl) body₁
  obtain ⟨_, _, body₃⟩ := pass (fun _ _ => requireType_ok) body₂
  obtain ⟨_, _, body₄⟩ := pass (fun _ _ => requireType_ok) body₃
  obtain ⟨changed, inner, rfl⟩ := withRangeTxn_ok body₄
  obtain ⟨_, middle, unlinked, inner₁⟩ := bind_eq_ok.mp inner
  obtain ⟨_, rfl, inner₂⟩ := pass (fun _ _ => orThrow_ok) inner₁
  obtain ⟨_, rfl⟩ := Prod.mk.inj inner₂
  exact ⟨envLive, middle, unlinked, rfl⟩

theorem removeClusterFromEnv_ok {envName clusterName : String} {id : Nat} {result : Bool}
    (quiet : world.Quiet)
    (returned : removeClusterFromEnv envName clusterName id world = (.ok result, after)) :
    CallStep world (onBoth .keep) quietly (fun _ => True) after :=
  (removeClusterFromEnv_unlinks quiet returned).step quiet

theorem removeClusterFromCluster_unlinks {envName parentCluster childCluster : String} {id : Nat}
    {result : Bool} (quiet : world.Quiet)
    (returned : removeClusterFromCluster envName parentCluster childCluster id world =
      (.ok result, after)) :
    Unlinks world .primary .forward (prefixedNodeName envName parentCluster)
      (prefixedNodeName envName childCluster)
      ⟨"remove_cluster_from_cluster", [envName, parentCluster, childCluster], id, 0⟩ after := by
  obtain ⟨final, body, rfl⟩ := inTxn_ok quiet returned
  obtain ⟨_, ⟨parentLive, rfl⟩, body₁⟩ :=
    pass (fun _ _ => requireNode_live quiet.primary rfl) body
  obtain ⟨_, ⟨_, rfl⟩, body₂⟩ := pass (fun _ _ => requireNode_live quiet.primary rfl) body₁
  obtain ⟨_, _, body₃⟩ := pass (fun _ _ => requireType_ok) body₂
  obtain ⟨_, _, body₄⟩ := pass (fun _ _ => requireType_ok) body₃
  obtain ⟨changed, inner, rfl⟩ := withRangeTxn_ok body₄
  obtain ⟨_, middle, unlinked, inner₁⟩ := bind_eq_ok.mp inner
  obtain ⟨_, rfl, inner₂⟩ := pass (fun _ _ => orThrow_ok) inner₁
  obtain ⟨_, rfl⟩ := Prod.mk.inj inner₂
  exact ⟨parentLive, middle, unlinked, rfl⟩

theorem removeClusterFromCluster_ok {envName parentCluster childCluster : String} {id : Nat}
    {result : Bool} (quiet : world.Quiet)
    (returned : removeClusterFromCluster envName parentCluster childCluster id world =
      (.ok result, after)) :
    CallStep world (onBoth .keep) quietly (fun _ => True) after :=
  (removeClusterFromCluster_unlinks quiet returned).step quiet

theorem removeHostFromCluster_unlinks {envName parentCluster hostname : String} {id : Nat}
    {result : Bool} (quiet : world.Quiet)
    (returned : removeHostFromCluster envName parentCluster hostname id world =
      (.ok result, after)) :
    Unlinks world .primary .reverse hostname (prefixedNodeName envName parentCluster)
      ⟨"remove_host_from_cluster", [envName, parentCluster, hostname], id, 0⟩ after := by
  obtain ⟨final, body, rfl⟩ := inTxn_ok quiet returned
  dsimp only at body
  rw [Api.getNode, read_bind, Api.getNode, read_bind] at body
  cases isParent : ((world.opened .primary).graph .primary).getNode
      (prefixedNodeName envName parentCluster) with
  | none =>
      rw [isParent] at body
      simp at body
  | some parent =>
      cases isHost : ((world.opened .primary).graph .primary).getNode hostname with
      | none =>
          rw [isParent, isHost] at body
          simp at body
      | some host =>
          rw [isParent, isHost] at body
          obtain ⟨_, rfl⟩ := GraphDB.getNode_eq_some quiet.primary isParent
          obtain ⟨hostLive, rfl⟩ := GraphDB.getNode_eq_some quiet.primary isHost
          obtain ⟨_, _, body₁⟩ := pass (fun _ _ => requireType_ok) body
          obtain ⟨_, _, body₂⟩ := pass (fun _ _ => requireType_ok) body₁
          obtain ⟨changed, inner, rfl⟩ := withRangeTxn_ok body₂
          obtain ⟨_, middle, unlinked, inner₁⟩ := bind_eq_ok.mp inner
          obtain ⟨_, rfl, inner₂⟩ := pass (fun _ _ => orThrow_ok) inner₁
          obtain ⟨_, rfl⟩ := Prod.mk.inj inner₂
          exact ⟨hostLive, middle, unlinked, rfl⟩

theorem removeHostFromCluster_ok {envName parentCluster hostname : String} {id : Nat}
    {result : Bool} (quiet : world.Quiet)
    (returned : removeHostFromCluster envName parentCluster hostname id world =
      (.ok result, after)) :
    CallStep world (onBoth .keep) quietly (fun _ => True) after :=
  (removeHostFromCluster_unlinks quiet returned).step quiet

/-- The node whose tags a call on keys may change. -/
def keyedEffect (world : World) (envName nodeName : String) : Effect :=
  match resolve (world.roster .primary) envName nodeName with
  | .ok (some name) => .tags name
  | _ => .still

theorem keyedEffect_of_chosen {envName nodeName name : String}
    (chosen : resolve (world.roster .primary) envName nodeName = .ok (some name)) :
    keyedEffect world envName nodeName = .tags name := by
  rw [keyedEffect, chosen]

theorem keyedEffect_ne_links (world : World) (envName nodeName source target : String) :
    keyedEffect world envName nodeName ≠ .links source target := by
  unfold keyedEffect
  split
  · simp
  · simp

theorem requireKeyedNode_live {base : GraphInstance} {envName nodeName : String} {node : Node}
    (committed : Committed base) (opened : world.primary = .ofInstance base)
    (returned : requireKeyedNode envName nodeName world = (.ok node, after)) :
    after = world ∧ ∃ name, resolve (GraphDB.ofInstance base).roster envName nodeName =
      .ok (some name) ∧ base.Live name ∧ node = Node.loaded base name := by
  unfold requireKeyedNode at returned
  rw [bind_eq_ok] at returned
  obtain ⟨found, middle, fetched, rest⟩ := returned
  rw [getNode_apply] at fetched
  obtain ⟨isFound, rfl⟩ := Prod.mk.inj fetched
  cases found with
  | none => simp at rest
  | some result =>
      obtain ⟨sameNode, rfl⟩ := Prod.mk.inj rest
      refine ⟨rfl, ?_⟩
      rw [← Except.ok.inj sameNode]
      rw [show world.graph .primary = .ofInstance base from opened] at isFound
      cases choice : resolve (GraphDB.ofInstance base).roster envName nodeName with
      | error error =>
          rw [choice] at isFound
          simp [fetch] at isFound
      | ok chosen =>
          rw [choice] at isFound
          cases chosen with
          | none => simp [fetch] at isFound
          | some name =>
              exact ⟨name, rfl, GraphDB.getNode_eq_some committed (Except.ok.inj isFound)⟩

/-- The end of a call that changed the tags of a node. -/
theorem change_step {name : String} {update : NodeInfo → Option NodeInfo} (request : Request)
    (quiet : world.Quiet) (live : world.primary.inst.Live name)
    (keeps : ∀ floor, KeepsGood (Drafted world.primary.inst floor world.primary.inst.Live
      fun name => (world.primary.inst.readNode name).nodeType) update)
    (present : ∀ info changed, info.WF → update info = some changed →
      changed.Present = info.Present) :
    CallStep world (onBoth .keep) (Effect.onlyIn .primary (.tags name)) (fun _ => True)
      (world.closed (((world.opened .primary).setGraph .primary (.ofInstance
        ((Node.loaded world.primary.inst name).change update world.primary.inst).2.2)).appendTxn
        request).addNewRangeVersion .primary) := by
  have holds := Node.loaded_holds world.primary.inst name
  have wf := quiet.primary.wf name
  refine edit_step request quiet (show (world.graph .primary).inst.Live name from live)
    ((Edit.refl quiet.primary).changed holds keeps) (Node.change_outcome _ _ _)
    (Wired.change wf holds present) ?_
  intro _ balanced
  exact balanced.of_present (Node.present_change wf holds present)

theorem updateTag_step {name key : String} {values : List String} {changed : World}
    {result : Bool} (request : Request) (quiet : world.Quiet)
    (live : world.primary.inst.Live name)
    (updated : updateTag .primary (Node.loaded world.primary.inst name) key values
      (world.opened .primary) = (.ok result, changed)) :
    CallStep world (onBoth .keep) (Effect.onlyIn .primary (.tags name)) (fun _ => True)
      (world.closed (changed.appendTxn request).addNewRangeVersion .primary) := by
  rw [updateTag, onGraph_apply] at updated
  obtain ⟨_, rfl⟩ := Prod.mk.inj updated
  have step := change_step request quiet live
    (fun floor => Drafted.keeps_updateTag key values) ?_
  · exact step
  intro info changed wf isChanged
  obtain rfl := Option.some.inj isChanged
  funext direction other
  exact propext ((NodeInfo.updateTag_advance wf key values).present direction other)

/-- A call on keys that returned: the node it found, and what it left to the end
of its transaction. -/
def KeyedCall (world : World) (envName nodeName : String) (request : Request)
    (body : Node → World → Prop) (after : World) : Prop :=
  ∃ name changed, resolve (world.roster .primary) envName nodeName = .ok (some name) ∧
    world.primary.inst.Live name ∧ body (Node.loaded world.primary.inst name) changed ∧
    after = world.closed (changed.appendTxn request).addNewRangeVersion .primary

/-- The values that a call on keys reads. -/
def readValues (world : World) (node : Node) (key : String) : List String :=
  ((node.tags (world.opened .primary).primary.inst).lookup key).getD []

theorem addNodeKeyValue_keyed {envName nodeName key value : String} {id : Nat} {result : Bool}
    (quiet : world.Quiet)
    (returned : addNodeKeyValue envName nodeName key value id world = (.ok result, after)) :
    KeyedCall world envName nodeName ⟨"add_node_key_value", [envName, nodeName, key, value], id, 0⟩
      (fun node changed => value ∉ readValues world node key ∧
        updateTag .primary node key (readValues world node key ++ [value])
          (world.opened .primary) = (.ok result, changed)) after := by
  obtain ⟨final, body, rfl⟩ := inTxn_ok quiet returned
  obtain ⟨_, ⟨name, chosen, live, rfl⟩, body₁⟩ :=
    pass (fun _ _ => requireKeyedNode_live quiet.primary rfl) body
  rw [currentValues, read_bind] at body₁
  split at body₁
  · simp at body₁
  · rename_i absent
    obtain ⟨changed, updated, rfl⟩ := withRangeTxn_ok body₁
    exact ⟨name, changed, chosen, live, ⟨absent, updated⟩, rfl⟩

theorem removeNodeKeyValue_keyed {envName nodeName key value : String} {id : Nat} {result : Bool}
    (quiet : world.Quiet)
    (returned : removeNodeKeyValue envName nodeName key value id world = (.ok result, after)) :
    KeyedCall world envName nodeName
      ⟨"remove_node_key_value", [envName, nodeName, key, value], id, 0⟩
      (fun node changed =>
        ((readValues world node key).filter fun other => other ≠ value).length ≠
          (readValues world node key).length ∧
        updateTag .primary node key
          ((readValues world node key).filter fun other => other ≠ value)
          (world.opened .primary) = (.ok true, changed)) after := by
  obtain ⟨final, body, rfl⟩ := inTxn_ok quiet returned
  obtain ⟨_, ⟨name, chosen, live, rfl⟩, body₁⟩ :=
    pass (fun _ _ => requireKeyedNode_live quiet.primary rfl) body
  rw [currentValues, read_bind] at body₁
  dsimp only at body₁
  split at body₁
  · simp at body₁
  · rename_i shorter
    obtain ⟨changed, inner, rfl⟩ := withRangeTxn_ok body₁
    obtain ⟨_, middle, updated, inner₁⟩ := bind_eq_ok.mp inner
    obtain ⟨_, rfl, inner₂⟩ := pass (fun _ _ => orThrow_ok) inner₁
    obtain ⟨_, rfl⟩ := Prod.mk.inj inner₂
    exact ⟨name, _, chosen, live, ⟨shorter, updated⟩, rfl⟩

theorem removeKeyFromNode_keyed {envName nodeName key : String} {id : Nat} {result : Bool}
    (quiet : world.Quiet)
    (returned : removeKeyFromNode envName nodeName key id world = (.ok result, after)) :
    KeyedCall world envName nodeName ⟨"remove_key_from_node", [envName, nodeName, key], id, 0⟩
      (fun node changed =>
        deleteTag .primary node key (world.opened .primary) = (.ok true, changed)) after := by
  obtain ⟨final, body, rfl⟩ := inTxn_ok quiet returned
  obtain ⟨_, ⟨name, chosen, live, rfl⟩, body₁⟩ :=
    pass (fun _ _ => requireKeyedNode_live quiet.primary rfl) body
  obtain ⟨changed, inner, rfl⟩ := withRangeTxn_ok body₁
  obtain ⟨_, middle, deleted, inner₁⟩ := bind_eq_ok.mp inner
  obtain ⟨_, rfl, inner₂⟩ := pass (fun _ _ => orThrow_ok) inner₁
  obtain ⟨_, rfl⟩ := Prod.mk.inj inner₂
  exact ⟨name, _, chosen, live, deleted, rfl⟩

theorem addNodeKeyValue_ok {envName nodeName key value : String} {id : Nat} {result : Bool}
    (quiet : world.Quiet)
    (returned : addNodeKeyValue envName nodeName key value id world = (.ok result, after)) :
    CallStep world (onBoth .keep) ((keyedEffect world envName nodeName).onlyIn .primary)
      (fun _ => True) after := by
  obtain ⟨name, changed, chosen, live, ⟨_, updated⟩, rfl⟩ :=
    addNodeKeyValue_keyed quiet returned
  rw [keyedEffect_of_chosen chosen]
  exact updateTag_step _ quiet live updated

theorem removeNodeKeyValue_ok {envName nodeName key value : String} {id : Nat} {result : Bool}
    (quiet : world.Quiet)
    (returned : removeNodeKeyValue envName nodeName key value id world = (.ok result, after)) :
    CallStep world (onBoth .keep) ((keyedEffect world envName nodeName).onlyIn .primary)
      (fun _ => True) after := by
  obtain ⟨name, changed, chosen, live, ⟨_, updated⟩, rfl⟩ :=
    removeNodeKeyValue_keyed quiet returned
  rw [keyedEffect_of_chosen chosen]
  exact updateTag_step _ quiet live updated

theorem removeKeyFromNode_ok {envName nodeName key : String} {id : Nat} {result : Bool}
    (quiet : world.Quiet)
    (returned : removeKeyFromNode envName nodeName key id world = (.ok result, after)) :
    CallStep world (onBoth .keep) ((keyedEffect world envName nodeName).onlyIn .primary)
      (fun _ => True) after := by
  obtain ⟨name, changed, chosen, live, deleted, rfl⟩ :=
    removeKeyFromNode_keyed quiet returned
  rw [keyedEffect_of_chosen chosen]
  rw [deleteTag, onGraph_apply] at deleted
  obtain ⟨_, rfl⟩ := Prod.mk.inj deleted
  have step := change_step ⟨"remove_key_from_node", [envName, nodeName, key], id, 0⟩ quiet live
    (fun floor => Drafted.keeps_deleteTag key) ?_
  · exact step
  intro info changed wf isChanged
  funext direction other
  exact propext ((NodeInfo.deleteTag_advance wf isChanged).present direction other)

/-! ## Dependencies -/

theorem dependencyEnds_live {base : GraphInstance}
    {envName nodeName dependencyEnv dependencyName : String} {ends : Node × Node}
    (committed : Committed base) (opened : world.dependency = .ofInstance base)
    (returned : dependencyEnds envName nodeName dependencyEnv dependencyName world =
      (.ok ends, after)) :
    after = world ∧ base.Live (prefixedNodeName envName nodeName) ∧
      ends = (Node.loaded base (prefixedNodeName envName nodeName),
        Node.loaded base (prefixedNodeName dependencyEnv dependencyName)) := by
  unfold dependencyEnds at returned
  rw [Api.getNode, read_bind, Api.getNode, read_bind] at returned
  rw [show world.graph .dependency = .ofInstance base from opened] at returned
  cases isNode : (GraphDB.ofInstance base).getNode (prefixedNodeName envName nodeName) with
  | none =>
      rw [isNode] at returned
      simp at returned
  | some node =>
      cases isOther : (GraphDB.ofInstance base).getNode
          (prefixedNodeName dependencyEnv dependencyName) with
      | none =>
          rw [isNode, isOther] at returned
          simp at returned
      | some other =>
          rw [isNode, isOther] at returned
          obtain ⟨same, rfl⟩ := Prod.mk.inj returned
          obtain ⟨live, rfl⟩ := GraphDB.getNode_eq_some committed isNode
          obtain ⟨_, rfl⟩ := GraphDB.getNode_eq_some committed isOther
          exact ⟨rfl, live, (Except.ok.inj same).symm⟩

/-- A call that added an edge between two stored nodes, as it left the graph to
the end of its transaction. -/
def Links (world : World) (graph : GraphName) (node other : String) (request : Request)
    (after : World) : Prop :=
  (world.graph graph).inst.Live node ∧ ∃ changed,
    addForwardEdge graph (Node.loaded (world.graph graph).inst node)
      (Node.loaded (world.graph graph).inst other) (world.opened graph) = (.ok true, changed) ∧
    after = world.closed (changed.appendTxn request).addNewRangeVersion graph

theorem Links.added {graph : GraphName} {node other : String} {request : Request}
    (links : Links world graph node other request after) :
    (world.graph graph).inst.Live node ∧
      ((Node.loaded (world.graph graph).inst node).addEdge .forward
        (Node.loaded (world.graph graph).inst other) (world.graph graph).inst).1 = true ∧
      after = world.closed (((world.opened graph).setGraph graph (.ofInstance
        ((Node.loaded (world.graph graph).inst node).addEdge .forward
          (Node.loaded (world.graph graph).inst other)
            (world.graph graph).inst).2.2.2)).appendTxn request).addNewRangeVersion graph := by
  obtain ⟨live, changed, linked, rfl⟩ := links
  rw [addForwardEdge, onGraph_apply, graph_opened] at linked
  obtain ⟨success, rfl⟩ := Prod.mk.inj linked
  exact ⟨live, Except.ok.inj success, rfl⟩

theorem Links.step {graph : GraphName} {node other : String} {request : Request}
    (quiet : world.Quiet) (links : Links world graph node other request after) :
    CallStep world (onBoth .keep) (Effect.onlyIn graph (.links node other))
      (fun name => name = graph → node ≠ other) after := by
  obtain ⟨live, -, rfl⟩ := links.added
  have holds := Node.loaded_holds (world.graph graph).inst
  exact edit_step request quiet live
    ((Edit.refl (quiet.graph graph)).addEdge .forward (holds node) (holds other))
    (Node.addEdge_outcome _ _ _ _)
    ((Wired.refl _).addEdge (quiet.graph graph).tagsKept (holds node) (holds other))
    fun differ balanced =>
      balanced.addEdge .forward (quiet.graph graph).wf (holds node) (holds other) (differ rfl)

/-- An edge that a call added was not known at the node. -/
theorem Links.absent {graph : GraphName} {node other : String} {request : Request}
    (quiet : world.Quiet) (links : Links world graph node other request after) :
    ¬ ((world.graph graph).inst.readNode node).Present .forward other := by
  obtain ⟨-, added, -⟩ := links.added
  have holds := Node.loaded_holds (world.graph graph).inst
  exact (Node.addEdge_gains .forward (quiet.graph graph).wf (holds node) (holds other) added).1

theorem addNodeExtDependency_links {envName nodeName dependencyEnv dependencyName : String}
    {id : Nat} {result : Bool} (quiet : world.Quiet)
    (returned : addNodeExtDependency envName nodeName dependencyEnv dependencyName id world =
      (.ok result, after)) :
    Links world .dependency (prefixedNodeName envName nodeName)
        (prefixedNodeName dependencyEnv dependencyName)
        ⟨"add_node_ext_dependency", [envName, nodeName, dependencyEnv, dependencyName], id, 0⟩
        after ∧
      ∃ type, world.roster .dependency (prefixedNodeName envName nodeName) = some type ∧
        type ≠ .environment ∧ type ≠ .unknown := by
  obtain ⟨final, body, rfl⟩ := inTxn_ok quiet returned
  obtain ⟨_, ⟨live, rfl⟩, body₁⟩ :=
    pass (fun _ _ => dependencyEnds_live quiet.dependency rfl) body
  dsimp only at body₁
  rw [nodeType, read_bind] at body₁
  split at body₁
  · simp at body₁
  · rename_i allowed
    obtain ⟨changed, inner, rfl⟩ := withRangeTxn_ok body₁
    obtain ⟨_, middle, linked, inner₁⟩ := bind_eq_ok.mp inner
    obtain ⟨_, rfl, inner₂⟩ := pass (fun _ _ => orThrow_ok) inner₁
    obtain ⟨_, rfl⟩ := Prod.mk.inj inner₂
    have isType := not_or.mp allowed
    exact ⟨⟨live, middle, linked, rfl⟩, _, GraphDB.roster_eq_some quiet.dependency live,
      isType⟩

/-- `add_node_ext_dependency` returns when its checks are met and the node does
not know the edge. -/
theorem addNodeExtDependency_returns {envName nodeName dependencyEnv dependencyName : String}
    (quiet : world.Quiet)
    (live : world.dependency.inst.Live (prefixedNodeName envName nodeName))
    (otherLive : world.dependency.inst.Live (prefixedNodeName dependencyEnv dependencyName))
    (allowed : ¬ ((world.dependency.inst.readNode
        (prefixedNodeName envName nodeName)).nodeType = .environment ∨
      (world.dependency.inst.readNode (prefixedNodeName envName nodeName)).nodeType = .unknown))
    (absent : ¬ (world.dependency.inst.readNode (prefixedNodeName envName nodeName)).Present
      .forward (prefixedNodeName dependencyEnv dependencyName)) (id : Nat) :
    ∃ after, addNodeExtDependency envName nodeName dependencyEnv dependencyName id world =
      (.ok true, after) := by
  have fetched : ∀ name, world.dependency.inst.Live name →
      ((world.opened .dependency).graph .dependency).getNode name =
        some (Node.loaded world.dependency.inst name) := fun name isLive =>
    (GraphDB.getNode_ofInstance quiet.dependency name).trans (if_pos isLive)
  have ends : dependencyEnds envName nodeName dependencyEnv dependencyName
      (world.opened .dependency) = (.ok
        (Node.loaded world.dependency.inst (prefixedNodeName envName nodeName),
          Node.loaded world.dependency.inst (prefixedNodeName dependencyEnv dependencyName)),
        world.opened .dependency) := by
    rw [dependencyEnds, Api.getNode, read_bind, Api.getNode, read_bind, fetched _ live,
      fetched _ otherLive]
    rfl
  have holds := Node.loaded_holds world.dependency.inst
  have success := @Node.addEdge_of_absent
    (Node.loaded world.dependency.inst (prefixedNodeName envName nodeName))
    (Node.loaded world.dependency.inst (prefixedNodeName dependencyEnv dependencyName))
    world.dependency.inst .forward quiet.dependency.wf (holds _) absent
  have linked : ∃ after, (do
      orThrow (← addForwardEdge .dependency
        (Node.loaded world.dependency.inst (prefixedNodeName envName nodeName))
        (Node.loaded world.dependency.inst (prefixedNodeName dependencyEnv dependencyName)))
        (.nodeExists "dependency already exists")
      return true : Api Bool) (world.opened .dependency) = (.ok true, after) := by
    rw [addForwardEdge, bind_of_ok (onGraph_apply _)]
    change ∃ after, (do
      orThrow ((Node.loaded world.dependency.inst (prefixedNodeName envName nodeName)).addEdge
        .forward _ world.dependency.inst).1 _
      return true : Api Bool) _ = (.ok true, after)
    rw [success]
    exact ⟨_, rfl⟩
  obtain ⟨middle, linked⟩ := linked
  unfold addNodeExtDependency
  rw [inTxn_apply quiet.saved, bind_of_ok ends]
  dsimp only
  rw [nodeType, read_bind]
  have typed : (Node.loaded world.dependency.inst (prefixedNodeName envName nodeName)).type
      ((world.opened .dependency).graph .dependency).inst =
      (world.dependency.inst.readNode (prefixedNodeName envName nodeName)).nodeType := rfl
  rw [typed, if_neg allowed, withRangeTxn_returns linked]
  exact ⟨_, rfl⟩

theorem addNodeExtDependency_ok {envName nodeName dependencyEnv dependencyName : String}
    {id : Nat} {result : Bool} (quiet : world.Quiet)
    (returned : addNodeExtDependency envName nodeName dependencyEnv dependencyName id world =
      (.ok result, after)) :
    CallStep world (onBoth .keep) (Effect.onlyIn .dependency
          (.links (prefixedNodeName envName nodeName)
            (prefixedNodeName dependencyEnv dependencyName)))
        (fun graph => graph = .dependency →
        prefixedNodeName envName nodeName ≠ prefixedNodeName dependencyEnv dependencyName)
        after ∧
      ∃ type, world.roster .dependency (prefixedNodeName envName nodeName) = some type ∧
        type ≠ .environment ∧ type ≠ .unknown := by
  obtain ⟨links, allowed⟩ := addNodeExtDependency_links quiet returned
  exact ⟨links.step quiet, allowed⟩

theorem removeNodeExtDependency_unlinks {envName nodeName dependencyEnv dependencyName : String}
    {id : Nat} {result : Bool} (quiet : world.Quiet)
    (returned : removeNodeExtDependency envName nodeName dependencyEnv dependencyName id world =
      (.ok result, after)) :
    Unlinks world .dependency .forward (prefixedNodeName envName nodeName)
      (prefixedNodeName dependencyEnv dependencyName)
      ⟨"remove_node_ext_dependency",
        [envName, nodeName, dependencyEnv, dependencyName], id, 0⟩ after := by
  obtain ⟨final, body, rfl⟩ := inTxn_ok quiet returned
  obtain ⟨_, ⟨live, rfl⟩, body₁⟩ :=
    pass (fun _ _ => dependencyEnds_live quiet.dependency rfl) body
  obtain ⟨changed, inner, rfl⟩ := withRangeTxn_ok body₁
  obtain ⟨_, middle, unlinked, inner₁⟩ := bind_eq_ok.mp inner
  obtain ⟨_, rfl, inner₂⟩ := pass (fun _ _ => orThrow_ok) inner₁
  obtain ⟨_, rfl⟩ := Prod.mk.inj inner₂
  exact ⟨live, middle, unlinked, rfl⟩

theorem removeNodeExtDependency_ok {envName nodeName dependencyEnv dependencyName : String}
    {id : Nat} {result : Bool} (quiet : world.Quiet)
    (returned : removeNodeExtDependency envName nodeName dependencyEnv dependencyName id world =
      (.ok result, after)) :
    CallStep world (onBoth .keep) quietly (fun _ => True) after :=
  (removeNodeExtDependency_unlinks quiet returned).step quiet

/-! ## Calls that remove a node -/

theorem remove_of_none {graph owner : GraphName} {node : Node}
    (detached : node.detach (world.graph graph).version (world.graph owner).inst = none) :
    remove graph owner node world = (.ok node, world) := by
  unfold remove
  rw [update_apply, detached]

theorem remove_of_some {graph owner : GraphName} {node removed : Node} {inst : GraphInstance}
    (detached : node.detach (world.graph graph).version (world.graph owner).inst =
      some (removed, inst)) :
    remove graph owner node world = (.ok removed, (world.setInst owner inst).setGraph graph
      { (world.setInst owner inst).graph graph with removedNodes :=
        removed.name :: ((world.setInst owner inst).graph graph).removedNodes }) := by
  unfold remove
  rw [update_apply, detached]

theorem remove_apply {base : GraphInstance} {graph : GraphName} {name : String}
    (committed : Committed base) (opened : world.graph graph = .ofInstance base)
    (live : base.Live name) :
    ∃ removed inst, remove graph graph (Node.loaded base name) world =
        (.ok removed, world.setGraph graph
          { GraphDB.ofInstance inst with removedNodes := [name] }) ∧
      Detached base name removed inst := by
  obtain ⟨removed, inst, detached, facts⟩ := detach_loaded committed live
  refine ⟨removed, inst, ?_, facts⟩
  have fetched : (Node.loaded base name).detach (world.graph graph).version
      (world.graph graph).inst = some (removed, inst) := by
    rw [opened]
    exact detached
  rw [remove_of_some fetched, facts.sameName]
  cases graph with
  | primary =>
      have primary : world.primary = .ofInstance base := opened
      simp [World.setInst, World.setGraph, World.graph, primary, GraphDB.ofInstance]
  | dependency =>
      have dependency : world.dependency = .ofInstance base := opened
      simp [World.setInst, World.setGraph, World.graph, dependency, GraphDB.ofInstance]

/-- The end of a call that asks both graphs to remove one object. -/
theorem removeTwice_step {name : String} {removed ignored : Node} {first second : World}
    (request : Request) (quiet : world.Quiet) (live : world.primary.inst.Live name)
    (once : remove .primary .primary (Node.loaded world.primary.inst name) world.openedBoth =
      (.ok removed, first))
    (again : remove .dependency .primary removed first = (.ok ignored, second)) :
    CallStep world (onPrimary (.erase name)) quietly (fun _ => True)
      (world.closedBoth (second.appendTxn request).addNewRangeVersion) := by
  obtain ⟨object, inst, applied, facts⟩ :=
    remove_apply quiet.primary
      (show world.openedBoth.graph .primary = .ofInstance world.primary.inst from rfl) live
  rw [applied] at once
  obtain ⟨sameObject, isFirst⟩ := Prod.mk.inj once
  obtain rfl := Except.ok.inj sameObject
  have primary : first.primary = { GraphDB.ofInstance inst with removedNodes := [name] } := by
    rw [← isFirst]
    rfl
  have dependency : first.dependency.inst = world.dependency.inst := by
    rw [← isFirst]
    rfl
  have ranges : first.rangeChanges = world.rangeChanges ∧ first.now = world.now := by
    rw [← isFirst]
    exact ⟨rfl, rfl⟩
  -- The second removal works on the records of the primary graph again.
  have ends : ∃ object last, Detached world.primary.inst name object last ∧
      second.primary = { GraphDB.ofInstance last with removedNodes := [name] } ∧
      second.dependency.inst = world.dependency.inst ∧
      second.rangeChanges = world.rangeChanges ∧ second.now = world.now := by
    cases detached : object.detach (first.graph .dependency).version
        (first.graph .primary).inst with
    | none =>
        rw [remove_of_none detached] at again
        obtain ⟨_, rfl⟩ := Prod.mk.inj again
        exact ⟨object, inst, facts, primary, dependency, ranges⟩
    | some result =>
        obtain ⟨twice, last⟩ := result
        rw [remove_of_some detached] at again
        obtain ⟨_, rfl⟩ := Prod.mk.inj again
        rw [show (first.graph .primary).inst = inst from congrArg GraphDB.inst primary]
          at detached
        refine ⟨twice, last, detached_of_detach facts.sameName facts.current facts.holds
          facts.edit facts.balanced facts.tagsKept facts.wired detached, ?_, dependency, ranges⟩
        change { first.primary with inst := last } = _
        rw [primary]
        rfl
  obtain ⟨_, last, lastFacts, primary, dependency, ranges, now⟩ := ends
  refine CallStep.both request ?_ ranges now ⟨.primary, name, live⟩
  intro graph
  cases graph with
  | primary =>
      change Ending _ _ _ _ _ second.primary
      rw [primary]
      exact Ending.of_removal quiet.primary lastFacts.edit rfl lastFacts.touched lastFacts.wired
        lastFacts.cleared fun _ => lastFacts.balanced
  | dependency =>
      exact Ending.unchanged quiet.dependency dependency rfl (Wired.refl _)
        (.of_keeps (by simp [onPrimary]))

theorem removeCluster_live {envName clusterName : String} {id : Nat} {result : Bool}
    (quiet : world.Quiet)
    (returned : removeCluster envName clusterName id world = (.ok result, after)) :
    world.primary.inst.Live (prefixedNodeName envName clusterName) := by
  obtain ⟨final, body, rfl⟩ := inBothTxns_ok quiet returned
  obtain ⟨_, ⟨live, _⟩, _⟩ := pass (fun _ _ => requireNode_live quiet.primary rfl) body
  exact live

theorem removeCluster_ok {envName clusterName : String} {id : Nat} {result : Bool}
    (quiet : world.Quiet)
    (returned : removeCluster envName clusterName id world = (.ok result, after)) :
    CallStep world (onPrimary (.erase (prefixedNodeName envName clusterName))) quietly
      (fun _ => True) after := by
  obtain ⟨final, body, rfl⟩ := inBothTxns_ok quiet returned
  obtain ⟨_, ⟨live, rfl⟩, body₁⟩ := pass (fun _ _ => requireNode_live quiet.primary rfl) body
  obtain ⟨_, _, body₂⟩ := pass (fun _ _ => requireType_ok) body₁
  obtain ⟨changed, inner, rfl⟩ := withRangeTxn_ok body₂
  obtain ⟨removed, first, once, inner₁⟩ := bind_eq_ok.mp inner
  obtain ⟨_, second, again, inner₂⟩ := bind_eq_ok.mp inner₁
  obtain ⟨_, rfl⟩ := Prod.mk.inj inner₂
  exact removeTwice_step _ quiet live once again

theorem requireInEnvironment_ok {envName : String} {node : Node}
    (returned : requireInEnvironment envName node world = (.ok (), after)) :
    after = world ∧ True := by
  rw [requireInEnvironment, read_bind] at returned
  split at returned
  · simp at returned
  · rw [pure_apply] at returned
    exact ⟨(Prod.mk.inj returned).2.symm, trivial⟩

theorem removeHost_live {envName hostname : String} {id : Nat} {result : Bool}
    (quiet : world.Quiet)
    (returned : removeHost envName hostname id world = (.ok result, after)) :
    world.primary.inst.Live hostname := by
  obtain ⟨final, body, rfl⟩ := inBothTxns_ok quiet returned
  obtain ⟨_, ⟨live, _⟩, _⟩ := pass (fun _ _ => requireNode_live quiet.primary rfl) body
  exact live

theorem removeHost_ok {envName hostname : String} {id : Nat} {result : Bool}
    (quiet : world.Quiet)
    (returned : removeHost envName hostname id world = (.ok result, after)) :
    CallStep world (onPrimary (.erase hostname)) quietly (fun _ => True) after := by
  obtain ⟨final, body, rfl⟩ := inBothTxns_ok quiet returned
  obtain ⟨_, ⟨live, rfl⟩, body₁⟩ := pass (fun _ _ => requireNode_live quiet.primary rfl) body
  obtain ⟨_, _, body₂⟩ := pass (fun _ _ => requireInEnvironment_ok) body₁
  obtain ⟨changed, inner, rfl⟩ := withRangeTxn_ok body₂
  obtain ⟨removed, first, once, inner₁⟩ := bind_eq_ok.mp inner
  obtain ⟨_, second, again, inner₂⟩ := bind_eq_ok.mp inner₁
  obtain ⟨_, rfl⟩ := Prod.mk.inj inner₂
  exact removeTwice_step _ quiet live once again

end RangeApi

end Rangexx
