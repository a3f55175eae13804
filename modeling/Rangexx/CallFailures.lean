import Rangexx.CallSteps

/-!
# Calls that throw

A call that throws inside its outermost graph transaction leaves the tables as
they were.  `create_env`, `remove_env` and `add_host` work on the two graphs in
two transactions, one after the other: when the second one throws, the first
has already been committed.
-/

namespace Rangexx

open StateProgram

namespace World

/-- Both graphs opened, and no transaction started. -/
def prepared (world : World) : World :=
  { world with
    primary := .ofInstance world.primary.inst
    dependency := .ofInstance world.dependency.inst }

theorem Quiet.prepared {world : World} (quiet : world.Quiet) : world.prepared.Quiet :=
  ⟨quiet.primary, quiet.dependency, quiet.saved⟩

theorem inst_of_tables {world other : World} (same : other.tables = world.tables)
    (graph : GraphName) : (other.graph graph).inst = (world.graph graph).inst := by
  cases graph with
  | primary => exact congrArg Tables.primary same
  | dependency => exact congrArg Tables.dependency same

theorem pending_endTxn_true (graph : GraphDB) (startVersion : Nat) :
    (graph.endTxn startVersion true).inst.pendingChanges = ∅ := by
  simp [GraphDB.endTxn, Instance.abort]

private theorem restored {inst stored : GraphInstance} (nothing : inst.pendingChanges = ∅)
    (committed : Committed stored) :
    ({ inst with records := stored.records, changelist := stored.changelist } : GraphInstance) =
      stored := by
  rw [nothing, ← committed.pending]

theorem tables_undoneBoth {world : World} (quiet : world.Quiet) (middle : World) :
    (world.undoneBoth middle).tables = world.tables := by
  have primary := restored (pending_endTxn_true middle.primary world.primary.version)
    quiet.primary
  have dependency := restored (pending_endTxn_true middle.dependency world.dependency.version)
    quiet.dependency
  simp only [undoneBoth, restore, tables]
  rw [primary, dependency]

theorem tables_undone {world : World} (quiet : world.Quiet) {middle : World}
    {graph : GraphName}
    (others : ∀ name, name ≠ graph → (middle.graph name).inst = (world.graph name).inst) :
    (world.undone middle graph).tables = world.tables := by
  cases graph with
  | primary =>
      have primary := restored (pending_endTxn_true middle.primary world.primary.version)
        quiet.primary
      have same : middle.dependency.inst = world.dependency.inst := others .dependency (by simp)
      have nothing : middle.dependency.inst.pendingChanges = ∅ := by
        rw [same]
        exact quiet.dependency.pending
      have dependency := restored nothing quiet.dependency
      simp only [undone, restore, tables, setGraph, World.graph]
      rw [primary, dependency]
  | dependency =>
      have dependency := restored (pending_endTxn_true middle.dependency
        world.dependency.version) quiet.dependency
      have same : middle.primary.inst = world.primary.inst := others .primary (by simp)
      have nothing : middle.primary.inst.pendingChanges = ∅ := by
        rw [same]
        exact quiet.primary.pending
      have primary := restored nothing quiet.primary
      simp only [undone, restore, tables, setGraph, World.graph]
      rw [primary, dependency]

end World

/-! ## Guards

Fetching and checking nodes leaves the world as it is. -/

namespace Keeps

open RangeApi

variable {Part : Type} {part : World → Part} {graph : GraphName}

theorem requireNode (node : String) (error : ApiError) :
    Keeps part (RangeApi.requireNode graph node error) := by
  apply Keeps.bind (Keeps.read _)
  intro found
  cases found with
  | none => exact Keeps.raise _
  | some node => exact Keeps.pure _

theorem requireType (node : Node) (expected : NodeType) (text : String) :
    Keeps part (RangeApi.requireType graph node expected text) :=
  Keeps.bind (Keeps.read _) fun _ => Keeps.ite (Keeps.raise _) (Keeps.pure _)

theorem orThrow (result : Bool) (error : ApiError) :
    Keeps part (RangeApi.orThrow result error) :=
  Keeps.ite (Keeps.pure _) (Keeps.raise _)

theorem requireKeyedNode (envName nodeName : String) :
    Keeps part (RangeApi.requireKeyedNode envName nodeName) := by
  refine Keeps.bind (fun world => by rw [getNode_apply]) fun found => ?_
  cases found with
  | none => exact Keeps.raise _
  | some node => exact Keeps.pure _

theorem dependencyEnds (envName nodeName dependencyEnv dependencyName : String) :
    Keeps part (RangeApi.dependencyEnds envName nodeName dependencyEnv dependencyName) := by
  refine Keeps.bind (Keeps.read _) fun node => Keeps.bind (Keeps.read _) fun other => ?_
  cases node with
  | none => exact Keeps.raise _
  | some node =>
      cases other with
      | none => exact Keeps.raise _
      | some other => exact Keeps.pure _

end Keeps

/-! ## One transaction -/

/-- The program leaves one of the graphs alone. -/
def Spares (name : GraphName) {Value : Type} (program : Api Value) : Prop :=
  Keeps (fun world => (world.graph name).inst) program

namespace Spares

open Api RangeApi

variable {name graph : GraphName} {Value : Type}

theorem onGraph (differs : name ≠ graph) (function : GraphDB → Value × GraphDB) :
    Spares name (Api.onGraph graph function) := by
  intro world
  change ((world.setGraph graph _).graph name).inst = _
  rw [World.graph_setGraph_ne _ differs]

theorem withRangeTxn {body : Api Value} (spares : Spares name body) (request : Request) :
    Spares name (Api.withRangeTxn request body) := by
  intro world
  have kept := spares world
  unfold Api.withRangeTxn
  cases outcome : body world with
  | mk result middle =>
      rw [outcome] at kept
      cases result with
      | ok value => cases name <;> exact kept
      | error error => exact kept

/-- A change whose failure is thrown. -/
theorem changeOrThrow (differs : name ≠ graph) (function : GraphDB → Bool × GraphDB)
    (error : ApiError) :
    Spares name (do
      RangeApi.orThrow (← Api.onGraph graph function) error
      return true) :=
  Keeps.bind (onGraph differs function) fun _ =>
    Keeps.bind (Keeps.orThrow _ error) fun _ => Keeps.pure _

end Spares

namespace RangeApi

open Api

variable {Value : Type} {world after : World} {error : ApiError}

theorem inTxn_error {graph : GraphName} {body : Api Value} (quiet : world.Quiet)
    (spares : ∀ name, name ≠ graph → Spares name body)
    (thrown : inTxn graph body world = (.error error, after)) :
    after.tables = world.tables ∧ after.saved = none := by
  rw [inTxn_apply quiet.saved] at thrown
  have kept : ∀ name, name ≠ graph →
      ((body (world.opened graph)).2.graph name).inst = (world.graph name).inst := by
    intro name differs
    have same : ((world.opened graph).graph name).inst = (world.graph name).inst := by
      cases graph <;> cases name <;> rfl
    exact (spares name differs (world.opened graph)).trans same
  cases outcome : body (world.opened graph) with
  | mk result middle =>
      rw [outcome] at thrown kept
      cases result with
      | ok found => simp at thrown
      | error found =>
          obtain ⟨_, rfl⟩ := Prod.mk.inj thrown
          refine ⟨World.tables_undone quiet kept, ?_⟩
          cases graph <;> rfl

theorem inBothTxns_error {body : Api Value} (quiet : world.Quiet)
    (thrown : inBothTxns body world = (.error error, after)) :
    after.tables = world.tables ∧ after.saved = none := by
  rw [inBothTxns_apply quiet.saved] at thrown
  cases outcome : body world.openedBoth with
  | mk result middle =>
      rw [outcome] at thrown
      cases result with
      | ok found => simp at thrown
      | error found =>
          obtain ⟨_, rfl⟩ := Prod.mk.inj thrown
          exact ⟨World.tables_undoneBoth quiet middle, rfl⟩

theorem removeClusterFromEnv_error {envName clusterName : String} {id : Nat}
    (quiet : world.Quiet)
    (thrown : removeClusterFromEnv envName clusterName id world = (.error error, after)) :
    after.tables = world.tables ∧ after.saved = none := by
  refine inTxn_error quiet (fun name differs => ?_) thrown
  apply Keeps.bind (Keeps.requireNode _ _)
  intro env
  apply Keeps.bind (Keeps.requireNode _ _)
  intro node
  apply Keeps.bind (Keeps.requireType _ _ _)
  intro _
  apply Keeps.bind (Keeps.requireType _ _ _)
  intro _
  exact (Spares.changeOrThrow differs _ _).withRangeTxn _

theorem removeClusterFromCluster_error {envName parentCluster childCluster : String} {id : Nat}
    (quiet : world.Quiet)
    (thrown : removeClusterFromCluster envName parentCluster childCluster id world =
      (.error error, after)) :
    after.tables = world.tables ∧ after.saved = none := by
  refine inTxn_error quiet (fun name differs => ?_) thrown
  apply Keeps.bind (Keeps.requireNode _ _)
  intro parent
  apply Keeps.bind (Keeps.requireNode _ _)
  intro node
  apply Keeps.bind (Keeps.requireType _ _ _)
  intro _
  apply Keeps.bind (Keeps.requireType _ _ _)
  intro _
  exact (Spares.changeOrThrow differs _ _).withRangeTxn _

theorem removeHostFromCluster_error {envName parentCluster hostname : String} {id : Nat}
    (quiet : world.Quiet)
    (thrown : removeHostFromCluster envName parentCluster hostname id world =
      (.error error, after)) :
    after.tables = world.tables ∧ after.saved = none := by
  refine inTxn_error quiet (fun name differs => ?_) thrown
  refine Keeps.bind (Keeps.read _) fun parent => Keeps.bind (Keeps.read _) fun found => ?_
  cases parent with
  | none => exact Keeps.raise _
  | some parent =>
      cases found with
      | none => exact Keeps.raise _
      | some node =>
          apply Keeps.bind (Keeps.requireType _ _ _)
          intro _
          apply Keeps.bind (Keeps.requireType _ _ _)
          intro _
          exact (Spares.changeOrThrow differs _ _).withRangeTxn _

theorem addNodeKeyValue_error {envName nodeName key value : String} {id : Nat}
    (quiet : world.Quiet)
    (thrown : addNodeKeyValue envName nodeName key value id world = (.error error, after)) :
    after.tables = world.tables ∧ after.saved = none := by
  refine inTxn_error quiet (fun name differs => ?_) thrown
  apply Keeps.bind (Keeps.requireKeyedNode _ _)
  intro node
  apply Keeps.bind (Keeps.read _)
  intro values
  exact Keeps.ite (Keeps.raise _) ((Spares.onGraph differs _).withRangeTxn _)

theorem removeNodeKeyValue_error {envName nodeName key value : String} {id : Nat}
    (quiet : world.Quiet)
    (thrown : removeNodeKeyValue envName nodeName key value id world = (.error error, after)) :
    after.tables = world.tables ∧ after.saved = none := by
  refine inTxn_error quiet (fun name differs => ?_) thrown
  apply Keeps.bind (Keeps.requireKeyedNode _ _)
  intro node
  apply Keeps.bind (Keeps.read _)
  intro values
  exact Keeps.ite (Keeps.raise _) ((Spares.changeOrThrow differs _ _).withRangeTxn _)

theorem removeKeyFromNode_error {envName nodeName key : String} {id : Nat}
    (quiet : world.Quiet)
    (thrown : removeKeyFromNode envName nodeName key id world = (.error error, after)) :
    after.tables = world.tables ∧ after.saved = none := by
  refine inTxn_error quiet (fun name differs => ?_) thrown
  apply Keeps.bind (Keeps.requireKeyedNode _ _)
  intro node
  exact (Spares.changeOrThrow differs _ _).withRangeTxn _

theorem addNodeExtDependency_error {envName nodeName dependencyEnv dependencyName : String}
    {id : Nat} (quiet : world.Quiet)
    (thrown : addNodeExtDependency envName nodeName dependencyEnv dependencyName id world =
      (.error error, after)) :
    after.tables = world.tables ∧ after.saved = none := by
  refine inTxn_error quiet (fun name differs => ?_) thrown
  apply Keeps.bind (Keeps.dependencyEnds _ _ _ _)
  intro ends
  apply Keeps.bind (Keeps.read _)
  intro type
  exact Keeps.ite (Keeps.raise _) ((Spares.changeOrThrow differs _ _).withRangeTxn _)

theorem removeNodeExtDependency_error {envName nodeName dependencyEnv dependencyName : String}
    {id : Nat} (quiet : world.Quiet)
    (thrown : removeNodeExtDependency envName nodeName dependencyEnv dependencyName id world =
      (.error error, after)) :
    after.tables = world.tables ∧ after.saved = none := by
  refine inTxn_error quiet (fun name differs => ?_) thrown
  apply Keeps.bind (Keeps.dependencyEnds _ _ _ _)
  intro ends
  exact (Spares.changeOrThrow differs _ _).withRangeTxn _

end RangeApi

/-! ## Two transactions, one after the other -/

/-- What a scope on one graph does: it is accepted and makes one step, or it
throws and leaves the tables alone. -/
structure ScopeSpec (scope : GraphName → Api Unit) (accepts : GraphInstance → Prop)
    (change : Roster.Change String NodeType) : Prop where
  accepted : ∀ graph world, world.Quiet → world.graph graph =
      .ofInstance (world.graph graph).inst → accepts (world.graph graph).inst →
    ∃ after, scope graph world = (.ok (), world.setGraph graph after) ∧
      GraphStep (world.graph graph).inst change .still
        (¬ Revives (world.graph graph).inst change) True after.inst ∧
      after.inst.changelist.currentVersion =
        (world.graph graph).inst.changelist.currentVersion + 1
  refused : ∀ graph world, world.Quiet → world.graph graph =
      .ofInstance (world.graph graph).inst → ¬ accepts (world.graph graph).inst →
    ∃ error after, scope graph world = (.error error, after) ∧
      after.tables = world.tables ∧ after.saved = none

namespace RangeApi

open Api

/-- A transaction scope whose body returned. -/
theorem withGraphTxn_returned {world : World} {graph : GraphName} {Value : Type} {value : Value}
    {body : Api Value} {ended : GraphDB} (quiet : world.Quiet)
    (returned : body { world with saved := some world.tables } =
      (.ok value, ({ world with saved := some world.tables } : World).setGraph graph ended)) :
    withGraphTxn graph body world = (.ok value,
      world.setGraph graph (ended.endTxn (world.graph graph).inst.version false)) := by
  rw [withGraphTxn_unlocked quiet.saved, returned]
  have unlocked := quiet.saved
  cases graph with
  | primary =>
      simp only [World.closed, World.setGraph, World.graph, GraphDB.version]
      rw [unlocked]
  | dependency =>
      simp only [World.closed, World.setGraph, World.graph, GraphDB.version]
      rw [unlocked]

/-- A transaction scope whose body threw before it changed anything. -/
theorem withGraphTxn_thrown {world : World} {graph : GraphName} {Value : Type}
    {body : Api Value} {error : ApiError} (quiet : world.Quiet)
    (thrown : body { world with saved := some world.tables } =
      (.error error, { world with saved := some world.tables })) :
    ∃ after, withGraphTxn graph body world = (.error error, after) ∧
      after.tables = world.tables ∧ after.saved = none := by
  rw [withGraphTxn_unlocked quiet.saved, thrown]
  refine ⟨_, rfl, World.tables_undone quiet ?_, ?_⟩
  · intro name _
    cases name <;> rfl
  · cases graph <;> rfl

/-- The world inside a transaction scope. -/
theorem graph_locked (world : World) (tables : Option Tables) (graph : GraphName) :
    World.graph { world with saved := tables } graph = world.graph graph := by
  cases graph <;> rfl

/-- A scope that ends with the creation of a node that is not live. -/
theorem created_scope {world : World} {graph : GraphName} {name : String} {type : NodeType}
    {body : Api Unit} (quiet : world.Quiet)
    (opened : world.graph graph = .ofInstance (world.graph graph).inst)
    (absent : ¬ (world.graph graph).inst.Live name)
    (creates : body { world with saved := some world.tables } =
      (createTyped graph name type >>= fun _ => pure ())
        { world with saved := some world.tables }) :
    ∃ after, withGraphTxn graph body world = (.ok (), world.setGraph graph after) ∧
      GraphStep (world.graph graph).inst (.ensure name type) .still
        (¬ Revives (world.graph graph).inst (.ensure name type)) True after.inst ∧
      after.inst.changelist.currentVersion =
        (world.graph graph).inst.changelist.currentVersion + 1 := by
  have committed := quiet.graph graph
  have locked := graph_locked world (some world.tables) graph
  obtain ⟨inst, created, facts⟩ :=
    createTyped_of_absent committed (locked.trans opened) absent type
  have returned : body { world with saved := some world.tables } =
      (.ok (), ({ world with saved := some world.tables } : World).setGraph graph
        (.ofInstance inst)) := by
    rw [creates, bind_of_ok created]
    rfl
  have first := facts _ (Or.inl (Nat.le_refl _))
  have ending : Ending _ _ .still (¬ Revives _ (.ensure name type)) True (.ofInstance inst) :=
    (Ending.created committed absent facts).mono (not_revives_ensure absent) id
  refine ⟨_, withGraphTxn_returned quiet returned, ending.step, ?_⟩
  rw [← ending.version]
  exact first.draft.working.version_of_pending first.touched.pending_pos

theorem createEnvIn_spec (envName : String) :
    ScopeSpec (createEnvIn envName) (fun base => ¬ base.Live envName)
      (.ensure envName .environment) where
  accepted := by
    intro graph world quiet opened absent
    exact created_scope quiet opened absent rfl
  refused := by
    intro graph world quiet opened live
    have locked := graph_locked world (some world.tables) graph
    have thrown : createTyped graph envName .environment
        { world with saved := some world.tables } = _ :=
      createTyped_of_live (quiet.graph graph) (locked.trans opened) (not_not.mp live)
    exact ⟨_, withGraphTxn_thrown quiet (bind_of_error thrown)⟩

theorem addHostIn_spec (hostname : String) :
    ScopeSpec (addHostIn hostname) (fun base => ¬ base.Live hostname)
      (.ensure hostname .host) where
  accepted := by
    intro graph world quiet opened absent
    apply created_scope quiet opened absent
    rw [Api.getNode, read_bind, graph_locked, opened,
      GraphDB.getNode_ofInstance (quiet.graph graph), if_neg absent]
  refused := by
    intro graph world quiet opened live
    refine ⟨.nodeExists hostname, withGraphTxn_thrown quiet ?_⟩
    rw [Api.getNode, read_bind, graph_locked, opened,
      GraphDB.getNode_ofInstance (quiet.graph graph), if_pos (not_not.mp live)]
    rfl

theorem removeEnvIn_spec (envName : String) :
    ScopeSpec (removeEnvIn envName)
      (fun base => (GraphDB.ofInstance base).roster envName = some .environment)
      (.erase envName) where
  accepted := by
    intro graph world quiet opened accepted
    have committed := quiet.graph graph
    have locked := graph_locked world (some world.tables) graph
    rw [GraphDB.roster_ofInstance committed] at accepted
    split at accepted
    · rename_i live
      have found : (World.graph { world with saved := some world.tables } graph).getNode envName =
          some (Node.loaded (world.graph graph).inst envName) := by
        rw [locked, opened, GraphDB.getNode_ofInstance committed, if_pos live]
        rfl
      have typed : (Node.loaded (world.graph graph).inst envName).type
          (World.graph { world with saved := some world.tables } graph).inst = .environment :=
        Option.some.inj accepted
      obtain ⟨removed, inst, applied, facts⟩ :=
        remove_apply committed (locked.trans opened) live
      have returned : (do
          let node ← requireNode graph envName (.nodeNotFound envName)
          requireType graph node .environment envName
          let _ ← remove graph graph node : Api Unit)
            { world with saved := some world.tables } =
          (.ok (), ({ world with saved := some world.tables } : World).setGraph graph
            { GraphDB.ofInstance inst with removedNodes := [envName] }) := by
        rw [bind_of_ok (requireNode_of_some found),
          bind_of_ok (requireType_of_eq typed), bind_of_ok applied]
        rfl
      have ending : Ending _ (.erase envName) .still
          (¬ Revives (world.graph graph).inst (.erase envName)) True
          { GraphDB.ofInstance inst with removedNodes := [envName] } :=
        Ending.of_removal committed facts.edit rfl facts.touched facts.wired facts.cleared
          fun _ => facts.balanced
      refine ⟨_, withGraphTxn_returned quiet returned, ending.step, ?_⟩
      rw [← ending.version]
      exact (facts.edit 0).version_of_pending facts.touched.pending_pos
    · simp at accepted
  refused := by
    intro graph world quiet opened refused
    have committed := quiet.graph graph
    have locked := graph_locked world (some world.tables) graph
    have fetched : (World.graph { world with saved := some world.tables } graph).getNode envName =
        if (world.graph graph).inst.Live envName then
          some (Node.loaded (world.graph graph).inst envName) else none := by
      rw [locked, opened, GraphDB.getNode_ofInstance committed]
      rfl
    rw [GraphDB.roster_ofInstance committed] at refused
    by_cases live : (world.graph graph).inst.Live envName
    · rw [if_pos live] at refused fetched
      have differs : (Node.loaded (world.graph graph).inst envName).type
          (World.graph { world with saved := some world.tables } graph).inst ≠ .environment :=
        mt (congrArg some) refused
      refine ⟨_, withGraphTxn_thrown quiet
        ((bind_of_ok (requireNode_of_some fetched)).trans
          (bind_of_error (requireType_of_ne differs)))⟩
    · rw [if_neg live] at fetched
      exact ⟨_, withGraphTxn_thrown quiet (bind_of_error (requireNode_of_none fetched))⟩

/-- A call that runs a scope on each graph. -/
def inEachGraph (request : Request) (scope : GraphName → Api Unit) : Api Bool :=
  withRangeTxn request do
    graphdb .primary none
    graphdb .dependency none
    scope .primary
    scope .dependency
    return true

end RangeApi

/-- The first graph takes the step and the second does not. -/
structure HalfStep (world : World) (change : Roster.Change String NodeType) (after : World) :
    Prop where
  primary : GraphStep world.primary.inst change .still
    (¬ Revives world.primary.inst change) True after.primary.inst
  advanced : after.primary.inst.changelist.currentVersion =
    world.primary.inst.changelist.currentVersion + 1
  dependency : after.dependency.inst = world.dependency.inst
  ranges : after.rangeChanges = world.rangeChanges
  txlog : after.txlog = world.txlog
  unlocked : after.saved = none

namespace RangeApi

open Api

section Sequence

variable {scope : GraphName → Api Unit} {accepts : GraphInstance → Prop}
  {change : Roster.Change String NodeType} {world : World}

private theorem inEachGraph_eq (request : Request) (scope : GraphName → Api Unit)
    (world : World) :
    inEachGraph request scope world = withRangeTxn request (do
      scope .primary
      scope .dependency
      return true) world.prepared :=
  rfl

theorem inEachGraph_refused (spec : ScopeSpec scope accepts change) (quiet : world.Quiet)
    (request : Request) (refused : ¬ accepts world.primary.inst) :
    ∃ error after, inEachGraph request scope world = (.error error, after) ∧
      after.tables = world.tables ∧ after.saved = none := by
  obtain ⟨error, after, thrown, same, unlocked⟩ :=
    spec.refused .primary world.prepared quiet.prepared rfl refused
  refine ⟨error, after, ?_, same, unlocked⟩
  rw [inEachGraph_eq, withRangeTxn, bind_of_error thrown]

theorem inEachGraph_half (spec : ScopeSpec scope accepts change) (quiet : world.Quiet)
    (request : Request) (accepted : accepts world.primary.inst)
    (refused : ¬ accepts world.dependency.inst) :
    ∃ error after, inEachGraph request scope world = (.error error, after) ∧
      HalfStep world change after := by
  obtain ⟨graph, returned, step, advanced⟩ :=
    spec.accepted .primary world.prepared quiet.prepared rfl accepted
  have between : (world.prepared.setGraph .primary graph).Quiet :=
    ⟨step.committed, quiet.dependency, quiet.saved⟩
  obtain ⟨error, after, thrown, same, unlocked⟩ :=
    spec.refused .dependency _ between rfl refused
  refine ⟨error, after, ?_, ?_⟩
  · rw [inEachGraph_eq, withRangeTxn, bind_of_ok returned, bind_of_error thrown]
  · have primary : after.primary.inst = graph.inst := congrArg Tables.primary same
    refine ⟨?_, ?_, congrArg Tables.dependency same, congrArg Tables.rangeChanges same,
      congrArg Tables.txlog same, unlocked⟩
    · rw [primary]
      exact step
    · rw [primary]
      exact advanced

theorem inEachGraph_accepted (spec : ScopeSpec scope accepts change) (quiet : world.Quiet)
    (request : Request) (accepted : accepts world.primary.inst)
    (acceptedToo : accepts world.dependency.inst) :
    ∃ after, inEachGraph request scope world = (.ok true, after) ∧
      CallStep world (onBoth change) quietly (fun _ => True) after := by
  obtain ⟨primary, returned, step, advanced⟩ :=
    spec.accepted .primary world.prepared quiet.prepared rfl accepted
  have between : (world.prepared.setGraph .primary primary).Quiet :=
    ⟨step.committed, quiet.dependency, quiet.saved⟩
  obtain ⟨dependency, returnedToo, stepToo, _⟩ :=
    spec.accepted .dependency _ between rfl acceptedToo
  have completed : inEachGraph request scope world = (.ok true,
      (((world.prepared.setGraph .primary primary).setGraph .dependency dependency).appendTxn
        request).addNewRangeVersion) := by
    rw [inEachGraph_eq, withRangeTxn, bind_of_ok returned, bind_of_ok returnedToo]
    rfl
  refine ⟨_, completed, ?_, quiet.saved, ?_, Or.inr ?_⟩
  · intro name
    cases name with
    | primary => exact step
    | dependency => exact stepToo
  · have primaryVersion := step.committed.version_eq
    have dependencyVersion := stepToo.committed.version_eq
    change (⟨world.rangeChanges.currentVersion + 1, world.rangeChanges.change ++
      [⟨world.now, [⟨.primary, primary.inst.version⟩,
        ⟨.dependency, dependency.inst.version⟩]⟩]⟩ : ChangeList RangeChange) = _
    rw [primaryVersion, dependencyVersion]
    rfl
  · change 0 < primary.inst.changelist.currentVersion
    rw [advanced]
    omega

theorem inEachGraph_accepts (spec : ScopeSpec scope accepts change) (quiet : world.Quiet)
    {request : Request} {result : Bool} {after : World}
    (returned : inEachGraph request scope world = (.ok result, after)) :
    accepts world.primary.inst ∧ accepts world.dependency.inst := by
  by_cases accepted : accepts world.primary.inst
  · refine ⟨accepted, ?_⟩
    by_contra refused
    obtain ⟨_, _, thrown, _⟩ := inEachGraph_half spec quiet request accepted refused
    rw [thrown] at returned
    simp at returned
  · obtain ⟨_, _, thrown, _⟩ := inEachGraph_refused spec quiet request accepted
    rw [thrown] at returned
    simp at returned

theorem inEachGraph_ok (spec : ScopeSpec scope accepts change) (quiet : world.Quiet)
    {request : Request} {result : Bool} {after : World}
    (returned : inEachGraph request scope world = (.ok result, after)) :
    CallStep world (onBoth change) quietly (fun _ => True) after := by
  obtain ⟨accepted, acceptedToo⟩ := inEachGraph_accepts spec quiet returned
  obtain ⟨_, completed, step⟩ := inEachGraph_accepted spec quiet request accepted acceptedToo
  rw [completed] at returned
  obtain ⟨_, rfl⟩ := Prod.mk.inj returned
  exact step

theorem inEachGraph_error (spec : ScopeSpec scope accepts change) (quiet : world.Quiet)
    {request : Request} {error : ApiError} {after : World}
    (thrown : inEachGraph request scope world = (.error error, after)) :
    (¬ (accepts world.primary.inst ∧ ¬ accepts world.dependency.inst) ∧
        after.tables = world.tables ∧ after.saved = none) ∨
      (accepts world.primary.inst ∧ ¬ accepts world.dependency.inst ∧
        HalfStep world change after) := by
  by_cases accepted : accepts world.primary.inst
  · by_cases acceptedToo : accepts world.dependency.inst
    · obtain ⟨_, completed, _⟩ :=
        inEachGraph_accepted spec quiet request accepted acceptedToo
      rw [completed] at thrown
      simp at thrown
    · obtain ⟨_, _, outcome, step⟩ :=
        inEachGraph_half spec quiet request accepted acceptedToo
      rw [outcome] at thrown
      obtain ⟨_, rfl⟩ := Prod.mk.inj thrown
      exact Or.inr ⟨accepted, acceptedToo, step⟩
  · obtain ⟨_, _, outcome, same⟩ := inEachGraph_refused spec quiet request accepted
    rw [outcome] at thrown
    obtain ⟨_, rfl⟩ := Prod.mk.inj thrown
    exact Or.inl ⟨fun both => accepted both.1, same⟩

end Sequence

end RangeApi

end Rangexx
