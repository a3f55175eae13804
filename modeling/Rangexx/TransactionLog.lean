import Rangexx.DecimalText
import Rangexx.RangeHistory

/-!
# The transaction log

A range transaction that ends without an exception appends its request to the
transaction log and then a version to the range changelist.  Every write call
opens exactly one range transaction, with its own name and arguments, so the
two lists grow together as long as the numbers of the log, which have 32 bits,
last.  That a call appends at most once is shown for the program text:
everything else it does keeps the log.
-/

namespace Rangexx

open StateProgram

/-- The names of `write_api_symtable`. -/
def WriteMethod.name : WriteMethod → String
  | .createEnv => "create_env"
  | .removeEnv => "remove_env"
  | .addClusterToEnv => "add_cluster_to_env"
  | .removeClusterFromEnv => "remove_cluster_from_env"
  | .addClusterToCluster => "add_cluster_to_cluster"
  | .removeClusterFromCluster => "remove_cluster_from_cluster"
  | .removeCluster => "remove_cluster"
  | .addHostToCluster => "add_host_to_cluster"
  | .removeHostFromCluster => "remove_host_from_cluster"
  | .addHost => "add_host"
  | .removeHost => "remove_host"
  | .addNodeKeyValue => "add_node_key_value"
  | .removeNodeKeyValue => "remove_node_key_value"
  | .removeKeyFromNode => "remove_key_from_node"
  | .addNodeExtDependency => "add_node_ext_dependency"
  | .removeNodeExtDependency => "remove_node_ext_dependency"

/-- What the log is to say of a call. -/
def WriteCall.request (call : WriteCall) (version : Nat) : Request where
  method := call.method.name
  args := call.args
  proposerId := call.id
  version := version

/-! ## Programs that keep the log -/

namespace Keeps

open Api RangeApi

variable {Value : Type}

theorem onGraph (graph : GraphName) (function : GraphDB → Value × GraphDB) :
    Keeps World.txlog (Api.onGraph graph function) := by
  intro world
  cases graph <;> rfl

theorem remove (graph owner : GraphName) (node : Node) :
    Keeps World.txlog (Api.remove graph owner node) := by
  intro world
  cases detached : node.detach (world.graph graph).version (world.graph owner).inst with
  | none => rw [remove_of_none detached]
  | some result =>
      rw [remove_of_some detached]
      cases graph <;> cases owner <;> rfl

theorem createTyped (graph : GraphName) (name : String) (type : NodeType) :
    Keeps World.txlog (RangeApi.createTyped graph name type) := by
  apply Keeps.bind (onGraph graph _)
  intro created
  cases created with
  | none => exact Keeps.raise _
  | some node => exact onGraph graph _

theorem foundOrCreated (graph : GraphName) (found : Option Node) (name : String)
    (type : NodeType) : Keeps World.txlog (RangeApi.foundOrCreated graph found name type) := by
  cases found with
  | none => exact createTyped graph name type
  | some node => exact Keeps.pure node

theorem createIfMissing (graph : GraphName) (name : String) (type : NodeType) :
    Keeps World.txlog (RangeApi.createIfMissing graph name type) := by
  apply Keeps.bind (Keeps.read _)
  intro found
  cases found with
  | some node => exact Keeps.pure _
  | none =>
      apply Keeps.bind (onGraph graph _)
      intro created
      cases created with
      | none => exact Keeps.pure _
      | some node => exact Keeps.bind (onGraph graph _) fun _ => Keeps.pure _

/-- A change whose result decides whether the call goes on. -/
theorem onGraphOrThrow (graph : GraphName) (function : GraphDB → Bool × GraphDB)
    (error : ApiError) {next : Unit → Api Value} (rest : ∀ value, Keeps World.txlog (next value)) :
    Keeps World.txlog (do
      let result ← Api.onGraph graph function
      let value ← RangeApi.orThrow result error
      next value) :=
  Keeps.bind (onGraph graph function) fun _ => Keeps.bind (Keeps.orThrow _ error) rest

/-- A scope keeps the log also when it is undone, since the tables it goes back
to hold the same log. -/
theorem withGraphTxn {graph : GraphName} {body : Api Value} (keeps : Keeps World.txlog body) :
    Keeps World.txlog (Api.withGraphTxn graph body) := by
  intro world
  cases isSaved : world.saved with
  | some tables =>
      rw [withGraphTxn_locked isSaved]
      have kept := keeps world
      cases graph <;> exact kept
  | none =>
      rw [withGraphTxn_unlocked isSaved]
      have kept := keeps { world with saved := some world.tables }
      cases outcome : body { world with saved := some world.tables } with
      | mk result after =>
          rw [outcome] at kept
          cases result with
          | ok value => cases graph <;> exact kept
          | error error => cases graph <;> rfl

end Keeps

/-! ## Programs that append to it -/

/-- The entry `append_txn` puts into a log. -/
def nextEntry (log : List Request) (request : Request) : Request :=
  { request with version := World.nextKey log }

/-- When the program returns, the log has gained the request. -/
def Appends (request : Request) {Value : Type} (program : Api Value) : Prop :=
  ∀ world value after, program world = (.ok value, after) →
    after.txlog = World.putTxn world.txlog (nextEntry world.txlog request)

namespace Appends

variable {request : Request} {Value Result : Type}

theorem bind {program : Api Value} {next : Value → Api Result}
    (first : Keeps World.txlog program) (second : ∀ value, Appends request (next value)) :
    Appends request (program >>= next) := by
  intro world value after returned
  obtain ⟨middleValue, middle, one, two⟩ := bind_eq_ok.mp returned
  have kept := first world
  rw [one] at kept
  rw [second middleValue middle value after two, show middle.txlog = world.txlog from kept]

theorem raise (error : ApiError) : Appends request (StateProgram.raise error : Api Value) := by
  intro world value after returned
  simp at returned

theorem ite {condition : Prop} [Decidable condition] {first second : Api Value}
    (one : Appends request first) (two : Appends request second) :
    Appends request (if condition then first else second) := by
  split
  · exact one
  · exact two

theorem withRangeTxn {body : Api Value} (keeps : Keeps World.txlog body) :
    Appends request (Api.withRangeTxn request body) := by
  intro world value after returned
  obtain ⟨middle, inner, rfl⟩ := RangeApi.withRangeTxn_ok returned
  have kept := keeps world
  rw [inner] at kept
  have same : middle.txlog = world.txlog := kept
  rw [← same]
  rfl

theorem withGraphTxn {graph : GraphName} {body : Api Value} (appends : Appends request body) :
    Appends request (Api.withGraphTxn graph body) := by
  intro world value after returned
  cases isSaved : world.saved with
  | some tables =>
      rw [RangeApi.withGraphTxn_locked isSaved] at returned
      obtain ⟨isOk, rfl⟩ := Prod.mk.inj returned
      have appended := appends world value (body world).2 (Prod.ext isOk rfl)
      cases graph <;> exact appended
  | none =>
      rw [RangeApi.withGraphTxn_unlocked isSaved] at returned
      cases outcome : body { world with saved := some world.tables } with
      | mk result middle =>
          rw [outcome] at returned
          cases result with
          | error error => simp at returned
          | ok found =>
              obtain ⟨_, rfl⟩ := Prod.mk.inj returned
              have appended := appends _ found middle outcome
              cases graph <;> exact appended

theorem inTxn {graph : GraphName} {body : Api Value} (appends : Appends request body) :
    Appends request (RangeApi.inTxn graph body) :=
  bind (fun world => by rw [RangeApi.graphdb_none]; cases graph <;> rfl)
    fun _ => withGraphTxn appends

theorem inBothTxns {body : Api Value} (appends : Appends request body) :
    Appends request (RangeApi.inBothTxns body) :=
  inTxn (inTxn appends)

end Appends

namespace RangeApi

open Api

/-! ## The calls -/

theorem inEachGraph_appends (request : Request) {scope : GraphName → Api Unit}
    (keeps : ∀ graph, Keeps World.txlog (scope graph)) :
    Appends request (inEachGraph request scope) := by
  apply Appends.withRangeTxn
  refine Keeps.bind (fun world => rfl) fun _ => Keeps.bind (fun world => rfl) fun _ => ?_
  refine Keeps.bind (keeps .primary) fun _ => Keeps.bind (keeps .dependency) fun _ => ?_
  exact Keeps.pure _

theorem createEnvIn_keeps (envName : String) (graph : GraphName) :
    Keeps World.txlog (createEnvIn envName graph) :=
  Keeps.withGraphTxn (Keeps.bind (Keeps.createTyped _ _ _) fun _ => Keeps.pure _)

theorem removeEnvIn_keeps (envName : String) (graph : GraphName) :
    Keeps World.txlog (removeEnvIn envName graph) := by
  refine Keeps.withGraphTxn (Keeps.bind (Keeps.requireNode _ _) fun node => ?_)
  apply Keeps.bind (Keeps.requireType _ _ _)
  intro _
  exact Keeps.bind (Keeps.remove _ _ _) fun _ => Keeps.pure _

theorem addHostIn_keeps (hostname : String) (graph : GraphName) :
    Keeps World.txlog (addHostIn hostname graph) := by
  refine Keeps.withGraphTxn (Keeps.bind (Keeps.read _) fun found => ?_)
  cases found with
  | some node => exact Keeps.raise _
  | none => exact Keeps.bind (Keeps.createTyped _ _ _) fun _ => Keeps.pure _

theorem requireTypeIfFound_keeps (graph : GraphName) (found : Option Node) (expected : NodeType)
    (name : String) : Keeps World.txlog (requireTypeIfFound graph found expected name) := by
  cases found with
  | none => exact Keeps.pure _
  | some node => exact Keeps.requireType _ _ _

theorem requireClusterIfFound_keeps (env : Node) (found : Option Node) (clusterName : String) :
    Keeps World.txlog (requireClusterIfFound env found clusterName) := by
  cases found with
  | none => exact Keeps.pure _
  | some node =>
      refine Keeps.bind (Keeps.read _) fun _ => Keeps.bind (Keeps.read _) fun _ => ?_
      exact Keeps.ite (Keeps.raise _) (Keeps.pure _)

theorem requireSameEnvironment_keeps (envName hostname : String) (found : Option Node) :
    Keeps World.txlog (requireSameEnvironment envName hostname found) := by
  cases found with
  | none => exact Keeps.pure _
  | some node =>
      exact Keeps.bind (Keeps.read _) fun _ => Keeps.ite (Keeps.raise _) (Keeps.pure _)

theorem requireInEnvironment_keeps (envName : String) (node : Node) :
    Keeps World.txlog (requireInEnvironment envName node) :=
  Keeps.bind (Keeps.read _) fun _ => Keeps.ite (Keeps.raise _) (Keeps.pure _)

theorem addClusterToEnv_appends (envName clusterName : String) (id : Nat) :
    Appends ⟨"add_cluster_to_env", [envName, clusterName], id, 0⟩
      (addClusterToEnv envName clusterName id) := by
  refine Appends.inBothTxns (Appends.bind (Keeps.requireNode _ _) fun env => ?_)
  apply Appends.bind (Keeps.read _)
  intro found
  apply Appends.bind (Keeps.requireType _ _ _)
  intro _
  refine Appends.bind (requireClusterIfFound_keeps _ _ _) fun _ => Appends.withRangeTxn ?_
  apply Keeps.bind (Keeps.foundOrCreated _ _ _ _)
  intro node
  apply Keeps.onGraphOrThrow _ _ _
  intro _
  exact Keeps.bind (Keeps.createIfMissing _ _ _) fun _ => Keeps.pure _

theorem removeClusterFromEnv_appends (envName clusterName : String) (id : Nat) :
    Appends ⟨"remove_cluster_from_env", [envName, clusterName], id, 0⟩
      (removeClusterFromEnv envName clusterName id) := by
  refine Appends.inTxn (Appends.bind (Keeps.requireNode _ _) fun env => ?_)
  apply Appends.bind (Keeps.requireNode _ _)
  intro node
  apply Appends.bind (Keeps.requireType _ _ _)
  intro _
  refine Appends.bind (Keeps.requireType _ _ _) fun _ => Appends.withRangeTxn ?_
  exact Keeps.onGraphOrThrow _ _ _ fun _ => Keeps.pure _

theorem addClusterToCluster_appends (envName parentCluster childCluster : String) (id : Nat) :
    Appends ⟨"add_cluster_to_cluster", [envName, parentCluster, childCluster], id, 0⟩
      (addClusterToCluster envName parentCluster childCluster id) := by
  refine Appends.inBothTxns (Appends.bind (Keeps.requireNode _ _) fun parent => ?_)
  apply Appends.bind (Keeps.read _)
  intro found
  apply Appends.bind (Keeps.requireType _ _ _)
  intro _
  refine Appends.bind (requireTypeIfFound_keeps _ _ _ _) fun _ => Appends.withRangeTxn ?_
  apply Keeps.bind (Keeps.foundOrCreated _ _ _ _)
  intro node
  apply Keeps.bind (Keeps.onGraph _ _)
  intro _
  exact Keeps.bind (Keeps.createIfMissing _ _ _) fun _ => Keeps.pure _

theorem removeClusterFromCluster_appends (envName parentCluster childCluster : String)
    (id : Nat) :
    Appends ⟨"remove_cluster_from_cluster", [envName, parentCluster, childCluster], id, 0⟩
      (removeClusterFromCluster envName parentCluster childCluster id) := by
  refine Appends.inTxn (Appends.bind (Keeps.requireNode _ _) fun parent => ?_)
  apply Appends.bind (Keeps.requireNode _ _)
  intro node
  apply Appends.bind (Keeps.requireType _ _ _)
  intro _
  refine Appends.bind (Keeps.requireType _ _ _) fun _ => Appends.withRangeTxn ?_
  exact Keeps.onGraphOrThrow _ _ _ fun _ => Keeps.pure _

/-- Both graphs are asked to remove one object. -/
theorem removeTwice_keeps (node : Node) :
    Keeps World.txlog (do
      let node ← remove .primary .primary node
      let _ ← remove .dependency .primary node
      return true) :=
  Keeps.bind (Keeps.remove _ _ _) fun _ => Keeps.bind (Keeps.remove _ _ _) fun _ => Keeps.pure _

theorem removeCluster_appends (envName clusterName : String) (id : Nat) :
    Appends ⟨"remove_cluster", [envName, clusterName], id, 0⟩
      (removeCluster envName clusterName id) := by
  refine Appends.inBothTxns (Appends.bind (Keeps.requireNode _ _) fun node => ?_)
  apply Appends.bind (Keeps.requireType _ _ _)
  intro _
  exact Appends.withRangeTxn (removeTwice_keeps node)

theorem addHostToCluster_appends (envName parentCluster hostname : String) (id : Nat) :
    Appends ⟨"add_host_to_cluster", [envName, parentCluster, hostname], id, 0⟩
      (addHostToCluster envName parentCluster hostname id) := by
  refine Appends.inBothTxns (Appends.bind (Keeps.requireNode _ _) fun parent => ?_)
  apply Appends.bind (Keeps.read _)
  intro found
  apply Appends.bind (Keeps.requireType _ _ _)
  intro _
  refine Appends.bind (requireTypeIfFound_keeps _ _ _ _) fun _ => Appends.withRangeTxn ?_
  apply Keeps.bind (requireSameEnvironment_keeps _ _ _)
  intro _
  apply Keeps.bind (Keeps.foundOrCreated _ _ _ _)
  intro node
  apply Keeps.onGraphOrThrow _ _ _
  intro _
  exact Keeps.bind (Keeps.createIfMissing _ _ _) fun _ => Keeps.pure _

theorem removeHostFromCluster_appends (envName parentCluster hostname : String) (id : Nat) :
    Appends ⟨"remove_host_from_cluster", [envName, parentCluster, hostname], id, 0⟩
      (removeHostFromCluster envName parentCluster hostname id) := by
  refine Appends.inTxn (Appends.bind (Keeps.read _) fun parent => ?_)
  apply Appends.bind (Keeps.read _)
  intro found
  cases parent with
  | none => exact Appends.raise _
  | some parent =>
      cases found with
      | none => exact Appends.raise _
      | some node =>
          apply Appends.bind (Keeps.requireType _ _ _)
          intro _
          refine Appends.bind (Keeps.requireType _ _ _) fun _ => Appends.withRangeTxn ?_
          exact Keeps.onGraphOrThrow _ _ _ fun _ => Keeps.pure _

theorem removeHost_appends (envName hostname : String) (id : Nat) :
    Appends ⟨"remove_host", [envName, hostname], id, 0⟩ (removeHost envName hostname id) := by
  refine Appends.inBothTxns (Appends.bind (Keeps.requireNode _ _) fun node => ?_)
  apply Appends.bind (requireInEnvironment_keeps _ _)
  intro _
  exact Appends.withRangeTxn (removeTwice_keeps node)

theorem addNodeKeyValue_appends (envName nodeName key value : String) (id : Nat) :
    Appends ⟨"add_node_key_value", [envName, nodeName, key, value], id, 0⟩
      (addNodeKeyValue envName nodeName key value id) := by
  refine Appends.inTxn (Appends.bind (Keeps.requireKeyedNode _ _) fun node => ?_)
  apply Appends.bind (Keeps.read _)
  intro values
  exact Appends.ite (Appends.raise _) (Appends.withRangeTxn (Keeps.onGraph _ _))

theorem removeNodeKeyValue_appends (envName nodeName key value : String) (id : Nat) :
    Appends ⟨"remove_node_key_value", [envName, nodeName, key, value], id, 0⟩
      (removeNodeKeyValue envName nodeName key value id) := by
  refine Appends.inTxn (Appends.bind (Keeps.requireKeyedNode _ _) fun node => ?_)
  apply Appends.bind (Keeps.read _)
  intro values
  exact Appends.ite (Appends.raise _)
    (Appends.withRangeTxn (Keeps.onGraphOrThrow _ _ _ fun _ => Keeps.pure _))

theorem removeKeyFromNode_appends (envName nodeName key : String) (id : Nat) :
    Appends ⟨"remove_key_from_node", [envName, nodeName, key], id, 0⟩
      (removeKeyFromNode envName nodeName key id) := by
  refine Appends.inTxn (Appends.bind (Keeps.requireKeyedNode _ _) fun node => ?_)
  exact Appends.withRangeTxn (Keeps.onGraphOrThrow _ _ _ fun _ => Keeps.pure _)

theorem addNodeExtDependency_appends (envName nodeName dependencyEnv dependencyName : String)
    (id : Nat) :
    Appends ⟨"add_node_ext_dependency", [envName, nodeName, dependencyEnv, dependencyName],
      id, 0⟩ (addNodeExtDependency envName nodeName dependencyEnv dependencyName id) := by
  refine Appends.inTxn (Appends.bind (Keeps.dependencyEnds _ _ _ _) fun ends => ?_)
  apply Appends.bind (Keeps.read _)
  intro type
  exact Appends.ite (Appends.raise _)
    (Appends.withRangeTxn (Keeps.onGraphOrThrow _ _ _ fun _ => Keeps.pure _))

theorem removeNodeExtDependency_appends
    (envName nodeName dependencyEnv dependencyName : String) (id : Nat) :
    Appends ⟨"remove_node_ext_dependency", [envName, nodeName, dependencyEnv, dependencyName],
      id, 0⟩ (removeNodeExtDependency envName nodeName dependencyEnv dependencyName id) := by
  refine Appends.inTxn (Appends.bind (Keeps.dependencyEnds _ _ _ _) fun ends => ?_)
  exact Appends.withRangeTxn (Keeps.onGraphOrThrow _ _ _ fun _ => Keeps.pure _)

end RangeApi

namespace WriteCall

open RangeApi

theorem run_appends (call : WriteCall) : Appends (call.request 0) call.run := by
  obtain ⟨method, args, id⟩ := call
  unfold run
  dsimp only
  split
  · exact inEachGraph_appends _ (createEnvIn_keeps _)
  · exact inEachGraph_appends _ (removeEnvIn_keeps _)
  · exact addClusterToEnv_appends _ _ _
  · exact removeClusterFromEnv_appends _ _ _
  · exact addClusterToCluster_appends _ _ _ _
  · exact removeClusterFromCluster_appends _ _ _ _
  · exact removeCluster_appends _ _ _
  · exact addHostToCluster_appends _ _ _ _
  · exact removeHostFromCluster_appends _ _ _ _
  · exact inEachGraph_appends _ (addHostIn_keeps _)
  · exact removeHost_appends _ _ _
  · exact addNodeKeyValue_appends _ _ _ _ _
  · exact removeNodeKeyValue_appends _ _ _ _ _
  · exact removeKeyFromNode_appends _ _ _ _
  · exact addNodeExtDependency_appends _ _ _ _ _
  · exact removeNodeExtDependency_appends _ _ _ _ _
  · exact Appends.raise _

end WriteCall

/-! ## Sequences of calls -/

namespace World

section Step

variable {world : World} (quiet : world.Quiet) {call : WriteCall}

include quiet

/-- A call that throws leaves the log and the range version. -/
theorem Quiet.log_of_thrown (thrown : ¬ world.Returns call) :
    (call.run world).2.rangeVersion = world.rangeVersion ∧
      (call.run world).2.txlog = world.txlog := by
  cases outcome : call.run world with
  | mk result after =>
      cases result with
      | ok value =>
          unfold Returns at thrown
          rw [outcome] at thrown
          exact absurd rfl thrown
      | error error =>
          rcases WriteCall.run_error quiet outcome with ⟨_, same, _⟩ | ⟨_, step⟩
          · exact ⟨congrArg (fun tables => tables.rangeChanges.currentVersion) same,
              congrArg Tables.txlog same⟩
          · exact ⟨congrArg ChangeList.currentVersion step.ranges, step.txlog⟩

/-- A call that returns puts its request into the log and adds one to the range
version. -/
theorem Quiet.log_of_returns (returns : world.Returns call) :
    (call.run world).2.rangeVersion = world.rangeVersion + 1 ∧
      (call.run world).2.txlog =
        putTxn world.txlog (nextEntry world.txlog (call.request 0)) := by
  cases outcome : call.run world with
  | mk result after =>
      cases result with
      | ok value =>
          exact ⟨congrArg ChangeList.currentVersion (WriteCall.run_ok quiet outcome).recorded,
            call.run_appends world value after outcome⟩
      | error error =>
          unfold Returns at returns
          rw [outcome] at returns
          simp [failed] at returns

end Step

/-! ## Numbers of 32 bits -/

variable {world : World}

theorem Quiet.rangeVersion_le (quiet : world.Quiet) (sequence : List WriteCall) :
    world.rangeVersion ≤ (world.calls sequence).rangeVersion := by
  induction sequence generalizing world with
  | nil => exact Nat.le_refl _
  | cons call rest ih =>
      have onward := ih (WriteCall.run_quiet quiet call)
      by_cases returns : world.Returns call
      · rw [(quiet.log_of_returns returns).1] at onward
        exact Nat.le_of_succ_le onward
      · rwa [(quiet.log_of_thrown returns).1] at onward

/-- A call that returns gets a number that has not been used. -/
def NumberLeft (world : World) (call : WriteCall) : Prop :=
  world.Returns call → world.rangeVersion + 1 < 2 ^ 32

/-- The numbers last exactly when the range version still fits at the end. -/
theorem Quiet.numbers_left_iff (quiet : world.Quiet) (fits : world.rangeVersion < 2 ^ 32)
    (sequence : List WriteCall) :
    Along NumberLeft world sequence ↔ (world.calls sequence).rangeVersion < 2 ^ 32 := by
  induction sequence generalizing world with
  | nil => exact iff_of_true trivial fits
  | cons call rest ih =>
      have onward := @ih _ (WriteCall.run_quiet quiet call)
      have grows := (WriteCall.run_quiet quiet call).rangeVersion_le rest
      by_cases returns : world.Returns call
      · rw [(quiet.log_of_returns returns).1] at onward grows
        by_cases left : world.rangeVersion + 1 < 2 ^ 32
        · exact (and_iff_right fun _ => left).trans (onward left)
        · refine iff_of_false (fun along => left (along.1 returns)) (Nat.not_lt_of_le ?_)
          exact (Nat.le_of_not_lt left).trans grows
      · rw [(quiet.log_of_thrown returns).1] at onward
        exact (and_iff_right fun returned => absurd returned returns).trans (onward fits)

/-- A version above all others goes to the end. -/
theorem putTxn_of_greatest {log : List Request} {change : Request}
    (greatest : ∀ request ∈ log, request.version < change.version) :
    putTxn log change = log ++ [change] := by
  have below : (log.filter fun request => request.version < change.version) = log :=
    List.filter_eq_self.mpr fun request member => decide_eq_true (greatest request member)
  have above : (log.filter fun request => change.version < request.version) = [] := by
    rw [List.filter_eq_nil_iff]
    intro request member
    simpa using (greatest request member).le
  unfold putTxn
  rw [below, above]

/-- In a log numbered from one, the next entry gets the next number, if there
is one. -/
theorem putTxn_nextEntry {log : List Request} {version : Nat}
    (numbered : log.map Request.version = List.range' 1 version) (left : version + 1 < 2 ^ 32)
    (call : WriteCall) :
    putTxn log (nextEntry log (call.request 0)) = log ++ [call.request (version + 1)] := by
  have last : (log.getLast?.map Request.version) = (List.range' 1 version).getLast? := by
    rw [← numbered, List.getLast?_map]
  have number : nextKey log = version + 1 := by
    unfold nextKey
    rw [List.getLast?_range'] at last
    cases isLast : log.getLast? with
    | none =>
        rw [isLast] at last
        split at last
        · rename_i zero
          rw [zero]
        · simp at last
    | some entry =>
        rw [isLast] at last
        split at last
        · simp at last
        · have sameNumber := Option.some.inj last
          dsimp only
          omega
  have next : nextEntry log (call.request 0) = call.request (version + 1) := by
    unfold nextEntry
    rw [number]
    rfl
  rw [next]
  apply putTxn_of_greatest
  intro request member
  have among := List.mem_map_of_mem (f := Request.version) member
  rw [numbered, List.mem_range'_1] at among
  exact Nat.lt_of_lt_of_le among.2 (by rw [Nat.add_comm]; exact Nat.le_refl _)

theorem calls_concat (sequence : List WriteCall) (call : WriteCall) :
    empty.calls (sequence ++ [call]) = (call.run (empty.calls sequence)).2 := by
  rw [calls_append]
  rfl

/-- No entry has a number of more than 32 bits. -/
theorem txlog_small (sequence : List WriteCall) :
    ∀ entry ∈ (empty.calls sequence).txlog, entry.version < 2 ^ 32 := by
  induction sequence using List.reverseRecOn with
  | nil =>
      intro entry member
      exact absurd member List.not_mem_nil
  | append_singleton before call ih =>
      have quiet := empty_quiet.calls before
      rw [calls_concat]
      by_cases returns : (empty.calls before).Returns call
      · rw [(quiet.log_of_returns returns).2]
        intro entry member
        rcases List.mem_append.mp member with below | rest
        · exact ih entry (List.mem_filter.mp below).1
        rcases List.mem_cons.mp rest with rfl | above
        · change nextKey _ < 2 ^ 32
          unfold nextKey
          split
          · decide
          · exact Nat.mod_lt _ (by decide)
        · exact ih entry (List.mem_filter.mp above).1
      · rw [(quiet.log_of_thrown returns).2]
        exact ih

/-- The log is numbered from one up to the range version. -/
theorem txlog_numbered (sequence : List WriteCall)
    (fits : (empty.calls sequence).rangeVersion < 2 ^ 32) :
    (empty.calls sequence).txlog.map Request.version =
      List.range' 1 (empty.calls sequence).rangeVersion := by
  induction sequence using List.reverseRecOn with
  | nil => rfl
  | append_singleton before call ih =>
      have quiet := empty_quiet.calls before
      rw [calls_concat] at fits ⊢
      by_cases returns : (empty.calls before).Returns call
      · obtain ⟨version, log⟩ := quiet.log_of_returns returns
        rw [version] at fits
        rw [version, log, putTxn_nextEntry (ih (Nat.lt_of_succ_lt fits)) fits, List.map_append,
          ih (Nat.lt_of_succ_lt fits), List.range'_concat]
        simp [WriteCall.request, Nat.add_comm]
      · obtain ⟨version, log⟩ := quiet.log_of_thrown returns
        rw [version] at fits
        rw [version, log, ih fits]

/-! ## The log and the range version -/

/-- The call of a sequence that a log entry is about. -/
def LogsCall (sequence : List WriteCall) (entry : Request) : Prop :=
  ∃ before call after, sequence = before ++ call :: after ∧
    (empty.calls before).Returns call ∧
    entry = call.request (empty.calls (before ++ [call])).rangeVersion

theorem LogsCall.concat {sequence : List WriteCall} {entry : Request}
    (logged : LogsCall sequence entry) (call : WriteCall) :
    LogsCall (sequence ++ [call]) entry := by
  obtain ⟨before, made, after, rfl, returns, same⟩ := logged
  exact ⟨before, made, after ++ [call], by simp, returns, same⟩

theorem txlog_logsCall (sequence : List WriteCall)
    (fits : (empty.calls sequence).rangeVersion < 2 ^ 32) :
    ∀ entry ∈ (empty.calls sequence).txlog, LogsCall sequence entry := by
  induction sequence using List.reverseRecOn with
  | nil =>
      intro entry member
      exact absurd member List.not_mem_nil
  | append_singleton before call ih =>
      have quiet := empty_quiet.calls before
      intro entry member
      rw [calls_concat] at fits member
      by_cases returns : (empty.calls before).Returns call
      · obtain ⟨version, log⟩ := quiet.log_of_returns returns
        rw [version] at fits
        have numbered := txlog_numbered before (Nat.lt_of_succ_lt fits)
        rw [log, putTxn_nextEntry numbered fits, List.mem_append, List.mem_singleton] at member
        rcases member with old | rfl
        · exact (ih (Nat.lt_of_succ_lt fits) entry old).concat call
        · refine ⟨before, call, [], rfl, returns, ?_⟩
          rw [calls_concat, version]
      · obtain ⟨version, log⟩ := quiet.log_of_thrown returns
        rw [version] at fits
        rw [log] at member
        exact (ih fits entry member).concat call

/-- The transaction log and the range version in lockstep: the log has one entry
for each range version, in order, about the call that produced the version; a
call that returns adds one to both, and one that throws adds to neither. -/
structure Lockstep (sequence : List WriteCall) : Prop where
  numbered : (empty.calls sequence).txlog.map Request.version =
    List.range' 1 (empty.calls sequence).rangeVersion
  logged : ∀ entry ∈ (empty.calls sequence).txlog, ∃ before call after,
    sequence = before ++ call :: after ∧ (empty.calls before).Returns call ∧
    (empty.calls (before ++ [call])).rangeVersion = entry.version ∧
    entry.method = call.method.name ∧ entry.args = call.args
  grown : ∀ before call after, sequence = before ++ call :: after →
    (empty.calls before).Returns call →
      (empty.calls (before ++ [call])).rangeVersion = (empty.calls before).rangeVersion + 1 ∧
      (empty.calls (before ++ [call])).txlog = (empty.calls before).txlog ++
        [call.request (empty.calls (before ++ [call])).rangeVersion]
  kept : ∀ before call after, sequence = before ++ call :: after →
    ¬ (empty.calls before).Returns call →
      (empty.calls (before ++ [call])).rangeVersion = (empty.calls before).rangeVersion ∧
      (empty.calls (before ++ [call])).txlog = (empty.calls before).txlog

/-- A name for each host. -/
def hostName (number : Nat) : String :=
  String.ofList ('h' :: DecimalText.padded 10 number)

theorem hostName_injective : Function.Injective hostName := by
  intro first second same
  exact DecimalText.padded_injective 10 (List.tail_eq_of_cons_eq (String.ofList_injective same))

/-- Some hosts, added one after the other. -/
def hostsAdded (count : Nat) : List WriteCall :=
  (List.range count).map fun number => ⟨.addHost, [hostName number], number⟩

/-- Adding a host returns as long as the name is new. -/
theorem hostsAdded_calls (count : Nat) :
    (empty.calls (hostsAdded count)).rangeVersion = count ∧
      ∀ graph number, count ≤ number →
        (empty.calls (hostsAdded count)).roster graph (hostName number) = none := by
  induction count with
  | zero => exact ⟨rfl, fun graph _ _ => by cases graph <;> rfl⟩
  | succ count ih =>
      obtain ⟨version, unused⟩ := ih
      have quiet := empty_quiet.calls (hostsAdded count)
      have absent (graph : GraphName) :
          ¬ ((empty.calls (hostsAdded count)).graph graph).inst.Live (hostName count) := by
        intro live
        have none := unused graph count (Nat.le_refl _)
        rw [roster, GraphDB.roster_ofInstance (quiet.graph graph), if_pos live] at none
        cases none
      obtain ⟨after, returned, step⟩ := RangeApi.inEachGraph_accepted
        (RangeApi.addHostIn_spec (hostName count)) quiet
        ⟨"add_host", [hostName count], count, 0⟩ (absent .primary) (absent .dependency)
      have isAfter : empty.calls (hostsAdded (count + 1)) = after := by
        rw [hostsAdded, List.range_succ, List.map_append, calls_append]
        exact congrArg Prod.snd returned
      rw [isAfter]
      refine ⟨(congrArg ChangeList.currentVersion step.recorded).trans
        (congrArg (· + 1) version), fun graph number later => ?_⟩
      have other : hostName number ≠ hostName count := by
        intro same
        have := hostName_injective same
        omega
      rw [roster, (step.graphs graph).roster]
      exact (if_neg other).trans (unused graph number (Nat.le_of_succ_le later))

end World

end Rangexx
