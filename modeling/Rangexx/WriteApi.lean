import Rangexx.ReadApi

/-!
# The write API

The sixteen calls of `write_api_symtable`, run on the store itself
(`use_stored` is false).  A call checks its arguments inside the graph
transactions it opens and makes its changes inside a range transaction.  Only
`create_env`, `remove_env` and `add_host` open the two graphs one after the
other, with the range transaction around both.
-/

namespace Rangexx

namespace RangeApi

open Api StateProgram

/-- Open a graph and a transaction on it. -/
def inTxn {Value : Type} (graph : GraphName) (body : Api Value) : Api Value := do
  graphdb graph none
  withGraphTxn graph body

/-- Open both graphs, the primary one first. -/
def inBothTxns {Value : Type} (body : Api Value) : Api Value :=
  inTxn .primary (inTxn .dependency body)

def incorrectType (name : String) (type expected : NodeType) : ApiError :=
  .incorrectNodeType (name ++ " has type " ++ type.name ++ ", should be " ++ expected.name)

/-- Throw unless the node has the expected type. -/
def requireType (graph : GraphName) (node : Node) (expected : NodeType) (name : String) :
    Api Unit := do
  let type ← nodeType graph node
  if type ≠ expected then raise (incorrectType name type expected)

/-- The same for a node that may be missing. -/
def requireTypeIfFound (graph : GraphName) (node : Option Node) (expected : NodeType)
    (name : String) : Api Unit :=
  match node with
  | none => pure ()
  | some node => requireType graph node expected name

/-- Fetch a node or throw. -/
def requireNode (graph : GraphName) (name : String) (error : ApiError) : Api Node := do
  match ← Api.getNode graph name with
  | none => raise error
  | some node => return node

/-- Throw when a result is false. -/
def orThrow (result : Bool) (error : ApiError) : Api Unit :=
  if result then pure () else raise error

/-- Create a node with a type or throw. -/
def createTyped (graph : GraphName) (name : String) (type : NodeType) : Api Node := do
  match ← create graph name with
  | none => raise (.createNode name)
  | some node => setType graph node type

/-- The given node, or a new one. -/
def foundOrCreated (graph : GraphName) (found : Option Node) (name : String)
    (type : NodeType) : Api Node :=
  match found with
  | some node => pure node
  | none => createTyped graph name type

/-- Create a node with a type unless the graph has it. -/
def createIfMissing (graph : GraphName) (name : String) (type : NodeType) : Api Unit := do
  match ← Api.getNode graph name with
  | some _ => pure ()
  | none =>
      match ← create graph name with
      | none => pure ()
      | some node => do
          let _ ← setType graph node type

/-! ## Environments -/

/-- The loop body of `create_env`. -/
def createEnvIn (envName : String) (graph : GraphName) : Api Unit :=
  withGraphTxn graph do
    let _ ← createTyped graph envName .environment

def createEnv (envName : String) (id : Nat) : Api Bool :=
  withRangeTxn ⟨"create_env", [envName], id, 0⟩ do
    graphdb .primary none
    graphdb .dependency none
    createEnvIn envName .primary
    createEnvIn envName .dependency
    return true

/-- The loop body of `remove_env`. -/
def removeEnvIn (envName : String) (graph : GraphName) : Api Unit :=
  withGraphTxn graph do
    let node ← requireNode graph envName (.nodeNotFound envName)
    requireType graph node .environment envName
    let _ ← remove graph graph node

def removeEnv (envName : String) (id : Nat) : Api Bool :=
  withRangeTxn ⟨"remove_env", [envName], id, 0⟩ do
    graphdb .primary none
    graphdb .dependency none
    removeEnvIn envName .primary
    removeEnvIn envName .dependency
    return true

/-! ## Clusters -/

/-- The message for a node of another type than `CLUSTER` names the type of
the environment. -/
def requireClusterIfFound (env : Node) (found : Option Node) (clusterName : String) : Api Unit :=
  match found with
  | none => pure ()
  | some node => do
      let type ← nodeType .primary node
      let envType ← nodeType .primary env
      if type ≠ .cluster then raise (incorrectType clusterName envType .cluster)

def addClusterToEnv (envName clusterName : String) (id : Nat) : Api Bool :=
  inBothTxns do
    let name := prefixedNodeName envName clusterName
    let env ← requireNode .primary envName (.invalidEnvironment envName)
    let found ← Api.getNode .primary name
    requireType .primary env .environment envName
    requireClusterIfFound env found clusterName
    withRangeTxn ⟨"add_cluster_to_env", [envName, clusterName], id, 0⟩ do
      let node ← foundOrCreated .primary found name .cluster
      orThrow (← addForwardEdge .primary env node) (.nodeExists clusterName)
      createIfMissing .dependency name .cluster
      return true

def removeClusterFromEnv (envName clusterName : String) (id : Nat) : Api Bool :=
  inTxn .primary do
    let name := prefixedNodeName envName clusterName
    let env ← requireNode .primary envName (.invalidEnvironment envName)
    let node ← requireNode .primary name (.nodeNotFound name)
    requireType .primary env .environment envName
    requireType .primary node .cluster clusterName
    withRangeTxn ⟨"remove_cluster_from_env", [envName, clusterName], id, 0⟩ do
      orThrow (← removeEdge .primary .forward env node) (.edgeNotFound node.name)
      return true

/-- The result of `add_forward_edge` is not looked at. -/
def addClusterToCluster (envName parentCluster childCluster : String) (id : Nat) : Api Bool :=
  inBothTxns do
    let parentName := prefixedNodeName envName parentCluster
    let childName := prefixedNodeName envName childCluster
    let parent ← requireNode .primary parentName (.nodeNotFound parentName)
    let found ← Api.getNode .primary childName
    requireType .primary parent .cluster parentCluster
    requireTypeIfFound .primary found .cluster childCluster
    withRangeTxn ⟨"add_cluster_to_cluster", [envName, parentCluster, childCluster], id, 0⟩ do
      let node ← foundOrCreated .primary found childName .cluster
      let _ ← addForwardEdge .primary parent node
      createIfMissing .dependency childName .cluster
      return true

def removeClusterFromCluster (envName parentCluster childCluster : String) (id : Nat) :
    Api Bool :=
  inTxn .primary do
    let parentName := prefixedNodeName envName parentCluster
    let childName := prefixedNodeName envName childCluster
    let parent ← requireNode .primary parentName (.nodeNotFound parentName)
    let node ← requireNode .primary childName (.nodeNotFound childName)
    requireType .primary parent .cluster parentCluster
    requireType .primary node .cluster childCluster
    withRangeTxn
        ⟨"remove_cluster_from_cluster", [envName, parentCluster, childCluster], id, 0⟩ do
      orThrow (← removeEdge .primary .forward parent node) (.edgeNotFound node.name)
      return true

/-- Both graphs are asked to remove the node object of the primary graph. -/
def removeCluster (envName clusterName : String) (id : Nat) : Api Bool :=
  inBothTxns do
    let name := prefixedNodeName envName clusterName
    let node ← requireNode .primary name (.nodeNotFound name)
    requireType .primary node .cluster clusterName
    withRangeTxn ⟨"remove_cluster", [envName, clusterName], id, 0⟩ do
      let node ← remove .primary .primary node
      let _ ← remove .dependency .primary node
      return true

/-! ## Hosts -/

/-- The loop over the parents of a host that is already stored. -/
def requireSameEnvironment (envName hostname : String) (found : Option Node) : Api Unit :=
  match found with
  | none => pure ()
  | some node => do
      let outside ← StateProgram.read fun world =>
        (node.neighbours .reverse world.primary.inst).any fun parent =>
          parent.type world.primary.inst = .cluster ∧
            parent.name.toList.take (envName.length + 1) ≠ (envName ++ "#").toList
      if outside then
        raise (.invalidEnvironment (hostname ++ " exists in another environment"))

def addHostToCluster (envName parentCluster hostname : String) (id : Nat) : Api Bool :=
  inBothTxns do
    let parentName := prefixedNodeName envName parentCluster
    let parent ← requireNode .primary parentName (.nodeNotFound parentName)
    let found ← Api.getNode .primary hostname
    requireType .primary parent .cluster parentCluster
    requireTypeIfFound .primary found .host hostname
    withRangeTxn ⟨"add_host_to_cluster", [envName, parentCluster, hostname], id, 0⟩ do
      requireSameEnvironment envName hostname found
      let node ← foundOrCreated .primary found hostname .host
      orThrow (← addForwardEdge .primary parent node) (.nodeExists hostname)
      createIfMissing .dependency hostname .host
      return true

def removeHostFromCluster (envName parentCluster hostname : String) (id : Nat) : Api Bool :=
  inTxn .primary do
    let parentName := prefixedNodeName envName parentCluster
    let parent ← Api.getNode .primary parentName
    let found ← Api.getNode .primary hostname
    match parent, found with
    | none, _ => raise (.nodeNotFound parentName)
    | some _, none => raise (.nodeNotFound (prefixedNodeName envName hostname))
    | some parent, some node => do
        requireType .primary parent .cluster parentCluster
        requireType .primary node .host hostname
        withRangeTxn
            ⟨"remove_host_from_cluster", [envName, parentCluster, hostname], id, 0⟩ do
          orThrow (← removeEdge .primary .reverse node parent) (.edgeNotFound hostname)
          return true

/-- The loop body of `add_host`. -/
def addHostIn (hostname : String) (graph : GraphName) : Api Unit :=
  withGraphTxn graph do
    match ← Api.getNode graph hostname with
    | some node => raise (.nodeExists node.name)
    | none => do
        let _ ← createTyped graph hostname .host

def addHost (hostname : String) (id : Nat) : Api Bool :=
  withRangeTxn ⟨"add_host", [hostname], id, 0⟩ do
    graphdb .primary none
    graphdb .dependency none
    addHostIn hostname .primary
    addHostIn hostname .dependency
    return true

/-- The search of `remove_host`: the first environment met on the way up must
be the given one. -/
def requireInEnvironment (envName : String) (node : Node) : Api Unit := do
  let other ← StateProgram.read fun world =>
    let environments := (search world.primary.inst .reverse node []).filter fun name =>
      (world.primary.inst.readNode name).nodeType = .environment
    !(node.neighbours .reverse world.primary.inst).isEmpty &&
      environments.head?.any fun name => name ≠ envName
  if other then raise (.invalidEnvironment envName)

def removeHost (envName hostname : String) (id : Nat) : Api Bool :=
  inBothTxns do
    let node ← requireNode .primary hostname (.nodeNotFound hostname)
    requireInEnvironment envName node
    withRangeTxn ⟨"remove_host", [envName, hostname], id, 0⟩ do
      let node ← remove .primary .primary node
      let _ ← remove .dependency .primary node
      return true

/-! ## Keys -/

/-- The node whose keys a call changes. -/
def requireKeyedNode (envName nodeName : String) : Api Node := do
  match ← getNode .primary envName nodeName with
  | none => raise (.nodeNotFound (envName ++ "#" ++ nodeName))
  | some node => return node

/-- The values a key has. -/
def currentValues (node : Node) (key : String) : Api (List String) :=
  StateProgram.read fun world => ((node.tags world.primary.inst).lookup key).getD []

def addNodeKeyValue (envName nodeName key value : String) (id : Nat) : Api Bool :=
  inTxn .primary do
    let node ← requireKeyedNode envName nodeName
    let values ← currentValues node key
    if value ∈ values then
      raise (.nodeExists ("value " ++ value ++ " already exists for key " ++ key))
    withRangeTxn ⟨"add_node_key_value", [envName, nodeName, key, value], id, 0⟩ do
      updateTag .primary node key (values ++ [value])

def removeNodeKeyValue (envName nodeName key value : String) (id : Nat) : Api Bool :=
  inTxn .primary do
    let node ← requireKeyedNode envName nodeName
    let values ← currentValues node key
    let newValues := values.filter fun other => other ≠ value
    if newValues.length = values.length then raise (.nodeNotFound "nothing to remove")
    withRangeTxn ⟨"remove_node_key_value", [envName, nodeName, key, value], id, 0⟩ do
      orThrow (← updateTag .primary node key newValues) (.createNode "Unable to update tag")
      return true

def removeKeyFromNode (envName nodeName key : String) (id : Nat) : Api Bool :=
  inTxn .primary do
    let node ← requireKeyedNode envName nodeName
    withRangeTxn ⟨"remove_key_from_node", [envName, nodeName, key], id, 0⟩ do
      orThrow (← deleteTag .primary node key) (.edgeNotFound key)
      return true

/-! ## Dependencies -/

/-- Both ends of a dependency; a missing second end is reported under the name
of its environment. -/
def dependencyEnds (envName nodeName dependencyEnv dependencyName : String) :
    Api (Node × Node) := do
  let node ← Api.getNode .dependency (prefixedNodeName envName nodeName)
  let other ← Api.getNode .dependency (prefixedNodeName dependencyEnv dependencyName)
  match node, other with
  | none, _ => raise (.nodeNotFound (prefixedNodeName envName nodeName))
  | some _, none => raise (.nodeNotFound (prefixedNodeName envName dependencyEnv))
  | some node, some other => return (node, other)

def addNodeExtDependency (envName nodeName dependencyEnv dependencyName : String) (id : Nat) :
    Api Bool :=
  inTxn .dependency do
    let (node, other) ← dependencyEnds envName nodeName dependencyEnv dependencyName
    let type ← nodeType .dependency node
    if type = .environment ∨ type = .unknown then
      raise (.incorrectNodeType (nodeName ++ " has type " ++ type.name ++
        ", but should not be ENVIRONMENT or UNKNOWN"))
    withRangeTxn ⟨"add_node_ext_dependency",
        [envName, nodeName, dependencyEnv, dependencyName], id, 0⟩ do
      orThrow (← addForwardEdge .dependency node other)
        (.nodeExists "dependency already exists")
      return true

def removeNodeExtDependency (envName nodeName dependencyEnv dependencyName : String)
    (id : Nat) : Api Bool :=
  inTxn .dependency do
    let (node, other) ← dependencyEnds envName nodeName dependencyEnv dependencyName
    withRangeTxn ⟨"remove_node_ext_dependency",
        [envName, nodeName, dependencyEnv, dependencyName], id, 0⟩ do
      orThrow (← removeEdge .dependency .forward node other) (.edgeNotFound dependencyName)
      return true

end RangeApi

/-- The keys of `write_api_symtable`. -/
inductive WriteMethod where
  | createEnv
  | removeEnv
  | addClusterToEnv
  | removeClusterFromEnv
  | addClusterToCluster
  | removeClusterFromCluster
  | removeCluster
  | addHostToCluster
  | removeHostFromCluster
  | addHost
  | removeHost
  | addNodeKeyValue
  | removeNodeKeyValue
  | removeKeyFromNode
  | addNodeExtDependency
  | removeNodeExtDependency
  deriving DecidableEq, Repr

structure WriteCall where
  method : WriteMethod
  args : List String
  id : Nat
  deriving DecidableEq, Repr

namespace WriteCall

open RangeApi

/-- `write_api_symtable`: every method takes a fixed number of arguments. -/
def run (call : WriteCall) : Api Bool :=
  match call.method, call.args with
  | .createEnv, [env] => createEnv env call.id
  | .removeEnv, [env] => removeEnv env call.id
  | .addClusterToEnv, [env, cluster] => addClusterToEnv env cluster call.id
  | .removeClusterFromEnv, [env, cluster] => removeClusterFromEnv env cluster call.id
  | .addClusterToCluster, [env, parent, child] => addClusterToCluster env parent child call.id
  | .removeClusterFromCluster, [env, parent, child] =>
      removeClusterFromCluster env parent child call.id
  | .removeCluster, [env, cluster] => removeCluster env cluster call.id
  | .addHostToCluster, [env, parent, host] => addHostToCluster env parent host call.id
  | .removeHostFromCluster, [env, parent, host] =>
      removeHostFromCluster env parent host call.id
  | .addHost, [host] => addHost host call.id
  | .removeHost, [env, host] => removeHost env host call.id
  | .addNodeKeyValue, [env, node, key, value] => addNodeKeyValue env node key value call.id
  | .removeNodeKeyValue, [env, node, key, value] =>
      removeNodeKeyValue env node key value call.id
  | .removeKeyFromNode, [env, node, key] => removeKeyFromNode env node key call.id
  | .addNodeExtDependency, [env, node, otherEnv, other] =>
      addNodeExtDependency env node otherEnv other call.id
  | .removeNodeExtDependency, [env, node, otherEnv, other] =>
      removeNodeExtDependency env node otherEnv other call.id
  | _, _ => StateProgram.raise (.incorrectNumberOfArguments "incorrect # of arguments")

end WriteCall

end Rangexx
