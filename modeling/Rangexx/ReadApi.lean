import Rangexx.Backend
import Rangexx.Worklist

/-!
# The read API

The functions of `read_api.cpp` that the development is about.  A missing
version is the source's `-1` and stands for the current version.  In the
searches all node objects on the stack carry the wanted version of the first
one, so a name stands for its object.
-/

namespace Rangexx

open AscendingScan

namespace RangeApi

open Api

def envPrefix (envName : String) : String :=
  if 0 < envName.length then envName ++ "#" else ""

def unprefixNodeName (envName nodeName : String) : String :=
  if 0 < envName.length ∧ 0 < nodeName.length ∧
      (envPrefix envName).toList <+: nodeName.toList then
    String.ofList (nodeName.toList.drop (envPrefix envName).length)
  else if 0 < nodeName.length then nodeName
  else if 0 < envName.length then envName
  else ""

def prefixedNodeName (envName nodeName : String) : String :=
  if 0 < envName.length ∧ 0 < nodeName.length then envPrefix envName ++ nodeName
  else if 0 < envName.length then envName
  else if 0 < nodeName.length then nodeName
  else ""

/-- `RangeAPI_v1::get_node`. -/
def getNode (graph : GraphName) (envName nodeName : String) : Api (Option Node) := do
  let notFound := ApiError.nodeNotFound (prefixedNodeName envName nodeName)
  if nodeName = "" ∧ envName = "" then return none
  if nodeName = "" then
    match ← Api.getNode graph envName with
    | none => StateProgram.raise notFound
    | some node =>
        if (← nodeType graph node) = .environment then return some node
        else StateProgram.raise notFound
  else if envName = "" then
    match ← Api.getNode graph nodeName with
    | none => StateProgram.raise notFound
    | some node =>
        let type ← nodeType graph node
        if type = .string ∨ type = .host then return some node
        else StateProgram.raise notFound
  else if envName = nodeName then
    match ← Api.getNode graph envName with
    | none => StateProgram.raise notFound
    | some node =>
        if (← nodeType graph node) = .environment then return some node
        else StateProgram.raise notFound
  else
    match ← Api.getNode graph (prefixedNodeName envName nodeName) with
    | some node => return some node
    | none =>
        match ← Api.getNode graph nodeName with
        | none => return none
        | some node =>
            let type ← nodeType graph node
            if type ≠ .host then
              StateProgram.raise (.nodeNotFound
                (prefixedNodeName envName nodeName ++ ":" ++ type.name))
            else return some node

/-- The names of the neighbours of a node object. -/
def neighbourNames (graph : GraphName) (direction : Direction) (node : Node) :
    Api (List String) :=
  StateProgram.read fun world =>
    (node.neighbours direction (world.graph graph).inst).map Node.name

/-- `simple_expand`; the type `UNKNOWN` asks for no particular type. -/
def simpleExpand (envName nodeName : String) (version : Option Nat) (type : NodeType) :
    Api (List String) := do
  graphdb .primary version
  match ← getNode .primary envName nodeName with
  | none => StateProgram.raise (.nodeNotFound (prefixedNodeName envName nodeName))
  | some node =>
      let found ← nodeType .primary node
      if type ≠ .unknown ∧ found ≠ type then
        StateProgram.raise (.incorrectNodeType (found.name ++ " != " ++ type.name))
      else if found ≠ .host then
        let names ← neighbourNames .primary .forward node
        return names.map (unprefixNodeName envName)
      else return []

/-- `get_keys`. -/
def getKeys (envName nodeName : String) (version : Option Nat) : Api (List String) := do
  graphdb .primary version
  match ← getNode .primary envName nodeName with
  | none => StateProgram.raise (.nodeNotFound (prefixedNodeName envName nodeName))
  | some node =>
      StateProgram.read fun world => (node.tags world.primary.inst).keys

/-- `fetch_key`. -/
def fetchKey (envName nodeName key : String) (version : Option Nat) : Api (List String) := do
  graphdb .primary version
  match ← getNode .primary envName nodeName with
  | none => StateProgram.raise (.nodeNotFound (prefixedNodeName envName nodeName))
  | some node =>
      match ← StateProgram.read fun world => (node.tags world.primary.inst).lookup key with
      | none => StateProgram.raise (.keyNotFound key)
      | some values => return values

/-- `get_clusters`. -/
def getClusters (envName nodeName : String) (version : Option Nat) : Api (List String) := do
  graphdb .primary version
  let notFound := ApiError.nodeNotFound (prefixedNodeName envName nodeName)
  let node ← match ← Api.getNode .primary (prefixedNodeName envName nodeName) with
    | some node => pure node
    | none =>
        match ← Api.getNode .primary nodeName with
        | none => StateProgram.raise notFound
        | some node =>
            let type ← nodeType .primary node
            if type ≠ .environment ∧ type ≠ .host then StateProgram.raise notFound
            else pure node
  let names ← neighbourNames .primary .reverse node
  return names.map (unprefixNodeName envName)

/-! ## Searches -/

/-- The neighbours of a name, read at a wanted list version. -/
def nextNames (inst : GraphInstance) (direction : Direction) (wanted : Option Nat)
    (name : String) : List String :=
  ((⟨name, wanted, none⟩ : Node).neighbours direction inst).map Node.name

/-- A bound on the number of rounds of a search: every stored edge is pushed
at most once. -/
def searchRounds (inst : GraphInstance) (direction : Direction) : Nat :=
  1 + ((GraphDB.cursorNames inst).map fun name =>
    ((inst.readNode name).edges direction).length).sum

/-- The names a depth-first search from a node visits, in order. -/
def search (inst : GraphInstance) (direction : Direction) (node : Node)
    (visited : List String) : List String :=
  Worklist.visits (nextNames inst direction node.wantedVersion)
    (searchRounds inst direction) [node.name] visited

/-- `all_clusters`. -/
def allClusters (envName : String) (version : Option Nat) : Api (List String) := do
  graphdb .primary version
  match ← Api.getNode .primary envName with
  | none => StateProgram.raise (.nodeNotFound envName)
  | some node =>
      StateProgram.read fun world =>
        ((search world.primary.inst .forward node []).filter fun name =>
          (world.primary.inst.readNode name).nodeType = .cluster).map (unprefixNodeName envName)

/-- The names that pass `version_filter`, in the order of the cursor. -/
def versionFilter (inst : GraphInstance) (version : Nat) : List String :=
  (GraphDB.cursorNames inst).filter fun name =>
    scan version (inst.readNode name).graphVersions = .equal

/-- The common body of `all_environments` and `all_hosts`. -/
def allOfType (type : NodeType) (version : Option Nat) : Api (List String) := do
  graphdb .primary version
  StateProgram.read fun world =>
    (versionFilter world.primary.inst (version.getD world.primary.version)).filter fun name =>
      (world.primary.inst.readNode name).nodeType = type

def allEnvironments (version : Option Nat) : Api (List String) :=
  allOfType .environment version

def allHosts (version : Option Nat) : Api (List String) :=
  allOfType .host version

/-- The first loop of `find_orphaned_nodes`, with the names visited so far. -/
def visitEnvironments (graph : GraphDB) : List String → List String → Option (List String)
  | [], visited => some visited
  | env :: rest, visited =>
      match graph.getNode env with
      | none => none
      | some node =>
          visitEnvironments graph rest (visited ++ search graph.inst .forward node visited)

/-- `find_orphaned_nodes`. -/
def findOrphanedNodes (version : Option Nat) : Api (List (String × String)) := do
  graphdb .primary version
  let envs ← allEnvironments version
  match ← StateProgram.read fun world => visitEnvironments world.primary envs [] with
  | none => StateProgram.raise .nullPointer
  | some visited =>
      StateProgram.read fun world =>
        ((versionFilter world.primary.inst (version.getD world.primary.version)).filter
          fun name => name ∉ visited).map fun name =>
            ((world.primary.inst.readNode name).nodeType.name, name)

end RangeApi

end Rangexx
