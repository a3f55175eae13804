import Rangexx.NodeHistory
import Rangexx.Instance

/-!
# Node objects and graphs

A `ProtobufNode` object reads its record from the instance the first time the
record is needed and keeps it.  A change is made to this copy, which is then
written back as a whole, so two objects for one node do not see each other's
changes.  Objects are modelled as values: a function that changes an object
returns the changed one.

`add_edge` and `remove_edge` receive the edge list of the object twice, as
`info.forward()` and as `info.mutable_forward()`; both stand for the same list.
-/

namespace Rangexx

open AscendingScan

abbrev GraphInstance :=
  Instance NodeInfo

/-- A `ProtobufNode`; a missing wanted version is the source's `-1`. -/
structure Node where
  name : String
  wantedVersion : Option Nat
  info : Option NodeInfo
  deriving DecidableEq, Repr

namespace Instance

/-- The record a node object finds. -/
def readNode (inst : GraphInstance) (name : String) : NodeInfo :=
  (inst.getRecord (.node, name)).getD NodeInfo.default

end Instance

namespace Node

/-- `NodeIfaceConcreteFactory::createNode`. -/
def createNode (name : String) : Node where
  name := name
  wantedVersion := none
  info := none

/-- `init_info`. -/
def initInfo (node : Node) (inst : GraphInstance) : NodeInfo :=
  node.info.getD (inst.readNode node.name)

/-- `type`. -/
def type (node : Node) (inst : GraphInstance) : NodeType :=
  (node.initInfo inst).nodeType

/-- `tags`. -/
def tags (node : Node) (inst : GraphInstance) : AList fun _ : String => List String :=
  (node.initInfo inst).tagTable node.wantedVersion

/-- `forward_edges` and `reverse_edges`.  A neighbour is created with the
wanted version of this node. -/
def neighbours (node : Node) (direction : Direction) (inst : GraphInstance) : List Node :=
  ((node.initInfo inst).getEdges direction node.wantedVersion).map fun name =>
    ⟨name, node.wantedVersion, none⟩

/-- `commit`: write the object's copy back. -/
def commit (node : Node) (inst : GraphInstance) : Node × GraphInstance :=
  let info := node.initInfo inst
  ({ node with info := some info },
    inst.writeRecord (.node, node.name) info.listVersion info)

/-- The frame of the changing functions: load the record, change it, and write
it back unless the change fails. -/
def change (node : Node) (update : NodeInfo → Option NodeInfo) (inst : GraphInstance) :
    Bool × Node × GraphInstance :=
  let info := node.initInfo inst
  match update info with
  | none => (false, { node with info := some info }, inst)
  | some info => (true, { node with info := some info }.commit inst)

theorem change_of_none {node : Node} {update : NodeInfo → Option NodeInfo}
    {inst : GraphInstance} (failed : update (node.initInfo inst) = none) :
    node.change update inst = (false, { node with info := some (node.initInfo inst) }, inst) := by
  simp [change, failed]

theorem change_of_some {node : Node} {update : NodeInfo → Option NodeInfo}
    {inst : GraphInstance} {changed : NodeInfo}
    (updated : update (node.initInfo inst) = some changed) :
    node.change update inst =
      (true, { node with info := some changed },
        inst.writeRecord (.node, node.name) changed.listVersion changed) := by
  unfold change
  simp only [updated]
  rfl

/-- `add_forward_edge` and `add_reverse_edge` without the other end. -/
def addHalfEdge (node : Node) (direction : Direction) (other : String) (inst : GraphInstance) :
    Bool × Node × GraphInstance :=
  node.change (fun info => info.addEdge direction other) inst

/-- `remove_forward_edge` and `remove_reverse_edge` without the other end. -/
def removeHalfEdge (node : Node) (direction : Direction) (other : String)
    (inst : GraphInstance) : Bool × Node × GraphInstance :=
  node.change (fun info => info.removeEdge direction other) inst

/-- `add_forward_edge` and `add_reverse_edge` with the other end updated. -/
def addEdge (node : Node) (direction : Direction) (other : Node) (inst : GraphInstance) :
    Bool × Node × Node × GraphInstance :=
  match node.addHalfEdge direction other.name inst with
  | (false, node, inst) => (false, node, other, inst)
  | (true, node, inst) =>
      let (_, other, inst) := other.addHalfEdge direction.opposite node.name inst
      (true, node, other, inst)

/-- `remove_forward_edge` and `remove_reverse_edge` with the other end
updated. -/
def removeEdge (node : Node) (direction : Direction) (other : Node) (inst : GraphInstance) :
    Bool × Node × Node × GraphInstance :=
  match node.removeHalfEdge direction other.name inst with
  | (false, node, inst) => (false, node, other, inst)
  | (true, node, inst) =>
      let (_, other, inst) := other.removeHalfEdge direction.opposite node.name inst
      (true, node, other, inst)

/-- `node->add_forward_edge(node, true)`, where both ends are one object. -/
def addSelfLoop (node : Node) (inst : GraphInstance) : Node × GraphInstance :=
  match node.addHalfEdge .forward node.name inst with
  | (false, node, inst) => (node, inst)
  | (true, node, inst) => (node.addHalfEdge .reverse node.name inst).2

/-- `update_tag`. -/
def updateTag (node : Node) (key : String) (values : List String) (inst : GraphInstance) :
    Bool × Node × GraphInstance :=
  node.change (fun info => some (info.updateTag key values)) inst

/-- `delete_tag`. -/
def deleteTag (node : Node) (key : String) (inst : GraphInstance) :
    Bool × Node × GraphInstance :=
  node.change (fun info => info.deleteTag key) inst

/-- `set_type`. -/
def setType (node : Node) (type : NodeType) (inst : GraphInstance) : Node × GraphInstance :=
  (node.change (fun info => some (info.setType type)) inst).2

/-- `add_graph_version`.  The new version goes to the `NODE_META` record; the
`NODE` record receives it with the next write of this object. -/
def addGraphVersion (node : Node) (version : Nat) (inst : GraphInstance) :
    Node × GraphInstance :=
  let info := node.initInfo inst
  if info.graphVersions.any fun graphVersion => version ≤ graphVersion then
    ({ node with info := some info }, inst)
  else
    let info := { info with graphVersions := info.graphVersions ++ [version] }
    ({ node with info := some info },
      (inst.writeRecord (.nodeMeta, node.name) info.listVersion info).flush)

/-- One of the two loops of `GraphDB::remove`. -/
def removeAllEdges (node : Node) (direction : Direction) (inst : GraphInstance) :
    Node × GraphInstance :=
  (node.neighbours direction inst).foldl (fun state affected =>
    let (_, node, _, inst) := state.1.removeEdge direction affected state.2
    (node, inst)) (node, inst)

/-- The part of `GraphDB::remove` that works on the node, given the version of
the graph.  `none` is the null pointer. -/
def detach (node : Node) (version : Nat) (inst : GraphInstance) :
    Option (Node × GraphInstance) :=
  let info := node.initInfo inst
  if scan version info.graphVersions = .older then none
  else
    let (node, inst) := { node with info := some info }.addSelfLoop inst
    let (node, inst) := node.removeAllEdges .reverse inst
    some (node.removeAllEdges .forward inst)

end Node

/-- Exceptions of `GraphDB`; reading outside a list is undefined behaviour in
the source and an error of its own here. -/
inductive GraphError where
  | databaseVersioning (found expected : Nat)
  | outOfBounds
  deriving DecidableEq, Repr

structure GraphDB where
  inst : GraphInstance
  wantedVersion : Option Nat
  nodeVersionMap : AList fun _ : String => Nat
  removedNodes : List String
  deriving DecidableEq

namespace GraphDB

/-- A `GraphDB` constructed for an instance. -/
def ofInstance (inst : GraphInstance) : GraphDB where
  inst := inst
  wantedVersion := none
  nodeVersionMap := ∅
  removedNodes := []

def version (graph : GraphDB) : Nat :=
  graph.inst.version

/-- `has_version_or_higher`; every branch of the source's loop returns, so it
only looks at the last version. -/
def hasVersionOrHigher (wantedVersion : Nat) (graphVersions : List Nat) : Bool :=
  match graphVersions.reverse with
  | [] => false
  | graphVersion :: _ => wantedVersion ≤ graphVersion

/-- `get_node`. -/
def getNode (graph : GraphDB) (name : String) : Option Node :=
  match graph.inst.records.lookup (.node, name) with
  | none => none
  | some _ =>
      let info := graph.inst.readNode name
      let thisVersion := graph.version
      let cmpVersion := graph.wantedVersion.getD thisVersion
      if scan cmpVersion info.graphVersions = .equal then
        some {
          name := name
          wantedVersion :=
            if cmpVersion ≠ thisVersion then graph.nodeVersionMap.lookup name else none
          info := some info }
      else none

/-- `create`. -/
def create (graph : GraphDB) (name : String) : Option Node × GraphDB :=
  let node := Node.createNode name
  let info := node.initInfo graph.inst
  let node := { node with info := some info }
  if hasVersionOrHigher graph.version info.graphVersions then (none, graph)
  else
    let (node, inst) := if info.listVersion = 0 then node.commit graph.inst
      else (node, graph.inst)
    let (node, inst) := node.addGraphVersion inst.version inst
    (some node, { graph with inst := inst })

/-- The names a cursor over the table meets. -/
def cursorNames (inst : GraphInstance) : List String :=
  inst.records.keys.filterMap fun key => if key.1 = .node then some key.2 else none

/-- The names `update_versions` collects in its first loop. -/
def nodesRequiringUpdate (graph : GraphDB) (priorVersion : Nat) : List String :=
  (cursorNames graph.inst).filter fun name =>
    hasVersionOrHigher priorVersion (graph.inst.readNode name).graphVersions &&
      name ∉ graph.removedNodes

/-- The second loop of `update_versions`, for one name. -/
def updateVersion (inst : GraphInstance) (name : String) : GraphInstance :=
  let (node, inst) := (Node.createNode name).addGraphVersion inst.version inst
  (node.commit inst).2

/-- `update_versions`. -/
def updateVersions (graph : GraphDB) (priorVersion : Nat) : GraphDB :=
  { graph with
    inst := (graph.nodesRequiringUpdate priorVersion).foldl updateVersion graph.inst
    removedNodes := [] }

/-- The inner loop of `set_wanted_version`. -/
def noteEntry (map : AList fun _ : String => Nat) (entry : List (ChangeItem RecordKey)) :
    AList fun _ : String => Nat :=
  entry.foldl (fun map item =>
    if item.key.1 = .node then map.insert item.key.2 item.version else map) map

/-- The outer loop of `set_wanted_version`, over the reversed history. -/
def seekVersion (wanted version : Nat) (entries : List (List (ChangeItem RecordKey)))
    (map : AList fun _ : String => Nat) : Option (AList fun _ : String => Nat) :=
  match entries with
  | [] => if wanted ≤ version then none else some map
  | entry :: rest =>
      if wanted ≤ version then seekVersion wanted (version - 1) rest (noteEntry map entry)
      else some map

/-- `set_wanted_version`. -/
def setWantedVersion (graph : GraphDB) (wanted : Option Nat) :
    Except GraphError Bool × GraphDB :=
  if wanted = graph.wantedVersion then (.ok true, graph)
  else
    match wanted with
    | none => (.ok true, { graph with nodeVersionMap := ∅, wantedVersion := none })
    | some target =>
        if target ≤ graph.version then
          let history := graph.inst.getChangeHistory
          if history.length ≠ graph.version then
            (.error (.databaseVersioning history.length graph.version),
              { graph with nodeVersionMap := ∅, wantedVersion := some target })
          else
            match seekVersion target graph.version history.reverse ∅ with
            | none =>
                (.error .outOfBounds,
                  { graph with nodeVersionMap := ∅, wantedVersion := some target })
            | some map =>
                (.ok true, { graph with nodeVersionMap := map, wantedVersion := some target })
        else (.ok false, { graph with nodeVersionMap := ∅ })

/-- `set_type` of a node object of this graph. -/
def setType (graph : GraphDB) (node : Node) (type : NodeType) : Node × GraphDB :=
  let (node, inst) := node.setType type graph.inst
  (node, { graph with inst := inst })

/-- `add_forward_edge` with the other end; the objects are not used again. -/
def addForwardEdge (graph : GraphDB) (node other : Node) : Bool × GraphDB :=
  let (result, _, _, inst) := node.addEdge .forward other graph.inst
  (result, { graph with inst := inst })

/-- `remove_forward_edge` and `remove_reverse_edge` with the other end. -/
def removeEdge (graph : GraphDB) (direction : Direction) (node other : Node) :
    Bool × GraphDB :=
  let (result, _, _, inst) := node.removeEdge direction other graph.inst
  (result, { graph with inst := inst })

/-- `update_tag` of a node object of this graph. -/
def updateTag (graph : GraphDB) (node : Node) (key : String) (values : List String) :
    Bool × GraphDB :=
  let (result, _, inst) := node.updateTag key values graph.inst
  (result, { graph with inst := inst })

/-- `delete_tag` of a node object of this graph. -/
def deleteTag (graph : GraphDB) (node : Node) (key : String) : Bool × GraphDB :=
  let (result, _, inst) := node.deleteTag key graph.inst
  (result, { graph with inst := inst })

/-- `remove`. -/
def remove (graph : GraphDB) (node : Node) : Option Node × GraphDB :=
  match node.detach graph.version graph.inst with
  | none => (none, graph)
  | some (removed, inst) =>
      (some removed,
        { graph with inst := inst, removedNodes := removed.name :: graph.removedNodes })

/-- The destructor of a `GraphTxn` that started at `startVersion`, including
the end of its instance transaction. -/
def endTxn (graph : GraphDB) (startVersion : Nat) (uncaughtException : Bool) : GraphDB :=
  let graph := if startVersion < graph.version then graph.updateVersions startVersion else graph
  { graph with inst := if uncaughtException then graph.inst.abort else graph.inst.commit }

end GraphDB

end Rangexx
