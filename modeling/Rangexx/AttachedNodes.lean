import Rangexx.EventRuns
import Rangexx.NodeEdits

/-!
# Node objects and the instances they are attached to

A program holds several instances, graphs over them, and node objects.  Each
object is attached to one instance, and `set_instance` attaches it to another
one: the record is read again the next time it is needed.  The message of the
object is not emptied meanwhile.  `init_info` replaces it when the new instance
has a record of the node.  When there is none, `init_default_nodeinfo` only sets
the list version and the type, and the lists of the former record stay.
-/

namespace Rangexx

open AscendingScan

/-- `init_default_nodeinfo`, on a message that may hold something. -/
def NodeInfo.initDefault (info : NodeInfo) : NodeInfo :=
  { info with listVersion := 0, nodeType := .unknown }

/-- A `ProtobufNode` and where it is attached.  `node` holds the record once
`info_initialized` is set; until then `leftover` is what the message holds, if
it was ever filled. -/
structure AttachedNode where
  node : Node
  place : Nat
  leftover : Option NodeInfo
  deriving DecidableEq, Repr

namespace AttachedNode

/-- A new `ProtobufNode`. -/
def fresh (node : Node) (place : Nat) : AttachedNode where
  node := node
  place := place
  leftover := none

/-- `info`, if it was ever filled. -/
def message (object : AttachedNode) : Option NodeInfo :=
  object.node.info.or object.leftover

/-- What `init_info` puts into a message that is not initialized. -/
def foundInfo (object : AttachedNode) (inst : GraphInstance) : NodeInfo :=
  match inst.getRecord (.node, object.node.name) with
  | some info => info
  | none => (object.leftover.getD NodeInfo.default).initDefault

/-- `init_info`. -/
def initInfo (object : AttachedNode) (inst : GraphInstance) : Node :=
  { object.node with info := some (object.node.info.getD (object.foundInfo inst)) }

/-- `set_instance`. -/
def setInstance (object : AttachedNode) (place : Nat) : AttachedNode where
  node := { object.node with info := none }
  place := place
  leftover := object.message

end AttachedNode

/-- A `GraphDB` without its instance. -/
structure AttachedGraph where
  place : Nat
  wantedVersion : Option Nat
  nodeVersionMap : AList fun _ : String => Nat
  removedNodes : List String
  deriving DecidableEq

namespace AttachedGraph

/-- The graph on its instance as it is now. -/
def withInstance (graph : AttachedGraph) (inst : GraphInstance) : GraphDB where
  inst := inst
  wantedVersion := graph.wantedVersion
  nodeVersionMap := graph.nodeVersionMap
  removedNodes := graph.removedNodes

def ofGraph (place : Nat) (graph : GraphDB) : AttachedGraph where
  place := place
  wantedVersion := graph.wantedVersion
  nodeVersionMap := graph.nodeVersionMap
  removedNodes := graph.removedNodes

end AttachedGraph

/-- What a program holds. -/
structure Session where
  instances : List GraphInstance
  graphs : List AttachedGraph
  objects : List AttachedNode
  deriving DecidableEq

/-- A call; the numbers are places in the lists of the session.  A call with
`update_other_…_edge` set goes on with the call at the other end, which is a
call of its own. -/
inductive SessionCall where
  | openInstance
  | flush (place : Nat)
  | commit (place : Nat)
  | abort (place : Nat)
  | openGraph (place : Nat)
  | getNode (graph : Nat) (name : String)
  | create (graph : Nat) (name : String)
  | remove (graph object : Nat)
  | updateVersions (graph priorVersion : Nat)
  | setGraphVersion (graph : Nat) (version : Option Nat)
  | endTxn (graph startVersion : Nat) (uncaughtException : Bool)
  | createNode (place : Nat) (name : String)
  | read (object : Nat)
  | neighbours (direction : Direction) (object : Nat)
  | edit (object : Nat) (edit : NodeEdit)
  | addGraphVersion (object version : Nat)
  | commitNode (object : Nat)
  | setWantedVersion (object : Nat) (version : Option Nat)
  | setInstance (object place : Nat)
  deriving DecidableEq, Repr

namespace Session

/-- Nothing is open. -/
def empty : Session where
  instances := []
  graphs := []
  objects := []

/-- A call of an instance. -/
def onInstance (session : Session) (place : Nat) (function : GraphInstance → GraphInstance) :
    Option Session :=
  (session.instances[place]?).map fun inst =>
    { session with instances := session.instances.set place (function inst) }

/-- A call of a graph, which may return an object. -/
def onGraph (session : Session) (graph : Nat) (function : GraphDB → Option Node × GraphDB) :
    Option Session :=
  (session.graphs[graph]?).bind fun held =>
    (session.instances[held.place]?).map fun inst =>
      let (node, after) := function (held.withInstance inst)
      { instances := session.instances.set held.place after.inst
        graphs := session.graphs.set graph (.ofGraph held.place after)
        objects := session.objects ++ node.toList.map fun node => .fresh node held.place }

/-- A call of a node object that needs its record. -/
def onNode (session : Session) (object : Nat)
    (function : Node → GraphInstance → Bool × Node × GraphInstance) : Option (Bool × Session) :=
  (session.objects[object]?).bind fun held =>
    (session.instances[held.place]?).map fun inst =>
      let (result, node, after) := function (held.initInfo inst) inst
      (result,
        { session with
          instances := session.instances.set held.place after
          objects := session.objects.set object (.fresh node held.place) })

/-- `GraphDB::remove`.  It compares the version of the graph with those of the
node, and changes the node in the instance of the object. -/
def remove (session : Session) (graph object : Nat) : Option Session :=
  (session.graphs[graph]?).bind fun held =>
    (session.instances[held.place]?).bind fun inst =>
      (session.objects[object]?).bind fun removed =>
        (session.onNode object fun node inst' =>
          match node.detach inst.version inst' with
          | none => (false, node, inst')
          | some (node, inst') => (true, node, inst')).map fun (found, after) =>
            if found then
              { after with
                graphs := after.graphs.set graph
                  { held with removedNodes := removed.node.name :: held.removedNodes } }
            else after

/-- `forward_edges` and `reverse_edges`; the session keeps the objects. -/
def neighbours (session : Session) (direction : Direction) (object : Nat) : Option Session :=
  (session.objects[object]?).bind fun held =>
    (session.instances[held.place]?).map fun inst =>
      let node := held.initInfo inst
      { session with
        objects := session.objects.set object (.fresh node held.place) ++
          (node.neighbours direction inst).map fun node => .fresh node held.place }

/-- `commit` of a node object, which writes the message as it is.  A message
whose required fields were never set cannot be written. -/
def commitNode (session : Session) (object : Nat) : Option Session :=
  (session.objects[object]?).bind fun held =>
    (session.instances[held.place]?).bind fun inst =>
      held.message.map fun info =>
        { session with
          instances := session.instances.set held.place
            (inst.writeRecord (.node, held.node.name) info.listVersion info) }

/-- A call of a node object that leaves the record alone. -/
def onObject (session : Session) (object : Nat) (function : AttachedNode → AttachedNode) :
    Option Session :=
  (session.objects[object]?).map fun held =>
    { session with objects := session.objects.set object (function held) }

/-- One call.  An exception of `set_wanted_version` leaves the graph as far as
it came.  `none`: there is nothing at one of the places. -/
def step (session : Session) : SessionCall → Option Session
  | .openInstance => some { session with instances := session.instances ++ [.empty] }
  | .flush place => session.onInstance place Instance.flush
  | .commit place => session.onInstance place Instance.commit
  | .abort place => session.onInstance place Instance.abort
  | .openGraph place =>
      some { session with graphs := session.graphs ++ [.ofGraph place (.ofInstance .empty)] }
  | .getNode graph name => session.onGraph graph fun db => (db.getNode name, db)
  | .create graph name => session.onGraph graph fun db => db.create name
  | .remove graph object => session.remove graph object
  | .updateVersions graph priorVersion =>
      session.onGraph graph fun db => (none, db.updateVersions priorVersion)
  | .setGraphVersion graph version =>
      session.onGraph graph fun db => (none, (db.setWantedVersion version).2)
  | .endTxn graph startVersion uncaughtException =>
      session.onGraph graph fun db => (none, db.endTxn startVersion uncaughtException)
  | .createNode place name =>
      some { session with objects := session.objects ++ [.fresh (.createNode name) place] }
  | .read object => (session.onNode object fun node inst => (true, node, inst)).map Prod.snd
  | .neighbours direction object => session.neighbours direction object
  | .edit object edit =>
      (session.onNode object fun node inst => node.edit inst edit).map Prod.snd
  | .addGraphVersion object version =>
      (session.onNode object fun node inst =>
        (true, node.addGraphVersion version inst)).map Prod.snd
  | .commitNode object => session.commitNode object
  | .setWantedVersion object version =>
      session.onObject object fun held =>
        { held with node := held.node.setWantedVersion version }
  | .setInstance object place => session.onObject object fun held => held.setInstance place

end Session

end Rangexx
