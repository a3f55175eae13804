import Mathlib.Algebra.Order.Ring.Nat
import Rangexx.GraphDB
import Rangexx.StateProgram

/-!
# The backend

The BerkeleyDB environment holds the two graph instances, the range changelist
and the transaction log.  A graph transaction holds the environment's lock; the
lock is shared by everything that runs inside, and when the last holder lets it
go the writes made under it are kept, or undone if an exception is passing.
`World` is the environment together with the `GraphDB` objects of the current
call.
-/

namespace Rangexx

inductive GraphName where
  | primary
  | dependency
  deriving DecidableEq, Repr

/-- An entry of the range changelist. -/
structure RangeChange where
  timestamp : Nat
  items : List (ChangeItem GraphName)
  deriving DecidableEq, Repr

/-- `stored::Request`, as far as the transaction log uses it. -/
structure Request where
  method : String
  args : List String
  proposerId : Nat
  version : Nat
  deriving DecidableEq, Repr

/-- What the lock's BerkeleyDB transaction protects. -/
structure Tables where
  primary : GraphInstance
  dependency : GraphInstance
  rangeChanges : ChangeList RangeChange
  txlog : List Request
  deriving DecidableEq

structure World where
  primary : GraphDB
  dependency : GraphDB
  rangeChanges : ChangeList RangeChange
  txlog : List Request
  graphWantedVersionMap : AList fun _ : GraphName => Nat
  saved : Option Tables
  now : Nat
  deriving DecidableEq

/-- The exceptions of the API with their texts.  Reading outside a list and
following a null pointer are undefined behaviour in the source. -/
inductive ApiError where
  | createNode (text : String)
  | edgeNotFound (text : String)
  | graphCycle (text : String)
  | incorrectNodeType (text : String)
  | invalidEnvironment (text : String)
  | nodeExists (text : String)
  | nodeNotFound (text : String)
  | incorrectNumberOfArguments (text : String)
  | keyNotFound (text : String)
  | database (error : GraphError)
  | outOfBounds
  | nullPointer
  deriving DecidableEq, Repr

abbrev Api :=
  StateProgram World ApiError

namespace World

/-- An environment nothing was written to. -/
def empty : World where
  primary := .ofInstance .empty
  dependency := .ofInstance .empty
  rangeChanges := ⟨0, []⟩
  txlog := []
  graphWantedVersionMap := ∅
  saved := none
  now := 0

def graph (world : World) : GraphName → GraphDB
  | .primary => world.primary
  | .dependency => world.dependency

def setGraph (world : World) (name : GraphName) (graph : GraphDB) : World :=
  match name with
  | .primary => { world with primary := graph }
  | .dependency => { world with dependency := graph }

def setInst (world : World) (name : GraphName) (inst : GraphInstance) : World :=
  world.setGraph name { world.graph name with inst := inst }

def tables (world : World) : Tables where
  primary := world.primary.inst
  dependency := world.dependency.inst
  rangeChanges := world.rangeChanges
  txlog := world.txlog

/-- Undo what was written to the tables; changes still pending in an instance
are not part of them. -/
def restore (world : World) (tables : Tables) : World :=
  { world with
    primary := { world.primary with
      inst := { world.primary.inst with
        records := tables.primary.records
        changelist := tables.primary.changelist } }
    dependency := { world.dependency with
      inst := { world.dependency.inst with
        records := tables.dependency.records
        changelist := tables.dependency.changelist } }
    rangeChanges := tables.rangeChanges
    txlog := tables.txlog }

/-- The log with a request under its version, in the place of one that had it. -/
def putTxn (log : List Request) (change : Request) : List Request :=
  (log.filter fun request => request.version < change.version) ++
    change :: log.filter fun request => change.version < request.version

/-- The key that `append_txn` takes, a `uint32_t`. -/
def nextKey (log : List Request) : Nat :=
  match log.getLast? with
  | none => 1
  | some last => (last.version + 1) % 2 ^ 32

/-- `append_txn`. -/
def appendTxn (world : World) (request : Request) : World :=
  let key := nextKey world.txlog
  { world with txlog := putTxn world.txlog { request with version := key } }

/-- `add_new_range_version`.  The versions count what is still pending. -/
def addNewRangeVersion (world : World) : World :=
  { world with
    rangeChanges :=
      ⟨world.rangeChanges.currentVersion + 1, world.rangeChanges.change ++
        [⟨world.now, [⟨.primary, world.primary.version⟩,
          ⟨.dependency, world.dependency.version⟩]⟩]⟩ }

/-- `range_version`. -/
def rangeVersion (world : World) : Nat :=
  world.rangeChanges.currentVersion

end World

/-- The loop of `BerkeleyDB::set_wanted_version`, over the reversed changelist.
The index is a `uint32_t`: below zero it goes on at the largest one. -/
def seekRangeVersion (version : Nat) :
    List RangeChange → (AList fun _ : GraphName => Nat) → Option (AList fun _ : GraphName => Nat)
  | [], map => if version ≤ 2 ^ 32 - 1 then none else some map
  | change :: rest, map =>
      if version ≤ rest.length then
        seekRangeVersion version rest
          (change.items.foldl (fun map item => map.insert item.key item.version) map)
      else some map

namespace Api

/-- `BerkeleyDB::set_wanted_version`. -/
def setBackendVersion (version : Nat) : Api Unit := fun world =>
  match seekRangeVersion version world.rangeChanges.change.reverse
      world.graphWantedVersionMap with
  | none => (.error .outOfBounds, world)
  | some map => (.ok (), { world with graphWantedVersionMap := map })

/-- `set_wanted_version` of the graph object in use. -/
def setGraphVersion (name : GraphName) (version : Option Nat) : Api Unit := fun world =>
  match (world.graph name).setWantedVersion version with
  | (.error error, graph) => (.error (.database error), world.setGraph name graph)
  | (.ok _, graph) => (.ok (), world.setGraph name graph)

/-- Run under the environment's lock. -/
def withLock {Value : Type} (body : Api Value) : Api Value := fun world =>
  match world.saved with
  | some _ => body world
  | none =>
      match body { world with saved := some world.tables } with
      | (.ok value, after) => (.ok value, { after with saved := none })
      | (.error error, after) =>
          (.error error, { (after.restore world.tables) with saved := none })

/-- A scope with a `GraphTxn`.  Its destructor runs whether the scope is left
normally or by an exception. -/
def withGraphTxn {Value : Type} (name : GraphName) (body : Api Value) : Api Value := fun world =>
  let startVersion := (world.graph name).version
  withLock (fun world =>
    let (result, after) := body world
    (result, after.setGraph name
      ((after.graph name).endTxn startVersion (StateProgram.failed result)))) world

/-- A scope with a `BerkeleyDBCXXRangeTxn`. -/
def withRangeTxn {Value : Type} (request : Request) (body : Api Value) : Api Value := fun world =>
  match body world with
  | (.ok value, after) => (.ok value, (after.appendTxn request).addNewRangeVersion)
  | (.error error, after) => (.error error, after)

def getNode (name : GraphName) (node : String) : Api (Option Node) :=
  StateProgram.read fun world => (world.graph name).getNode node

def nodeType (name : GraphName) (node : Node) : Api NodeType :=
  StateProgram.read fun world => node.type (world.graph name).inst

/-- Call a changing function of a graph. -/
def onGraph {Value : Type} (name : GraphName) (function : GraphDB → Value × GraphDB) :
    Api Value :=
  StateProgram.update fun world =>
    ((function (world.graph name)).1, world.setGraph name (function (world.graph name)).2)

def create (name : GraphName) (node : String) : Api (Option Node) :=
  onGraph name fun graph => graph.create node

def setType (name : GraphName) (node : Node) (type : NodeType) : Api Node :=
  onGraph name fun graph => graph.setType node type

def addForwardEdge (name : GraphName) (node other : Node) : Api Bool :=
  onGraph name fun graph => graph.addForwardEdge node other

def removeEdge (name : GraphName) (direction : Direction) (node other : Node) : Api Bool :=
  onGraph name fun graph => graph.removeEdge direction node other

def updateTag (name : GraphName) (node : Node) (key : String) (values : List String) :
    Api Bool :=
  onGraph name fun graph => graph.updateTag node key values

def deleteTag (name : GraphName) (node : Node) (key : String) : Api Bool :=
  onGraph name fun graph => graph.deleteTag node key

/-- `remove` of one graph, given a node object of a graph: the version check
uses the first, while the edges are changed in the instance the object belongs
to. -/
def remove (name owner : GraphName) (node : Node) : Api Node :=
  StateProgram.update fun world =>
    match node.detach (world.graph name).version (world.graph owner).inst with
    | none => (node, world)
    | some (removed, inst) =>
        let world := world.setInst owner inst
        let graph := world.graph name
        (removed, world.setGraph name
          { graph with removedNodes := removed.name :: graph.removedNodes })

end Api

namespace RangeApi

open Api

/-- `RangeAPI_v1::graphdb`, with `createGraphdb`. -/
def graphdb (name : GraphName) (version : Option Nat) : Api Unit := do
  StateProgram.update fun world =>
    ((), world.setGraph name (.ofInstance (world.graph name).inst))
  match version with
  | none => pure ()
  | some version => do
      setGraphVersion name (some version)
      setBackendVersion version
      let wanted ← StateProgram.read fun world => world.graphWantedVersionMap.lookup name
      setGraphVersion name wanted

end RangeApi

end Rangexx
