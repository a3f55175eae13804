import Mathlib.Data.List.AList
import Rangexx.AscendingScan

/-!
# Node records

A node of a range graph is stored as one `NodeInfo` message.  The message
keeps the whole history of the node: every edge, tag key and tag value carries
the list versions at which it was present, and each change copies the present
entries to the next list version.  This file translates the message and the
functions of `pbuff_node.cpp` that read and change it.  A protobuf message is
identified with its fields, and the checksum field, which no function here
reads, is left out.
-/

namespace Rangexx

open AscendingScan

/-- `graph::NodeIface::node_type`. -/
inductive NodeType where
  | environment
  | cluster
  | host
  | string
  | reserved
  | unknown
  deriving DecidableEq, Repr

/-- `NodeIface::node_type_names`. -/
def NodeType.name : NodeType → String
  | .environment => "ENVIRONMENT"
  | .cluster => "CLUSTER"
  | .host => "HOST"
  | .string => "STRING"
  | .reserved => "RESERVED"
  | .unknown => "UNKNOWN"

structure Adjacency where
  id : String
  versions : List Nat
  deriving DecidableEq, Repr

/-- `NodeInfo.Tags.KeyValue.Values`. -/
structure TagValue where
  data : String
  versions : List Nat
  deriving DecidableEq, Repr

structure ListToVersionMap where
  listVersion : Nat
  keyVersion : Nat
  deriving DecidableEq, Repr

structure KeyValue where
  key : String
  keyVersion : Nat
  values : List TagValue
  versions : List Nat
  versionmap : List ListToVersionMap
  deriving DecidableEq, Repr

structure NodeInfo where
  listVersion : Nat
  nodeType : NodeType
  forward : List Adjacency
  reverse : List Adjacency
  tags : List KeyValue
  graphVersions : List Nat
  deriving DecidableEq, Repr

inductive Direction where
  | forward
  | reverse
  deriving DecidableEq, Repr

/-- The direction in which the other end of an edge records it. -/
def Direction.opposite : Direction → Direction
  | .forward => .reverse
  | .reverse => .forward

namespace NodeInfo

/-- `init_default_nodeinfo`. -/
def default : NodeInfo where
  listVersion := 0
  nodeType := .unknown
  forward := []
  reverse := []
  tags := []
  graphVersions := []

def edges (info : NodeInfo) : Direction → List Adjacency
  | .forward => info.forward
  | .reverse => info.reverse

def setEdges (info : NodeInfo) (direction : Direction) (edges : List Adjacency) : NodeInfo :=
  match direction with
  | .forward => { info with forward := edges }
  | .reverse => { info with reverse := edges }

end NodeInfo

/-- `add_unique_new_version`. -/
def addUniqueNewVersion (versions : List Nat) (newVersion : Nat) : List Nat :=
  if newVersion ∈ versions then versions else versions ++ [newVersion]

/-- `update_unique_new_version`; `none` is the result `false`. -/
def updateUniqueNewVersion (versions : List Nat) (cmpVersion newVersion : Nat) :
    Option (List Nat) :=
  match versions.reverse.find? fun version => version == newVersion || version == cmpVersion with
  | none => none
  | some version =>
      some (if version = newVersion then versions else addUniqueNewVersion versions newVersion)

/-- The body of the loop of `update_all_edge_versions`. -/
def Adjacency.updateVersion (cmpVersion newVersion : Nat) (edge : Adjacency) : Adjacency :=
  { edge with
    versions := (updateUniqueNewVersion edge.versions cmpVersion newVersion).getD edge.versions }

def updateAllEdgeVersions (info : NodeInfo) (cmpVersion newVersion : Nat) : NodeInfo :=
  { info with
    forward := info.forward.map (Adjacency.updateVersion cmpVersion newVersion)
    reverse := info.reverse.map (Adjacency.updateVersion cmpVersion newVersion) }

/-- `update_tag_versions`.  A key that already maps the new list version ends
the whole loop: the source returns there, and the remaining keys stay as they
are. -/
def updateTagVersions (cmpVersion newVersion : Nat) : List KeyValue → List KeyValue
  | [] => []
  | kv :: rest =>
      match updateUniqueNewVersion kv.versions cmpVersion newVersion with
      | none => kv :: updateTagVersions cmpVersion newVersion rest
      | some versions =>
          if kv.versionmap.any fun entry => entry.listVersion == newVersion then
            { kv with versions := versions } :: rest
          else
            { kv with
              versions := versions
              versionmap := kv.versionmap ++ [⟨newVersion, kv.keyVersion⟩] } ::
              updateTagVersions cmpVersion newVersion rest

/-- The search loop of `add_edge`.  `none`: the edge is present at
`cmpVersion`.  Otherwise the older entry for `other`, if one was found, and
the remaining entries in order. -/
def searchEdge (cmpVersion : Nat) (other : String) :
    List Adjacency → Option (Option Adjacency × List Adjacency)
  | [] => some (none, [])
  | edge :: rest =>
      if other = edge.id then
        match scan cmpVersion edge.versions with
        | .equal => none
        | .older => some (some edge, rest)
        | .exhausted => (searchEdge cmpVersion other rest).map fun found =>
            (found.1, edge :: found.2)
      else
        (searchEdge cmpVersion other rest).map fun found => (found.1, edge :: found.2)

/-- The entry `add_edge` puts at the end of the list. -/
def appendedEdge (other : String) (newVersion : Nat) : Option Adjacency → Adjacency
  | none => ⟨other, [newVersion]⟩
  | some edge => { edge with versions := edge.versions ++ [newVersion] }

/-- `mutable_versions()->RemoveLast()` on the first entry for `other`. -/
def removeLastVersion (other : String) : List Adjacency → List Adjacency
  | [] => []
  | edge :: rest =>
      if other = edge.id then { edge with versions := edge.versions.dropLast } :: rest
      else edge :: removeLastVersion other rest

/-- `find_value` and `add_unique_new_version` for one value of `update_tag`. -/
def addTagValue (newVersion : Nat) (value : String) : List TagValue → List TagValue
  | [] => [⟨value, [newVersion]⟩]
  | found :: rest =>
      if value = found.data then
        { found with versions := addUniqueNewVersion found.versions newVersion } :: rest
      else found :: addTagValue newVersion value rest

/-- Change the first entry for `key`, appending an empty one when there is
none (`add_keys`, `set_key_version(0)`). -/
def upsertKey (key : String) (change : KeyValue → KeyValue) : List KeyValue → List KeyValue
  | [] => [change ⟨key, 0, [], [], []⟩]
  | kv :: rest => if key = kv.key then change kv :: rest else kv :: upsertKey key change rest

/-- `mutable_versions()->RemoveLast()` on the first entry for `key`. -/
def removeLastKeyVersion (key : String) : List KeyValue → List KeyValue
  | [] => []
  | kv :: rest =>
      if key = kv.key then { kv with versions := kv.versions.dropLast } :: rest
      else kv :: removeLastKeyVersion key rest

namespace NodeInfo

/-- `ProtobufNode::add_edge`; `none` is the result `false`, which leaves the
record as it was. -/
def addEdge (info : NodeInfo) (direction : Direction) (other : String) : Option NodeInfo :=
  let cmpVersion := info.listVersion
  let newVersion := cmpVersion + 1
  match searchEdge cmpVersion other (info.edges direction) with
  | none => none
  | some (found, others) =>
      let edges := others ++ [appendedEdge other newVersion found]
      let info := updateAllEdgeVersions (info.setEdges direction edges) cmpVersion newVersion
      some { info with
        tags := updateTagVersions cmpVersion newVersion info.tags
        listVersion := newVersion }

/-- `ProtobufNode::remove_edge`. -/
def removeEdge (info : NodeInfo) (direction : Direction) (other : String) : Option NodeInfo :=
  match (info.edges direction).find? fun edge => other == edge.id with
  | none => none
  | some edge =>
      let cmpVersion := info.listVersion
      let newVersion := cmpVersion + 1
      if scan cmpVersion edge.versions = .equal then
        let info := updateAllEdgeVersions info cmpVersion newVersion
        let info := { info with
          tags := updateTagVersions cmpVersion newVersion info.tags
          listVersion := newVersion }
        some (info.setEdges direction (removeLastVersion other (info.edges direction)))
      else none

/-- `ProtobufNode::update_tag`. -/
def updateTag (info : NodeInfo) (key : String) (values : List String) : NodeInfo :=
  let cmpListVersion := info.listVersion
  let newListVersion := cmpListVersion + 1
  let tags := upsertKey key (fun kv =>
    { kv with
      versions := kv.versions ++ [newListVersion]
      keyVersion := kv.keyVersion + 1 }) info.tags
  let tags := updateTagVersions cmpListVersion newListVersion tags
  let info := updateAllEdgeVersions { info with listVersion := newListVersion }
    cmpListVersion newListVersion
  { info with
    tags := upsertKey key (fun kv =>
      { kv with
        values := values.foldl (fun stored value => addTagValue kv.keyVersion value stored)
          kv.values }) tags }

/-- `ProtobufNode::delete_tag`. -/
def deleteTag (info : NodeInfo) (key : String) : Option NodeInfo :=
  let cmpVersion := info.listVersion
  let newVersion := cmpVersion + 1
  match info.tags.find? fun kv => key == kv.key with
  | none => none
  | some kv =>
      if scan cmpVersion kv.versions = .equal then
        let tags := updateTagVersions cmpVersion newVersion info.tags
        let info := updateAllEdgeVersions { info with listVersion := newVersion }
          cmpVersion newVersion
        some { info with tags := removeLastKeyVersion key tags }
      else none

/-- `ProtobufNode::set_type`. -/
def setType (info : NodeInfo) (type : NodeType) : NodeInfo :=
  let cmpVersion := info.listVersion
  let newVersion := cmpVersion + 1
  let info := { info with
    listVersion := newVersion
    nodeType := type
    tags := updateTagVersions cmpVersion newVersion info.tags }
  updateAllEdgeVersions info cmpVersion newVersion

/-- The list version a node object reads: its wanted version, or the latest
one when none is set (`wanted_version_ == -1`). -/
def cmpVersion (info : NodeInfo) (wanted : Option Nat) : Nat :=
  wanted.getD info.listVersion

/-- The names `ProtobufNode::get_edges` finds. -/
def getEdges (info : NodeInfo) (direction : Direction) (wanted : Option Nat) : List String :=
  ((info.edges direction).filter fun edge =>
    scan (info.cmpVersion wanted) edge.versions = .equal).map Adjacency.id

end NodeInfo

/-- The inner loop of `get_map_value`, over one reversed version list. -/
def mapValueWalk (cmpVersion : Nat) (data : String) : List Nat → List String
  | [] => []
  | version :: rest =>
      if cmpVersion = version then data :: mapValueWalk cmpVersion data rest
      else if version < cmpVersion then []
      else mapValueWalk cmpVersion data rest

/-- `get_map_value`. -/
def getMapValue (cmpVersion : Nat) (kv : KeyValue) : List String :=
  kv.values.flatMap fun value => mapValueWalk cmpVersion value.data value.versions.reverse

/-- The values that `tags()` stores for one key.  Among several map entries
of one list version the loop, which runs backwards, leaves the first. -/
def KeyValue.valuesAt (cmpVersion : Nat) (kv : KeyValue) : Option (List String) :=
  if scan cmpVersion kv.versions = .equal then
    (kv.versionmap.find? fun entry => entry.listVersion == cmpVersion).map fun entry =>
      getMapValue entry.keyVersion kv
  else none

/-- The body of the loop of `tags`, for one key. -/
def KeyValue.noteValues (cmpVersion : Nat) (table : AList fun _ : String => List String)
    (kv : KeyValue) : AList fun _ : String => List String :=
  match kv.valuesAt cmpVersion with
  | none => table
  | some values => table.insert kv.key values

/-- `ProtobufNode::tags`. -/
def NodeInfo.tagTable (info : NodeInfo) (wanted : Option Nat) :
    AList fun _ : String => List String :=
  info.tags.foldl (KeyValue.noteValues (info.cmpVersion wanted)) ∅

end Rangexx
