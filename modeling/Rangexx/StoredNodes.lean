import Rangexx.ChangelistRecord
import Rangexx.EventRuns
import Rangexx.NodeEdits
import Rangexx.ProtoRoundTrips
import Rangexx.StoredMessages

/-!
# Nodes in bytes

A node object reads its record from bytes and writes the record back as bytes
that carry their own checksum.  This file puts the serialised messages under the
instances and the node objects, whose records were so far identified with their
fields, and shows that nothing changes: whatever is done with an instance and
the objects on it, the objects find the records that they would find without
bytes, and the checksum of every stored record is right.
-/

namespace Rangexx

open EventRuns WireFormat

/-! ## Records as messages -/

namespace NodeType

/-- The values of the enumerators. -/
def number : NodeType → UInt32
  | .environment => 0
  | .cluster => 1
  | .host => 2
  | .string => 3
  | .reserved => 65536
  | .unknown => 65537

/-- The enumerator of a value.  The values between the named ones are reserved;
nothing writes them. -/
def ofNumber (number : UInt32) : NodeType :=
  if number = 0 then .environment
  else if number = 1 then .cluster
  else if number = 2 then .host
  else if number = 3 then .string
  else if number = 65537 then .unknown
  else .reserved

@[simp]
theorem ofNumber_number (type : NodeType) : ofNumber type.number = type := by
  cases type <;> rfl

end NodeType

namespace Proto

variable {Unknown : Type}

def Adjacency.ofEdge (edge : Rangexx.Adjacency) : Adjacency Unknown where
  id := some (octets edge.id)
  versions := edge.versions.map .ofNat
  unknownFields := []

def Adjacency.toEdge (edge : Adjacency Unknown) : Rangexx.Adjacency where
  id := textOf (edge.id.getD [])
  versions := edge.versions.map UInt64.toNat

def Values.ofValue (value : TagValue) : Values Unknown where
  data := some (octets value.data)
  versions := value.versions.map .ofNat
  unknownFields := []

def Values.toValue (values : Values Unknown) : TagValue where
  data := textOf (values.data.getD [])
  versions := values.versions.map UInt64.toNat

def ListToVersionMap.ofEntry (entry : Rangexx.ListToVersionMap) : ListToVersionMap Unknown where
  listVersion := some (.ofNat entry.listVersion)
  keyVersion := some (.ofNat entry.keyVersion)
  unknownFields := []

def ListToVersionMap.toEntry (entry : ListToVersionMap Unknown) : Rangexx.ListToVersionMap where
  listVersion := (entry.listVersion.getD 0).toNat
  keyVersion := (entry.keyVersion.getD 0).toNat

def KeyValue.ofTag (kv : Rangexx.KeyValue) : KeyValue Unknown where
  key := some (octets kv.key)
  keyVersion := some (.ofNat kv.keyVersion)
  values := kv.values.map .ofValue
  versions := kv.versions.map .ofNat
  versionmap := kv.versionmap.map .ofEntry
  unknownFields := []

def KeyValue.toTag (kv : KeyValue Unknown) : Rangexx.KeyValue where
  key := textOf (kv.key.getD [])
  keyVersion := (kv.keyVersion.getD 0).toNat
  values := kv.values.map Values.toValue
  versions := kv.versions.map UInt64.toNat
  versionmap := kv.versionmap.map ListToVersionMap.toEntry

namespace NodeInfo

/-- The message with the fields of a record; the three parts are there even when
they are empty (`init_default_nodeinfo`). -/
def ofRecord (info : Rangexx.NodeInfo) : NodeInfo Unknown where
  listVersion := some (.ofNat info.listVersion)
  crc32 := some 0
  nodeType := some info.nodeType.number
  forward := some ⟨info.forward.map .ofEdge, []⟩
  reverse := some ⟨info.reverse.map .ofEdge, []⟩
  tags := some ⟨info.tags.map .ofTag, []⟩
  graphVersions := info.graphVersions.map .ofNat
  unknownFields := []

def toRecord (info : NodeInfo Unknown) : Rangexx.NodeInfo where
  listVersion := (info.listVersion.getD 0).toNat
  nodeType := .ofNumber (info.nodeType.getD 0)
  forward := ((info.forward.getD .clear).edges).map Adjacency.toEdge
  reverse := ((info.reverse.getD .clear).edges).map Adjacency.toEdge
  tags := ((info.tags.getD .clear).keys).map KeyValue.toTag
  graphVersions := info.graphVersions.map UInt64.toNat

variable (stream : CodedStream Unknown)

/-- The beginning of `write_record`: the checksum of the record without one. -/
def withCrc32 (info : NodeInfo Unknown) : NodeInfo Unknown :=
  let info := { info with crc32 := some 0 }
  { info with crc32 := some (Paxos.crc32 (info.serializeAsString stream)) }

end NodeInfo

end Proto

/-! ## The record behind the bytes -/

/-- The numbers in a key. -/
def KeyValue.numbers (kv : KeyValue) : List Nat :=
  kv.keyVersion :: (kv.versions ++ (kv.values.flatMap TagValue.versions ++
    kv.versionmap.flatMap fun entry => [entry.listVersion, entry.keyVersion]))

/-- The numbers in a record. -/
def NodeInfo.numbers (info : NodeInfo) : List Nat :=
  info.listVersion :: (info.graphVersions ++ ((info.forward ++ info.reverse).flatMap
    Adjacency.versions ++ info.tags.flatMap KeyValue.numbers))

/-- A list comes back when each of its entries does. -/
theorem map_map_of_back {Entry Form : Type} {entries : List Entry} {form : Entry → Form}
    {back : Form → Entry} (comes : ∀ entry ∈ entries, back (form entry) = entry) :
    (entries.map form).map back = entries := by
  rw [List.map_map]
  exact (List.map_congr_left comes).trans (List.map_id entries)

theorem toNat_ofNat_small {number : Nat} (small : number < 2 ^ 64) :
    (UInt64.ofNat number).toNat = number :=
  UInt64.toNat_ofNat_of_lt small

namespace Proto

variable {Unknown : Type}

theorem Adjacency.toEdge_ofEdge {edge : Rangexx.Adjacency}
    (small : ∀ version ∈ edge.versions, version < 2 ^ 64) :
    (ofEdge edge : Adjacency Unknown).toEdge = edge := by
  have versionsBack := map_map_of_back fun version member =>
    toNat_ofNat_small (small version member)
  unfold toEdge ofEdge
  dsimp only
  rw [versionsBack, Option.getD_some, textOf_octets]

theorem Values.toValue_ofValue {value : TagValue}
    (small : ∀ version ∈ value.versions, version < 2 ^ 64) :
    (ofValue value : Values Unknown).toValue = value := by
  have versionsBack := map_map_of_back fun version member =>
    toNat_ofNat_small (small version member)
  unfold toValue ofValue
  dsimp only
  rw [versionsBack, Option.getD_some, textOf_octets]

theorem ListToVersionMap.toEntry_ofEntry {entry : Rangexx.ListToVersionMap}
    (small : ∀ number ∈ [entry.listVersion, entry.keyVersion], number < 2 ^ 64) :
    (ofEntry entry : ListToVersionMap Unknown).toEntry = entry := by
  simp only [List.forall_mem_cons] at small
  unfold toEntry ofEntry
  dsimp only [Option.getD_some]
  rw [toNat_ofNat_small small.1, toNat_ofNat_small small.2.1]

theorem KeyValue.toTag_ofTag {kv : Rangexx.KeyValue}
    (small : ∀ number ∈ kv.numbers, number < 2 ^ 64) :
    (ofTag kv : KeyValue Unknown).toTag = kv := by
  simp only [Rangexx.KeyValue.numbers, List.forall_mem_cons, List.forall_mem_append,
    List.mem_flatMap] at small
  obtain ⟨keyVersion, versions, values, versionmap⟩ := small
  have versionsBack := map_map_of_back fun version member =>
    toNat_ofNat_small (versions version member)
  have valuesBack := map_map_of_back fun value member => @Values.toValue_ofValue Unknown value
    fun version among => values version ⟨value, member, among⟩
  have entriesBack := map_map_of_back fun entry member =>
    @ListToVersionMap.toEntry_ofEntry Unknown entry
      fun number among => versionmap number ⟨entry, member, among⟩
  unfold toTag ofTag
  dsimp only [Option.getD_some]
  rw [textOf_octets, toNat_ofNat_small keyVersion, versionsBack, valuesBack, entriesBack]

theorem NodeInfo.toRecord_ofRecord {info : Rangexx.NodeInfo}
    (small : ∀ number ∈ info.numbers, number < 2 ^ 64) :
    (ofRecord info : NodeInfo Unknown).toRecord = info := by
  simp only [Rangexx.NodeInfo.numbers, List.forall_mem_cons, List.forall_mem_append,
    List.mem_flatMap] at small
  obtain ⟨listVersion, graphVersions, edges, tags⟩ := small
  have graphsBack := map_map_of_back fun version member =>
    toNat_ofNat_small (graphVersions version member)
  have forwardBack := map_map_of_back fun edge member => @Adjacency.toEdge_ofEdge Unknown edge
    fun version among => edges version ⟨edge, List.mem_append_left _ member, among⟩
  have reverseBack := map_map_of_back fun edge member => @Adjacency.toEdge_ofEdge Unknown edge
    fun version among => edges version ⟨edge, List.mem_append_right _ member, among⟩
  have tagsBack := map_map_of_back fun kv member => @KeyValue.toTag_ofTag Unknown kv
    fun number among => tags number ⟨kv, member, among⟩
  unfold toRecord ofRecord
  dsimp only [Option.getD_some]
  rw [toNat_ofNat_small listVersion, NodeType.ofNumber_number, forwardBack, reverseBack, tagsBack,
    graphsBack]

/-! ### The bytes -/

variable {stream : CodedStream Unknown}

theorem Edges.regular_ofEdges (edges : List Rangexx.Adjacency) (expects : Bool) :
    (⟨edges.map .ofEdge, []⟩ : Edges Unknown).Regular stream expects where
  edges := by
    intro inner member
    obtain ⟨edge, -, rfl⟩ := List.mem_map.mp member
    exact ⟨List.forall_mem_nil _⟩
  unknownFields := List.forall_mem_nil _

theorem KeyValue.regular_ofTag (kv : Rangexx.KeyValue) (expects : Bool) :
    (ofTag kv : KeyValue Unknown).Regular stream expects where
  values := by
    intro inner member
    obtain ⟨value, -, rfl⟩ := List.mem_map.mp member
    exact ⟨List.forall_mem_nil _⟩
  versionmap := by
    intro inner member
    obtain ⟨entry, -, rfl⟩ := List.mem_map.mp member
    exact ⟨List.forall_mem_nil _⟩
  unknownFields := List.forall_mem_nil _

theorem NodeInfo.regular_withCrc32 (info : Rangexx.NodeInfo) :
    ((ofRecord info).withCrc32 stream).Regular stream true where
  forward := by
    rintro inner ⟨⟩
    exact Edges.regular_ofEdges info.forward true
  reverse := by
    rintro inner ⟨⟩
    exact Edges.regular_ofEdges info.reverse true
  tags := by
    rintro inner ⟨⟩
    refine ⟨fun inner member => ?_, List.forall_mem_nil _⟩
    obtain ⟨kv, -, rfl⟩ := List.mem_map.mp member
    exact KeyValue.regular_ofTag kv true
  unknownFields := List.forall_mem_nil _

theorem NodeInfo.isInitialized_withCrc32 (info : Rangexx.NodeInfo) :
    ((ofRecord info).withCrc32 stream).isInitialized = true := by
  unfold isInitialized withCrc32 ofRecord Edges.isInitialized Tags.isInitialized
  simp [Adjacency.isInitialized, Adjacency.ofEdge, KeyValue.isInitialized, KeyValue.ofTag,
    Values.isInitialized, Values.ofValue, ListToVersionMap.isInitialized, ListToVersionMap.ofEntry]

end Proto

/-! ## Forms of records -/

/-- How an instance holds the records of nodes: what `write_record` hands to it
for a record, and what `init_info` takes from what it returns. -/
structure RecordForm (Record : Type) where
  write : NodeInfo → Record
  read : Record → NodeInfo

/-- Records that are their own form. -/
def plainForm : RecordForm NodeInfo where
  write := id
  read := id

/-- Records as the bytes of messages.  `init_info` does not ask whether the
bytes could be parsed, only whether the message is complete. -/
def byteForm {Unknown : Type} (stream : CodedStream Unknown) : RecordForm Octets where
  write := fun info => ((Proto.NodeInfo.ofRecord info).withCrc32 stream).serializeAsString stream
  read := fun buffer =>
    let tmp := if 0 < buffer.length then (Proto.NodeInfo.parseFromString stream buffer).2
      else .clear
    if tmp.isInitialized then tmp.toRecord else NodeInfo.default

/-- The numbers of the record have 64 bits, and its bytes are within the limit
of the stream. -/
def NodeInfo.Storable {Unknown : Type} (stream : CodedStream Unknown) (info : NodeInfo) : Prop :=
  (∀ number ∈ info.numbers, number < 2 ^ 64) ∧
    ((byteForm stream).write info).length ≤ stream.limit

instance {Unknown : Type} (stream : CodedStream Unknown) (info : NodeInfo) :
    Decidable (info.Storable stream) :=
  inferInstanceAs (Decidable (_ ∧ _))

section Bytes

variable {Unknown : Type} {stream : CodedStream Unknown} {info : NodeInfo}

theorem parseFromString_write (documented : stream.Documented) (storable : info.Storable stream) :
    Proto.NodeInfo.parseFromString stream ((byteForm stream).write info) =
      (true, (Proto.NodeInfo.ofRecord info).withCrc32 stream) := by
  have comesBack := Proto.NodeInfo.comesBack documented
    (Proto.NodeInfo.regular_withCrc32 info) storable.2
  exact comesBack.parsed.trans (by rw [Proto.NodeInfo.isInitialized_withCrc32])

theorem read_write (documented : stream.Documented) (storable : info.Storable stream) :
    (byteForm stream).read ((byteForm stream).write info) = info := by
  have parsed := parseFromString_write documented storable
  have initialized := @Proto.NodeInfo.isInitialized_withCrc32 _ stream info
  have nonempty : 0 < ((byteForm stream).write info).length := by
    rw [List.length_pos_iff]
    intro empty
    rw [empty] at parsed
    unfold Proto.NodeInfo.parseFromString WireFormat.parseFromString at parsed
    rw [mergePartialFromCodedStream_nil documented] at parsed
    exact absurd (Prod.mk.inj parsed).1
      (by simp [Proto.NodeInfo.isInitialized, Proto.NodeInfo.clear])
  unfold byteForm at parsed nonempty ⊢
  dsimp only at parsed nonempty ⊢
  rw [if_pos nonempty, parsed, if_pos initialized]
  exact Proto.NodeInfo.toRecord_ofRecord storable.1

end Bytes

/-! ## Objects on an instance -/

namespace RecordForm

variable {Record : Type} (form : RecordForm Record)

/-- The record a node object finds. -/
def readNode (inst : Instance Record) (name : String) : NodeInfo :=
  ((inst.getRecord (.node, name)).map form.read).getD NodeInfo.default

/-- `init_info`. -/
def initInfo (node : Node) (inst : Instance Record) : NodeInfo :=
  node.info.getD (form.readNode inst node.name)

/-- `write_record`. -/
def writeRecord (inst : Instance Record) (type : RecordType) (name : String) (info : NodeInfo) :
    Instance Record :=
  inst.writeRecord (type, name) info.listVersion (form.write info)

/-- A function that changes an object. -/
def edit (node : Node) (inst : Instance Record) (edit : NodeEdit) :
    Bool × Node × Instance Record :=
  let info := form.initInfo node inst
  match edit.apply info with
  | none => (false, { node with info := some info }, inst)
  | some info =>
      (true, { node with info := some info }, form.writeRecord inst .node node.name info)

/-- `add_graph_version`. -/
def addGraphVersion (node : Node) (version : Nat) (inst : Instance Record) :
    Node × Instance Record :=
  let info := form.initInfo node inst
  if info.graphVersions.any fun graphVersion => version ≤ graphVersion then
    ({ node with info := some info }, inst)
  else
    let info := { info with graphVersions := info.graphVersions ++ [version] }
    ({ node with info := some info }, (form.writeRecord inst .nodeMeta node.name info).flush)

/-- `commit` of an object. -/
def commit (node : Node) (inst : Instance Record) : Node × Instance Record :=
  let info := form.initInfo node inst
  ({ node with info := some info }, form.writeRecord inst .node node.name info)

/-- `forward_edges` and `reverse_edges`. -/
def neighbours (node : Node) (direction : Direction) (inst : Instance Record) : List Node :=
  ((form.initInfo node inst).getEdges direction node.wantedVersion).map fun name =>
    ⟨name, node.wantedVersion, none⟩

theorem readNode_plain (inst : GraphInstance) (name : String) :
    plainForm.readNode inst name = inst.readNode name := by
  unfold readNode plainForm
  rw [Option.map_id]
  rfl

theorem initInfo_plain (node : Node) (inst : GraphInstance) :
    plainForm.initInfo node inst = node.initInfo inst := by
  unfold initInfo
  rw [readNode_plain]
  rfl

theorem edit_plain (node : Node) (inst : GraphInstance) (change : NodeEdit) :
    plainForm.edit node inst change = node.edit inst change := by
  unfold edit
  rw [initInfo_plain]
  cases change with
  | addEdge direction other => rfl
  | removeEdge direction other => rfl
  | updateTag key values => rfl
  | deleteTag key => rfl
  | setType type => rfl

theorem addGraphVersion_plain (node : Node) (version : Nat) (inst : GraphInstance) :
    plainForm.addGraphVersion node version inst = node.addGraphVersion version inst := by
  unfold addGraphVersion
  rw [initInfo_plain]
  rfl

theorem commit_plain (node : Node) (inst : GraphInstance) :
    plainForm.commit node inst = node.commit inst := by
  unfold commit
  rw [initInfo_plain]
  rfl

theorem neighbours_plain (node : Node) (direction : Direction) (inst : GraphInstance) :
    plainForm.neighbours node direction inst = node.neighbours direction inst := by
  unfold neighbours
  rw [initInfo_plain]
  rfl

end RecordForm

/-- An instance and the objects that a program has on it. -/
structure NodeProgram (Record : Type) where
  inst : Instance Record
  objects : List Node
  deriving DecidableEq

/-- A call; the numbers are places in the list of objects. -/
inductive NodeCall where
  | createNode (name : String)
  | read (object : Nat)
  | neighbours (direction : Direction) (object : Nat)
  | edit (object : Nat) (edit : NodeEdit)
  | addGraphVersion (object version : Nat)
  | commitNode (object : Nat)
  | setWantedVersion (object : Nat) (version : Option Nat)
  | flush
  | commit
  | abort
  deriving DecidableEq, Repr

namespace NodeProgram

variable {Record : Type} (form : RecordForm Record)

/-- An instance that holds nothing, and no objects. -/
def empty : NodeProgram Record where
  inst := .empty
  objects := []

/-- A call of an object, which may change it and the instance. -/
def onObject (program : NodeProgram Record) (object : Nat)
    (function : Node → Instance Record → Node × Instance Record) : Option (NodeProgram Record) :=
  (program.objects[object]?).map fun node =>
    let (node, inst) := function node program.inst
    ⟨inst, program.objects.set object node⟩

/-- One call; `none` when there is no such object. -/
def step (program : NodeProgram Record) : NodeCall → Option (NodeProgram Record)
  | .createNode name => some { program with objects := program.objects ++ [.createNode name] }
  | .read object => program.onObject object fun node inst =>
      ({ node with info := some (form.initInfo node inst) }, inst)
  | .neighbours direction object =>
      (program.objects[object]?).map fun node =>
        { program with
          objects := program.objects.set object
              { node with info := some (form.initInfo node program.inst) } ++
            form.neighbours node direction program.inst }
  | .edit object edit => program.onObject object fun node inst => (form.edit node inst edit).2
  | .addGraphVersion object version => program.onObject object fun node inst =>
      form.addGraphVersion node version inst
  | .commitNode object => program.onObject object form.commit
  | .setWantedVersion object version => program.onObject object fun node inst =>
      (node.setWantedVersion version, inst)
  | .flush => some { program with inst := program.inst.flush }
  | .commit => some { program with inst := program.inst.commit }
  | .abort => some { program with inst := program.inst.abort }

end NodeProgram

/-! ## What an instance holds in another form -/

namespace RecordForm

variable {Record : Type} {form : RecordForm Record}

variable (form) in
/-- The instance holds, in its form, the records that the other one holds. -/
structure Holds (stored : Instance Record) (inst : GraphInstance) : Prop where
  records : ∀ key, stored.records.lookup key = (inst.records.lookup key).map form.write
  changelist : stored.changelist = inst.changelist
  pending : stored.pendingChanges.entries = inst.pendingChanges.entries.map fun entry =>
    ⟨entry.1, ⟨entry.2.objectVersion, form.write entry.2.data⟩⟩

namespace Holds

variable {stored : Instance Record} {inst : GraphInstance}

theorem empty : form.Holds .empty .empty where
  records := fun _ => rfl
  changelist := rfl
  pending := rfl

theorem getRecord (holds : form.Holds stored inst) (key : RecordKey) :
    stored.getRecord key = (inst.getRecord key).map form.write := by
  unfold Instance.getRecord
  rw [RecordTable.lookup_decoded holds.pending, holds.records]
  cases inst.pendingChanges.lookup key with
  | none => rfl
  | some change => rfl

theorem version (holds : form.Holds stored inst) : stored.version = inst.version := by
  unfold Instance.version Instance.pending
  rw [holds.changelist, holds.pending, List.length_map]

theorem writeRecord (holds : form.Holds stored inst) (type : RecordType) (name : String)
    (info : NodeInfo) :
    form.Holds (form.writeRecord stored type name info)
      (inst.writeRecord (type, name) info.listVersion info) where
  records := holds.records
  changelist := holds.changelist
  pending := RecordTable.entries_insert_decoded holds.pending (type, name) info.listVersion info

theorem flush (holds : form.Holds stored inst) : form.Holds stored.flush inst.flush where
  records := by
    intro key
    rw [Instance.lookup_records_flush, Instance.lookup_records_flush, holds.getRecord]
  changelist := holds.changelist
  pending := holds.pending

theorem abort (holds : form.Holds stored inst) : form.Holds stored.abort inst.abort where
  records := holds.records
  changelist := holds.changelist
  pending := rfl

theorem pendingItems (holds : form.Holds stored inst) :
    stored.pendingItems = inst.pendingItems := by
  unfold Instance.pendingItems
  rw [holds.pending, List.filterMap_map]
  rfl

theorem commit (holds : form.Holds stored inst) : form.Holds stored.commit inst.commit where
  records := by
    intro key
    rw [Instance.lookup_records_commit, Instance.lookup_records_commit, holds.getRecord]
  changelist := by
    rw [Instance.changelist_commit, Instance.changelist_commit, holds.pendingItems,
      holds.changelist]
  pending := by
    rw [Instance.pendingChanges_commit, Instance.pendingChanges_commit]
    rfl

end Holds

variable (form) in
/-- The records that a read of the instance returns can be read in this form. -/
def ReadsBack (inst : GraphInstance) : Prop :=
  ∀ key info, inst.getRecord key = some info → form.read (form.write info) = info

section Objects

variable {stored : Instance Record} {inst : GraphInstance}

theorem readNode_eq (holds : form.Holds stored inst) (back : form.ReadsBack inst) (name : String) :
    form.readNode stored name = plainForm.readNode inst name := by
  unfold readNode
  rw [holds.getRecord]
  cases found : inst.getRecord (.node, name) with
  | none => rfl
  | some info => exact back _ info found

theorem initInfo_eq (holds : form.Holds stored inst) (back : form.ReadsBack inst) (node : Node) :
    form.initInfo node stored = plainForm.initInfo node inst := by
  unfold initInfo
  rw [readNode_eq holds back]

theorem edit_matched (holds : form.Holds stored inst) (back : form.ReadsBack inst) (node : Node)
    (change : NodeEdit) :
    (form.edit node stored change).1 = (plainForm.edit node inst change).1 ∧
      (form.edit node stored change).2.1 = (plainForm.edit node inst change).2.1 ∧
      form.Holds (form.edit node stored change).2.2 (plainForm.edit node inst change).2.2 := by
  unfold edit
  rw [initInfo_eq holds back]
  dsimp only
  cases change.apply (plainForm.initInfo node inst) with
  | none => exact ⟨rfl, rfl, holds⟩
  | some info => exact ⟨rfl, rfl, holds.writeRecord .node node.name info⟩

theorem addGraphVersion_matched (holds : form.Holds stored inst) (back : form.ReadsBack inst)
    (node : Node) (version : Nat) :
    (form.addGraphVersion node version stored).1 =
        (plainForm.addGraphVersion node version inst).1 ∧
      form.Holds (form.addGraphVersion node version stored).2
        (plainForm.addGraphVersion node version inst).2 := by
  unfold addGraphVersion
  rw [initInfo_eq holds back]
  dsimp only
  split
  · exact ⟨rfl, holds⟩
  · exact ⟨rfl, (holds.writeRecord .nodeMeta node.name _).flush⟩

theorem commit_matched (holds : form.Holds stored inst) (back : form.ReadsBack inst)
    (node : Node) :
    (form.commit node stored).1 = (plainForm.commit node inst).1 ∧
      form.Holds (form.commit node stored).2 (plainForm.commit node inst).2 := by
  unfold commit
  rw [initInfo_eq holds back]
  exact ⟨rfl, holds.writeRecord .node node.name _⟩

end Objects

end RecordForm

namespace NodeProgram

variable {Record : Type} {form : RecordForm Record}

/-- The objects are the same, over an instance that holds the records in another
form. -/
structure Matches (form : RecordForm Record) (stored : NodeProgram Record)
    (program : NodeProgram NodeInfo) : Prop where
  inst : form.Holds stored.inst program.inst
  objects : stored.objects = program.objects

variable {stored : NodeProgram Record} {program next : NodeProgram NodeInfo}

theorem onObject_matched (agrees : Matches form stored program) {object : Nat}
    {function : Node → Instance Record → Node × Instance Record}
    {plain : Node → GraphInstance → Node × GraphInstance}
    (matched : ∀ node, (function node stored.inst).1 = (plain node program.inst).1 ∧
      form.Holds (function node stored.inst).2 (plain node program.inst).2)
    (taken : program.onObject object plain = some next) :
    ∃ after, stored.onObject object function = some after ∧ Matches form after next := by
  unfold onObject at taken ⊢
  rw [agrees.objects]
  cases found : program.objects[object]? with
  | none => simp [found] at taken
  | some node =>
      rw [found] at taken
      obtain rfl := Option.some.inj taken
      refine ⟨_, rfl, (matched node).2, ?_⟩
      dsimp only
      rw [(matched node).1]

/-- A call does the same to the objects in every form of the records. -/
theorem step_matched (agrees : Matches form stored program) (back : form.ReadsBack program.inst)
    {call : NodeCall} (taken : program.step plainForm call = some next) :
    ∃ after, stored.step form call = some after ∧ Matches form after next := by
  cases call with
  | createNode name =>
      obtain rfl := Option.some.inj taken
      refine ⟨_, rfl, agrees.inst, ?_⟩
      dsimp only
      rw [agrees.objects]
  | read object =>
      simp only [step] at taken ⊢
      refine onObject_matched agrees (fun node => ⟨?_, agrees.inst⟩) taken
      rw [RecordForm.initInfo_eq agrees.inst back]
  | neighbours direction object =>
      simp only [step] at taken ⊢
      rw [agrees.objects]
      cases found : program.objects[object]? with
      | none => simp [found] at taken
      | some node =>
          rw [found] at taken
          obtain rfl := Option.some.inj taken
          refine ⟨_, rfl, agrees.inst, ?_⟩
          dsimp only [RecordForm.neighbours]
          rw [RecordForm.initInfo_eq agrees.inst back]
  | edit object change =>
      simp only [step] at taken ⊢
      exact onObject_matched agrees
        (fun node => (RecordForm.edit_matched agrees.inst back node change).2) taken
  | addGraphVersion object version =>
      exact onObject_matched agrees
        (fun node => RecordForm.addGraphVersion_matched agrees.inst back node version) taken
  | commitNode object =>
      exact onObject_matched agrees
        (fun node => RecordForm.commit_matched agrees.inst back node) taken
  | setWantedVersion object version =>
      simp only [step] at taken ⊢
      exact onObject_matched agrees (fun node => ⟨rfl, agrees.inst⟩) taken
  | flush =>
      obtain rfl := Option.some.inj taken
      exact ⟨_, rfl, agrees.inst.flush, agrees.objects⟩
  | commit =>
      obtain rfl := Option.some.inj taken
      exact ⟨_, rfl, agrees.inst.commit, agrees.objects⟩
  | abort =>
      obtain rfl := Option.some.inj taken
      exact ⟨_, rfl, agrees.inst.abort, agrees.objects⟩

/-- Every record of the instance can be stored. -/
def Storable {Unknown : Type} (stream : CodedStream Unknown) (program : NodeProgram NodeInfo) :
    Prop :=
  (∀ entry ∈ program.inst.records.entries, entry.2.Storable stream) ∧
    ∀ entry ∈ program.inst.pendingChanges.entries, entry.2.data.Storable stream

instance {Unknown : Type} (stream : CodedStream Unknown) (program : NodeProgram NodeInfo) :
    Decidable (program.Storable stream) :=
  inferInstanceAs (Decidable (_ ∧ _))

/-- Every call of the run leaves records that can be stored. -/
def StaysStorable {Unknown : Type} (stream : CodedStream Unknown) :
    NodeProgram NodeInfo → List NodeCall → Prop :=
  Along (step plainForm) fun before call =>
    ∀ after, before.step plainForm call = some after → after.Storable stream

section Storing

variable {Unknown : Type} {stream : CodedStream Unknown} {program next : NodeProgram NodeInfo}

theorem empty_storable : (empty : NodeProgram NodeInfo).Storable stream :=
  ⟨List.forall_mem_nil _, List.forall_mem_nil _⟩

theorem Storable.of_getRecord (storable : program.Storable stream) {key : RecordKey}
    {info : NodeInfo} (found : program.inst.getRecord key = some info) : info.Storable stream := by
  unfold Instance.getRecord at found
  cases isPending : program.inst.pendingChanges.lookup key with
  | some change =>
      rw [isPending] at found
      obtain rfl := Option.some.inj found
      exact storable.2 ⟨key, change⟩ (AList.mem_lookup_iff.mp isPending)
  | none =>
      rw [isPending] at found
      exact storable.1 ⟨key, info⟩ (AList.mem_lookup_iff.mp found)

theorem Storable.readsBack (documented : stream.Documented) (storable : program.Storable stream) :
    (byteForm stream).ReadsBack program.inst :=
  fun _ _ found => read_write documented (storable.of_getRecord found)

theorem StaysStorable.cons {call : NodeCall} {rest : List NodeCall}
    (taken : program.step plainForm call = some next) (storable : next.Storable stream)
    (stays : StaysStorable stream next rest) : StaysStorable stream program (call :: rest) := by
  refine ⟨fun after takenAfter => ?_, fun after takenAfter => ?_⟩
  · obtain rfl := Option.some.inj (taken.symm.trans takenAfter)
    exact storable
  · obtain rfl := Option.some.inj (taken.symm.trans takenAfter)
    exact stays

end Storing

end NodeProgram

/-- An edge to a node, read by an object that is created after the commit. -/
def edgeReadAgain : List NodeCall :=
  [.createNode "a", .edit 0 (.addEdge .forward "b"), .commit, .createNode "a",
    .neighbours .forward 1]

theorem edgeReadAgain_storable : NodeProgram.StaysStorable base128 .empty edgeReadAgain :=
  .cons rfl (by decide +kernel) <| .cons rfl (by decide +kernel) <|
    .cons rfl (by decide +kernel) <| .cons rfl (by decide +kernel) <|
      .cons rfl (by decide +kernel) trivial

end Rangexx
