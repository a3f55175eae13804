import Rangexx.FieldKinds

/-!
# The messages of the stored records

`NodeInfo`, `ChangeList` and `GraphList` with the messages in them, as the
generated code has them.  The parser of a message that has others in it calls
theirs, so that all of them are told whether to expect tags.
-/

namespace Rangexx.Proto

open WireFormat

/-! ## Nodes -/

structure Adjacency (Unknown : Type) where
  id : Option Octets
  versions : List UInt64
  unknownFields : List Unknown
  deriving DecidableEq

namespace Adjacency

variable {Unknown : Type}

def clear : Adjacency Unknown where
  id := none
  versions := []
  unknownFields := []

def isInitialized (adjacency : Adjacency Unknown) : Bool :=
  adjacency.id.isSome

def mergeFrom (adjacency source : Adjacency Unknown) : Adjacency Unknown where
  id := source.id <|> adjacency.id
  versions := adjacency.versions ++ source.versions
  unknownFields := adjacency.unknownFields ++ source.unknownFields

def unknownMember : Member (Adjacency Unknown) (List Unknown) where
  get := unknownFields
  put := fun adjacency value => { adjacency with unknownFields := value }

variable (stream : CodedStream Unknown)

def fields : List (WireField (Adjacency Unknown)) :=
  [stringField stream 1
      { get := id, put := fun adjacency value => { adjacency with id := value } },
    repeatedField stream 2
      { get := versions, put := fun adjacency value => { adjacency with versions := value } }]

def messageType : MessageType Unknown (Adjacency Unknown) where
  fields := fields stream
  unknownFields := unknownMember
  numbered := numbered_of_range 2 rfl rfl (by decide)

/-- No case of the parser takes an unknown field. -/
structure Regular (adjacency : Adjacency Unknown) : Prop where
  unknownFields : ∀ unknown ∈ adjacency.unknownFields,
    Uninterpreted stream (messageType stream) unknown

variable {stream}

theorem counted (documented : stream.Documented) :
    ∀ field ∈ (messageType stream).fields, field.Counted := by
  simp only [messageType, fields, List.forall_mem_cons]
  exact ⟨stringField_counted documented, repeatedField_counted documented, nofun⟩

theorem readable (documented : stream.Documented) {adjacency : Adjacency Unknown}
    (regular : adjacency.Regular stream) :
    Readable stream (messageType stream) adjacency where
  reads := by
    simp only [messageType, fields, List.forall_mem_cons]
    exact ⟨stringField_reads documented, repeatedField_reads documented, nofun⟩
  uninterpreted := regular.unknownFields

theorem mergeFrom_eq (adjacency source : Adjacency Unknown) :
    WireFormat.mergeFrom (messageType stream) adjacency source = adjacency.mergeFrom source := by
  unfold WireFormat.mergeFrom messageType fields
  dsimp only
  rw [mergeFields_cons, mergeField_string, mergeFields_cons, mergeField_repeated]
  rfl

theorem clear_mergeFrom (source : Adjacency Unknown) : clear.mergeFrom source = source := by
  obtain ⟨_, _, _⟩ := source
  simp [mergeFrom, clear]

theorem fills (source : Adjacency Unknown) :
    WireFormat.mergeFrom (messageType stream) clear source = source :=
  (mergeFrom_eq clear source).trans (clear_mergeFrom source)

end Adjacency

structure Edges (Unknown : Type) where
  edges : List (Adjacency Unknown)
  unknownFields : List Unknown
  deriving DecidableEq

namespace Edges

variable {Unknown : Type}

def clear : Edges Unknown where
  edges := []
  unknownFields := []

def isInitialized (direction : Edges Unknown) : Bool :=
  direction.edges.all Adjacency.isInitialized

def mergeFrom (direction source : Edges Unknown) : Edges Unknown where
  edges := direction.edges ++ source.edges
  unknownFields := direction.unknownFields ++ source.unknownFields

def unknownMember : Member (Edges Unknown) (List Unknown) where
  get := unknownFields
  put := fun direction value => { direction with unknownFields := value }

variable (stream : CodedStream Unknown) (expects : Bool)

def fields : List (WireField (Edges Unknown)) :=
  [repeatedMessageField stream (Adjacency.messageType stream)
      (parseMessage stream (Adjacency.messageType stream) expects) 1 .clear
      { get := edges, put := fun direction value => { direction with edges := value } }]

def messageType : MessageType Unknown (Edges Unknown) where
  fields := fields stream expects
  unknownFields := unknownMember
  numbered := numbered_of_range 1 rfl rfl (by decide)

/-- No case of the parser takes an unknown field, here or in a part. -/
structure Regular (direction : Edges Unknown) : Prop where
  edges : ∀ inner ∈ direction.edges, inner.Regular stream
  unknownFields : ∀ unknown ∈ direction.unknownFields,
    Uninterpreted stream (messageType stream expects) unknown

variable {stream expects}

theorem counted (documented : stream.Documented) :
    ∀ field ∈ (messageType stream expects).fields, field.Counted := by
  simp only [messageType, fields, List.forall_mem_cons]
  exact ⟨repeatedMessageField_counted documented (Adjacency.counted documented), nofun⟩

theorem readable (documented : stream.Documented) {direction : Edges Unknown}
    (regular : direction.Regular stream expects) :
    Readable stream (messageType stream expects) direction where
  reads := by
    simp only [messageType, fields, List.forall_mem_cons]
    exact ⟨repeatedMessageField_reads documented (Adjacency.counted documented)
          fun inner has => Adjacency.readable documented (regular.edges inner has),
      nofun⟩
  uninterpreted := regular.unknownFields

theorem mergeFrom_eq (direction source : Edges Unknown) :
    WireFormat.mergeFrom (messageType stream expects) direction source =
      direction.mergeFrom source := by
  unfold WireFormat.mergeFrom messageType fields
  dsimp only
  rw [mergeFields_cons, mergeField_repeatedMessage Adjacency.fills]
  rfl

theorem clear_mergeFrom (source : Edges Unknown) : clear.mergeFrom source = source := by
  obtain ⟨_, _⟩ := source
  simp [mergeFrom, clear]

end Edges

/-- `NodeInfo.Tags.KeyValue.Values`. -/
structure Values (Unknown : Type) where
  data : Option Octets
  versions : List UInt64
  unknownFields : List Unknown
  deriving DecidableEq

namespace Values

variable {Unknown : Type}

def clear : Values Unknown where
  data := none
  versions := []
  unknownFields := []

def isInitialized (values : Values Unknown) : Bool :=
  values.data.isSome

def mergeFrom (values source : Values Unknown) : Values Unknown where
  data := source.data <|> values.data
  versions := values.versions ++ source.versions
  unknownFields := values.unknownFields ++ source.unknownFields

def unknownMember : Member (Values Unknown) (List Unknown) where
  get := unknownFields
  put := fun values value => { values with unknownFields := value }

variable (stream : CodedStream Unknown)

def fields : List (WireField (Values Unknown)) :=
  [stringField stream 1 { get := data, put := fun values value => { values with data := value } },
    repeatedField stream 2
      { get := versions, put := fun values value => { values with versions := value } }]

def messageType : MessageType Unknown (Values Unknown) where
  fields := fields stream
  unknownFields := unknownMember
  numbered := numbered_of_range 2 rfl rfl (by decide)

/-- No case of the parser takes an unknown field. -/
structure Regular (values : Values Unknown) : Prop where
  unknownFields : ∀ unknown ∈ values.unknownFields,
    Uninterpreted stream (messageType stream) unknown

variable {stream}

theorem counted (documented : stream.Documented) :
    ∀ field ∈ (messageType stream).fields, field.Counted := by
  simp only [messageType, fields, List.forall_mem_cons]
  exact ⟨stringField_counted documented, repeatedField_counted documented, nofun⟩

theorem readable (documented : stream.Documented) {values : Values Unknown}
    (regular : values.Regular stream) :
    Readable stream (messageType stream) values where
  reads := by
    simp only [messageType, fields, List.forall_mem_cons]
    exact ⟨stringField_reads documented, repeatedField_reads documented, nofun⟩
  uninterpreted := regular.unknownFields

theorem mergeFrom_eq (values source : Values Unknown) :
    WireFormat.mergeFrom (messageType stream) values source = values.mergeFrom source := by
  unfold WireFormat.mergeFrom messageType fields
  dsimp only
  rw [mergeFields_cons, mergeField_string, mergeFields_cons, mergeField_repeated]
  rfl

theorem clear_mergeFrom (source : Values Unknown) : clear.mergeFrom source = source := by
  obtain ⟨_, _, _⟩ := source
  simp [mergeFrom, clear]

theorem fills (source : Values Unknown) :
    WireFormat.mergeFrom (messageType stream) clear source = source :=
  (mergeFrom_eq clear source).trans (clear_mergeFrom source)

end Values

structure ListToVersionMap (Unknown : Type) where
  listVersion : Option UInt64
  keyVersion : Option UInt64
  unknownFields : List Unknown
  deriving DecidableEq

namespace ListToVersionMap

variable {Unknown : Type}

def clear : ListToVersionMap Unknown where
  listVersion := none
  keyVersion := none
  unknownFields := []

def isInitialized (entry : ListToVersionMap Unknown) : Bool :=
  entry.listVersion.isSome && entry.keyVersion.isSome

def mergeFrom (entry source : ListToVersionMap Unknown) : ListToVersionMap Unknown where
  listVersion := source.listVersion <|> entry.listVersion
  keyVersion := source.keyVersion <|> entry.keyVersion
  unknownFields := entry.unknownFields ++ source.unknownFields

def unknownMember : Member (ListToVersionMap Unknown) (List Unknown) where
  get := unknownFields
  put := fun entry value => { entry with unknownFields := value }

variable (stream : CodedStream Unknown)

def fields : List (WireField (ListToVersionMap Unknown)) :=
  [scalarField 1 stream.uint64
      { get := listVersion, put := fun entry value => { entry with listVersion := value } },
    scalarField 2 stream.uint64
      { get := keyVersion, put := fun entry value => { entry with keyVersion := value } }]

def messageType : MessageType Unknown (ListToVersionMap Unknown) where
  fields := fields stream
  unknownFields := unknownMember
  numbered := numbered_of_range 2 rfl rfl (by decide)

/-- No case of the parser takes an unknown field. -/
structure Regular (entry : ListToVersionMap Unknown) : Prop where
  unknownFields : ∀ unknown ∈ entry.unknownFields,
    Uninterpreted stream (messageType stream) unknown

variable {stream}

theorem counted (documented : stream.Documented) :
    ∀ field ∈ (messageType stream).fields, field.Counted := by
  simp only [messageType, fields, List.forall_mem_cons]
  exact ⟨scalarField_counted documented.uint64, scalarField_counted documented.uint64, nofun⟩

theorem readable (documented : stream.Documented) {entry : ListToVersionMap Unknown}
    (regular : entry.Regular stream) :
    Readable stream (messageType stream) entry where
  reads := by
    simp only [messageType, fields, List.forall_mem_cons]
    exact ⟨scalarField_reads documented.uint64, scalarField_reads documented.uint64, nofun⟩
  uninterpreted := regular.unknownFields

theorem mergeFrom_eq (entry source : ListToVersionMap Unknown) :
    WireFormat.mergeFrom (messageType stream) entry source = entry.mergeFrom source := by
  unfold WireFormat.mergeFrom messageType fields
  dsimp only
  rw [mergeFields_cons, mergeField_scalar, mergeFields_cons, mergeField_scalar]
  rfl

theorem clear_mergeFrom (source : ListToVersionMap Unknown) : clear.mergeFrom source = source := by
  obtain ⟨_, _, _⟩ := source
  simp [mergeFrom, clear]

theorem fills (source : ListToVersionMap Unknown) :
    WireFormat.mergeFrom (messageType stream) clear source = source :=
  (mergeFrom_eq clear source).trans (clear_mergeFrom source)

end ListToVersionMap

structure KeyValue (Unknown : Type) where
  key : Option Octets
  keyVersion : Option UInt64
  values : List (Values Unknown)
  versions : List UInt64
  versionmap : List (ListToVersionMap Unknown)
  unknownFields : List Unknown
  deriving DecidableEq

namespace KeyValue

variable {Unknown : Type}

def clear : KeyValue Unknown where
  key := none
  keyVersion := none
  values := []
  versions := []
  versionmap := []
  unknownFields := []

def isInitialized (kv : KeyValue Unknown) : Bool :=
  kv.key.isSome && kv.keyVersion.isSome && kv.values.all Values.isInitialized &&
    kv.versionmap.all ListToVersionMap.isInitialized

def mergeFrom (kv source : KeyValue Unknown) : KeyValue Unknown where
  key := source.key <|> kv.key
  keyVersion := source.keyVersion <|> kv.keyVersion
  values := kv.values ++ source.values
  versions := kv.versions ++ source.versions
  versionmap := kv.versionmap ++ source.versionmap
  unknownFields := kv.unknownFields ++ source.unknownFields

def unknownMember : Member (KeyValue Unknown) (List Unknown) where
  get := unknownFields
  put := fun kv value => { kv with unknownFields := value }

variable (stream : CodedStream Unknown) (expects : Bool)

def fields : List (WireField (KeyValue Unknown)) :=
  [stringField stream 1 { get := key, put := fun kv value => { kv with key := value } },
    scalarField 2 stream.uint64
      { get := keyVersion, put := fun kv value => { kv with keyVersion := value } },
    repeatedMessageField stream (Values.messageType stream)
      (parseMessage stream (Values.messageType stream) expects) 3 .clear
      { get := values, put := fun kv value => { kv with values := value } },
    repeatedField stream 4
      { get := versions, put := fun kv value => { kv with versions := value } },
    repeatedMessageField stream (ListToVersionMap.messageType stream)
      (parseMessage stream (ListToVersionMap.messageType stream) expects) 5 .clear
      { get := versionmap, put := fun kv value => { kv with versionmap := value } }]

def messageType : MessageType Unknown (KeyValue Unknown) where
  fields := fields stream expects
  unknownFields := unknownMember
  numbered := numbered_of_range 5 rfl rfl (by decide)

/-- No case of the parser takes an unknown field, here or in a part. -/
structure Regular (kv : KeyValue Unknown) : Prop where
  values : ∀ inner ∈ kv.values, inner.Regular stream
  versionmap : ∀ inner ∈ kv.versionmap, inner.Regular stream
  unknownFields : ∀ unknown ∈ kv.unknownFields,
    Uninterpreted stream (messageType stream expects) unknown

variable {stream expects}

theorem counted (documented : stream.Documented) :
    ∀ field ∈ (messageType stream expects).fields, field.Counted := by
  simp only [messageType, fields, List.forall_mem_cons]
  exact ⟨stringField_counted documented, scalarField_counted documented.uint64,
    repeatedMessageField_counted documented (Values.counted documented),
    repeatedField_counted documented,
    repeatedMessageField_counted documented (ListToVersionMap.counted documented), nofun⟩

theorem readable (documented : stream.Documented) {kv : KeyValue Unknown}
    (regular : kv.Regular stream expects) :
    Readable stream (messageType stream expects) kv where
  reads := by
    simp only [messageType, fields, List.forall_mem_cons]
    exact ⟨stringField_reads documented, scalarField_reads documented.uint64,
      repeatedMessageField_reads documented (Values.counted documented)
          fun inner has => Values.readable documented (regular.values inner has),
      repeatedField_reads documented,
      repeatedMessageField_reads documented (ListToVersionMap.counted documented)
          fun inner has => ListToVersionMap.readable documented (regular.versionmap inner has),
      nofun⟩
  uninterpreted := regular.unknownFields

theorem mergeFrom_eq (kv source : KeyValue Unknown) :
    WireFormat.mergeFrom (messageType stream expects) kv source = kv.mergeFrom source := by
  unfold WireFormat.mergeFrom messageType fields
  dsimp only
  rw [mergeFields_cons, mergeField_string, mergeFields_cons, mergeField_scalar, mergeFields_cons,
    mergeField_repeatedMessage Values.fills, mergeFields_cons, mergeField_repeated,
    mergeFields_cons, mergeField_repeatedMessage ListToVersionMap.fills]
  rfl

theorem clear_mergeFrom (source : KeyValue Unknown) : clear.mergeFrom source = source := by
  obtain ⟨_, _, _, _, _, _⟩ := source
  simp [mergeFrom, clear]

theorem fills (source : KeyValue Unknown) :
    WireFormat.mergeFrom (messageType stream expects) clear source = source :=
  (mergeFrom_eq clear source).trans (clear_mergeFrom source)

end KeyValue

structure Tags (Unknown : Type) where
  keys : List (KeyValue Unknown)
  unknownFields : List Unknown
  deriving DecidableEq

namespace Tags

variable {Unknown : Type}

def clear : Tags Unknown where
  keys := []
  unknownFields := []

def isInitialized (tags : Tags Unknown) : Bool :=
  tags.keys.all KeyValue.isInitialized

def mergeFrom (tags source : Tags Unknown) : Tags Unknown where
  keys := tags.keys ++ source.keys
  unknownFields := tags.unknownFields ++ source.unknownFields

def unknownMember : Member (Tags Unknown) (List Unknown) where
  get := unknownFields
  put := fun tags value => { tags with unknownFields := value }

variable (stream : CodedStream Unknown) (expects : Bool)

def fields : List (WireField (Tags Unknown)) :=
  [repeatedMessageField stream (KeyValue.messageType stream expects)
      (parseMessage stream (KeyValue.messageType stream expects) expects) 1 .clear
      { get := keys, put := fun tags value => { tags with keys := value } }]

def messageType : MessageType Unknown (Tags Unknown) where
  fields := fields stream expects
  unknownFields := unknownMember
  numbered := numbered_of_range 1 rfl rfl (by decide)

/-- No case of the parser takes an unknown field, here or in a part. -/
structure Regular (tags : Tags Unknown) : Prop where
  keys : ∀ inner ∈ tags.keys, inner.Regular stream expects
  unknownFields : ∀ unknown ∈ tags.unknownFields,
    Uninterpreted stream (messageType stream expects) unknown

variable {stream expects}

theorem counted (documented : stream.Documented) :
    ∀ field ∈ (messageType stream expects).fields, field.Counted := by
  simp only [messageType, fields, List.forall_mem_cons]
  exact ⟨repeatedMessageField_counted documented (KeyValue.counted documented), nofun⟩

theorem readable (documented : stream.Documented) {tags : Tags Unknown}
    (regular : tags.Regular stream expects) :
    Readable stream (messageType stream expects) tags where
  reads := by
    simp only [messageType, fields, List.forall_mem_cons]
    exact ⟨repeatedMessageField_reads documented (KeyValue.counted documented)
          fun inner has => KeyValue.readable documented (regular.keys inner has),
      nofun⟩
  uninterpreted := regular.unknownFields

theorem mergeFrom_eq (tags source : Tags Unknown) :
    WireFormat.mergeFrom (messageType stream expects) tags source = tags.mergeFrom source := by
  unfold WireFormat.mergeFrom messageType fields
  dsimp only
  rw [mergeFields_cons, mergeField_repeatedMessage KeyValue.fills]
  rfl

theorem clear_mergeFrom (source : Tags Unknown) : clear.mergeFrom source = source := by
  obtain ⟨_, _⟩ := source
  simp [mergeFrom, clear]

end Tags

structure NodeInfo (Unknown : Type) where
  listVersion : Option UInt64
  crc32 : Option UInt32
  nodeType : Option UInt32
  forward : Option (Edges Unknown)
  reverse : Option (Edges Unknown)
  tags : Option (Tags Unknown)
  graphVersions : List UInt64
  unknownFields : List Unknown
  deriving DecidableEq

namespace NodeInfo

variable {Unknown : Type}

def clear : NodeInfo Unknown where
  listVersion := none
  crc32 := none
  nodeType := none
  forward := none
  reverse := none
  tags := none
  graphVersions := []
  unknownFields := []

def isInitialized (info : NodeInfo Unknown) : Bool :=
  info.listVersion.isSome && info.crc32.isSome && info.nodeType.isSome &&
    info.forward.any Edges.isInitialized && info.reverse.any Edges.isInitialized &&
    info.tags.any Tags.isInitialized

def mergeFrom (info source : NodeInfo Unknown) : NodeInfo Unknown where
  listVersion := source.listVersion <|> info.listVersion
  crc32 := source.crc32 <|> info.crc32
  nodeType := source.nodeType <|> info.nodeType
  forward := source.forward.map (info.forward.getD .clear).mergeFrom <|> info.forward
  reverse := source.reverse.map (info.reverse.getD .clear).mergeFrom <|> info.reverse
  tags := source.tags.map (info.tags.getD .clear).mergeFrom <|> info.tags
  graphVersions := info.graphVersions ++ source.graphVersions
  unknownFields := info.unknownFields ++ source.unknownFields

def unknownMember : Member (NodeInfo Unknown) (List Unknown) where
  get := unknownFields
  put := fun info value => { info with unknownFields := value }

variable (stream : CodedStream Unknown) (expects : Bool)

def fields : List (WireField (NodeInfo Unknown)) :=
  [scalarField 1 stream.uint64
      { get := listVersion, put := fun info value => { info with listVersion := value } },
    scalarField 2 stream.uint32
      { get := crc32, put := fun info value => { info with crc32 := value } },
    scalarField 3 stream.uint32
      { get := nodeType, put := fun info value => { info with nodeType := value } },
    messageField stream (Edges.messageType stream expects)
      (parseMessage stream (Edges.messageType stream expects) expects) 4 .clear
      { get := forward, put := fun info value => { info with forward := value } },
    messageField stream (Edges.messageType stream expects)
      (parseMessage stream (Edges.messageType stream expects) expects) 5 .clear
      { get := reverse, put := fun info value => { info with reverse := value } },
    messageField stream (Tags.messageType stream expects)
      (parseMessage stream (Tags.messageType stream expects) expects) 6 .clear
      { get := tags, put := fun info value => { info with tags := value } },
    repeatedField stream 7
      { get := graphVersions, put := fun info value => { info with graphVersions := value } }]

def messageType : MessageType Unknown (NodeInfo Unknown) where
  fields := fields stream expects
  unknownFields := unknownMember
  numbered := numbered_of_range 7 rfl rfl (by decide)

/-- No case of the parser takes an unknown field, here or in a part. -/
structure Regular (info : NodeInfo Unknown) : Prop where
  forward : ∀ inner ∈ info.forward, inner.Regular stream expects
  reverse : ∀ inner ∈ info.reverse, inner.Regular stream expects
  tags : ∀ inner ∈ info.tags, inner.Regular stream expects
  unknownFields : ∀ unknown ∈ info.unknownFields,
    Uninterpreted stream (messageType stream expects) unknown

variable {stream expects}

theorem counted (documented : stream.Documented) :
    ∀ field ∈ (messageType stream expects).fields, field.Counted := by
  simp only [messageType, fields, List.forall_mem_cons]
  exact ⟨scalarField_counted documented.uint64, scalarField_counted documented.uint32,
    scalarField_counted documented.uint32,
    messageField_counted documented (Edges.counted documented),
    messageField_counted documented (Edges.counted documented),
    messageField_counted documented (Tags.counted documented), repeatedField_counted documented,
    nofun⟩

theorem readable (documented : stream.Documented) {info : NodeInfo Unknown}
    (regular : info.Regular stream expects) :
    Readable stream (messageType stream expects) info where
  reads := by
    simp only [messageType, fields, List.forall_mem_cons]
    exact ⟨scalarField_reads documented.uint64, scalarField_reads documented.uint32,
      scalarField_reads documented.uint32,
      messageField_reads documented (Edges.counted documented)
          fun inner has => Edges.readable documented (regular.forward inner has),
      messageField_reads documented (Edges.counted documented)
          fun inner has => Edges.readable documented (regular.reverse inner has),
      messageField_reads documented (Tags.counted documented)
          fun inner has => Tags.readable documented (regular.tags inner has),
      repeatedField_reads documented, nofun⟩
  uninterpreted := regular.unknownFields

theorem mergeFrom_eq (info source : NodeInfo Unknown) :
    WireFormat.mergeFrom (messageType stream expects) info source = info.mergeFrom source := by
  unfold WireFormat.mergeFrom messageType fields
  dsimp only
  rw [mergeFields_cons, mergeField_scalar, mergeFields_cons, mergeField_scalar, mergeFields_cons,
    mergeField_scalar, mergeFields_cons, mergeField_message, mergeFields_cons, mergeField_message,
    mergeFields_cons, mergeField_message, mergeFields_cons, mergeField_repeated]
  rw [funext (Edges.mergeFrom_eq _), funext (Edges.mergeFrom_eq _), funext (Tags.mergeFrom_eq _)]
  rfl

theorem clear_mergeFrom (source : NodeInfo Unknown) : clear.mergeFrom source = source := by
  have edgesSame : (.clear : Edges Unknown).mergeFrom = id := funext Edges.clear_mergeFrom
  have tagsSame : (.clear : Tags Unknown).mergeFrom = id := funext Tags.clear_mergeFrom
  obtain ⟨_, _, _, _, _, _, _, _⟩ := source
  simp [mergeFrom, clear, edgesSame, tagsSame]

theorem fills (source : NodeInfo Unknown) :
    WireFormat.mergeFrom (messageType stream expects) clear source = source :=
  (mergeFrom_eq clear source).trans (clear_mergeFrom source)

variable (stream)

def mergePartialFromCodedStream (info : NodeInfo Unknown) (input : Octets) :
    NodeInfo Unknown × Status :=
  WireFormat.mergePartialFromCodedStream stream (messageType stream true) info input

def parseFromString (data : Octets) : Bool × NodeInfo Unknown :=
  WireFormat.parseFromString stream (messageType stream true) clear isInitialized data

def byteSize (info : NodeInfo Unknown) : Nat :=
  WireFormat.byteSize stream (messageType stream true) info

def serializeAsString (info : NodeInfo Unknown) : Octets :=
  serialize stream (messageType stream true) info

end NodeInfo

/-! ## Changes -/

structure TimeStamp (Unknown : Type) where
  seconds : Option UInt64
  msec : Option UInt32
  unknownFields : List Unknown
  deriving DecidableEq

namespace TimeStamp

variable {Unknown : Type}

def clear : TimeStamp Unknown where
  seconds := none
  msec := none
  unknownFields := []

def isInitialized (timestamp : TimeStamp Unknown) : Bool :=
  timestamp.seconds.isSome && timestamp.msec.isSome

def mergeFrom (timestamp source : TimeStamp Unknown) : TimeStamp Unknown where
  seconds := source.seconds <|> timestamp.seconds
  msec := source.msec <|> timestamp.msec
  unknownFields := timestamp.unknownFields ++ source.unknownFields

def unknownMember : Member (TimeStamp Unknown) (List Unknown) where
  get := unknownFields
  put := fun timestamp value => { timestamp with unknownFields := value }

variable (stream : CodedStream Unknown)

def fields : List (WireField (TimeStamp Unknown)) :=
  [scalarField 1 stream.uint64
      { get := seconds, put := fun timestamp value => { timestamp with seconds := value } },
    scalarField 2 stream.uint32
      { get := msec, put := fun timestamp value => { timestamp with msec := value } }]

def messageType : MessageType Unknown (TimeStamp Unknown) where
  fields := fields stream
  unknownFields := unknownMember
  numbered := numbered_of_range 2 rfl rfl (by decide)

/-- No case of the parser takes an unknown field. -/
structure Regular (timestamp : TimeStamp Unknown) : Prop where
  unknownFields : ∀ unknown ∈ timestamp.unknownFields,
    Uninterpreted stream (messageType stream) unknown

variable {stream}

theorem counted (documented : stream.Documented) :
    ∀ field ∈ (messageType stream).fields, field.Counted := by
  simp only [messageType, fields, List.forall_mem_cons]
  exact ⟨scalarField_counted documented.uint64, scalarField_counted documented.uint32, nofun⟩

theorem readable (documented : stream.Documented) {timestamp : TimeStamp Unknown}
    (regular : timestamp.Regular stream) :
    Readable stream (messageType stream) timestamp where
  reads := by
    simp only [messageType, fields, List.forall_mem_cons]
    exact ⟨scalarField_reads documented.uint64, scalarField_reads documented.uint32, nofun⟩
  uninterpreted := regular.unknownFields

theorem mergeFrom_eq (timestamp source : TimeStamp Unknown) :
    WireFormat.mergeFrom (messageType stream) timestamp source = timestamp.mergeFrom source := by
  unfold WireFormat.mergeFrom messageType fields
  dsimp only
  rw [mergeFields_cons, mergeField_scalar, mergeFields_cons, mergeField_scalar]
  rfl

theorem clear_mergeFrom (source : TimeStamp Unknown) : clear.mergeFrom source = source := by
  obtain ⟨_, _, _⟩ := source
  simp [mergeFrom, clear]

end TimeStamp

structure Item (Unknown : Type) where
  key : Option Octets
  version : Option UInt64
  unknownFields : List Unknown
  deriving DecidableEq

namespace Item

variable {Unknown : Type}

def clear : Item Unknown where
  key := none
  version := none
  unknownFields := []

def isInitialized (item : Item Unknown) : Bool :=
  item.key.isSome && item.version.isSome

def mergeFrom (item source : Item Unknown) : Item Unknown where
  key := source.key <|> item.key
  version := source.version <|> item.version
  unknownFields := item.unknownFields ++ source.unknownFields

def unknownMember : Member (Item Unknown) (List Unknown) where
  get := unknownFields
  put := fun item value => { item with unknownFields := value }

variable (stream : CodedStream Unknown)

def fields : List (WireField (Item Unknown)) :=
  [stringField stream 1 { get := key, put := fun item value => { item with key := value } },
    scalarField 2 stream.uint64
      { get := version, put := fun item value => { item with version := value } }]

def messageType : MessageType Unknown (Item Unknown) where
  fields := fields stream
  unknownFields := unknownMember
  numbered := numbered_of_range 2 rfl rfl (by decide)

/-- No case of the parser takes an unknown field. -/
structure Regular (item : Item Unknown) : Prop where
  unknownFields : ∀ unknown ∈ item.unknownFields,
    Uninterpreted stream (messageType stream) unknown

variable {stream}

theorem counted (documented : stream.Documented) :
    ∀ field ∈ (messageType stream).fields, field.Counted := by
  simp only [messageType, fields, List.forall_mem_cons]
  exact ⟨stringField_counted documented, scalarField_counted documented.uint64, nofun⟩

theorem readable (documented : stream.Documented) {item : Item Unknown}
    (regular : item.Regular stream) :
    Readable stream (messageType stream) item where
  reads := by
    simp only [messageType, fields, List.forall_mem_cons]
    exact ⟨stringField_reads documented, scalarField_reads documented.uint64, nofun⟩
  uninterpreted := regular.unknownFields

theorem mergeFrom_eq (item source : Item Unknown) :
    WireFormat.mergeFrom (messageType stream) item source = item.mergeFrom source := by
  unfold WireFormat.mergeFrom messageType fields
  dsimp only
  rw [mergeFields_cons, mergeField_string, mergeFields_cons, mergeField_scalar]
  rfl

theorem clear_mergeFrom (source : Item Unknown) : clear.mergeFrom source = source := by
  obtain ⟨_, _, _⟩ := source
  simp [mergeFrom, clear]

theorem fills (source : Item Unknown) :
    WireFormat.mergeFrom (messageType stream) clear source = source :=
  (mergeFrom_eq clear source).trans (clear_mergeFrom source)

end Item

structure Change (Unknown : Type) where
  timestamp : Option (TimeStamp Unknown)
  items : List (Item Unknown)
  unknownFields : List Unknown
  deriving DecidableEq

namespace Change

variable {Unknown : Type}

def clear : Change Unknown where
  timestamp := none
  items := []
  unknownFields := []

def isInitialized (change : Change Unknown) : Bool :=
  change.timestamp.any TimeStamp.isInitialized && change.items.all Item.isInitialized

def mergeFrom (change source : Change Unknown) : Change Unknown where
  timestamp := source.timestamp.map (change.timestamp.getD .clear).mergeFrom <|> change.timestamp
  items := change.items ++ source.items
  unknownFields := change.unknownFields ++ source.unknownFields

def unknownMember : Member (Change Unknown) (List Unknown) where
  get := unknownFields
  put := fun change value => { change with unknownFields := value }

variable (stream : CodedStream Unknown) (expects : Bool)

def fields : List (WireField (Change Unknown)) :=
  [messageField stream (TimeStamp.messageType stream)
      (parseMessage stream (TimeStamp.messageType stream) expects) 1 .clear
      { get := timestamp, put := fun change value => { change with timestamp := value } },
    repeatedMessageField stream (Item.messageType stream)
      (parseMessage stream (Item.messageType stream) expects) 2 .clear
      { get := items, put := fun change value => { change with items := value } }]

def messageType : MessageType Unknown (Change Unknown) where
  fields := fields stream expects
  unknownFields := unknownMember
  numbered := numbered_of_range 2 rfl rfl (by decide)

/-- No case of the parser takes an unknown field, here or in a part. -/
structure Regular (change : Change Unknown) : Prop where
  timestamp : ∀ inner ∈ change.timestamp, inner.Regular stream
  items : ∀ inner ∈ change.items, inner.Regular stream
  unknownFields : ∀ unknown ∈ change.unknownFields,
    Uninterpreted stream (messageType stream expects) unknown

variable {stream expects}

theorem counted (documented : stream.Documented) :
    ∀ field ∈ (messageType stream expects).fields, field.Counted := by
  simp only [messageType, fields, List.forall_mem_cons]
  exact ⟨messageField_counted documented (TimeStamp.counted documented),
    repeatedMessageField_counted documented (Item.counted documented), nofun⟩

theorem readable (documented : stream.Documented) {change : Change Unknown}
    (regular : change.Regular stream expects) :
    Readable stream (messageType stream expects) change where
  reads := by
    simp only [messageType, fields, List.forall_mem_cons]
    exact ⟨messageField_reads documented (TimeStamp.counted documented)
          fun inner has => TimeStamp.readable documented (regular.timestamp inner has),
      repeatedMessageField_reads documented (Item.counted documented)
          fun inner has => Item.readable documented (regular.items inner has),
      nofun⟩
  uninterpreted := regular.unknownFields

theorem mergeFrom_eq (change source : Change Unknown) :
    WireFormat.mergeFrom (messageType stream expects) change source = change.mergeFrom source := by
  unfold WireFormat.mergeFrom messageType fields
  dsimp only
  rw [mergeFields_cons, mergeField_message, mergeFields_cons, mergeField_repeatedMessage Item.fills]
  rw [funext (TimeStamp.mergeFrom_eq _)]
  rfl

theorem clear_mergeFrom (source : Change Unknown) : clear.mergeFrom source = source := by
  have timeStampSame : (.clear : TimeStamp Unknown).mergeFrom = id :=
    funext TimeStamp.clear_mergeFrom
  obtain ⟨_, _, _⟩ := source
  simp [mergeFrom, clear, timeStampSame]

theorem fills (source : Change Unknown) :
    WireFormat.mergeFrom (messageType stream expects) clear source = source :=
  (mergeFrom_eq clear source).trans (clear_mergeFrom source)

end Change

structure ChangeList (Unknown : Type) where
  currentVersion : Option UInt64
  change : List (Change Unknown)
  unknownFields : List Unknown
  deriving DecidableEq

namespace ChangeList

variable {Unknown : Type}

def clear : ChangeList Unknown where
  currentVersion := none
  change := []
  unknownFields := []

def isInitialized (changes : ChangeList Unknown) : Bool :=
  changes.currentVersion.isSome && changes.change.all Change.isInitialized

def mergeFrom (changes source : ChangeList Unknown) : ChangeList Unknown where
  currentVersion := source.currentVersion <|> changes.currentVersion
  change := changes.change ++ source.change
  unknownFields := changes.unknownFields ++ source.unknownFields

def unknownMember : Member (ChangeList Unknown) (List Unknown) where
  get := unknownFields
  put := fun changes value => { changes with unknownFields := value }

variable (stream : CodedStream Unknown) (expects : Bool)

def fields : List (WireField (ChangeList Unknown)) :=
  [scalarField 1 stream.uint64
      { get := currentVersion,
        put := fun changes value => { changes with currentVersion := value } },
    repeatedMessageField stream (Change.messageType stream expects)
      (parseMessage stream (Change.messageType stream expects) expects) 2 .clear
      { get := change, put := fun changes value => { changes with change := value } }]

def messageType : MessageType Unknown (ChangeList Unknown) where
  fields := fields stream expects
  unknownFields := unknownMember
  numbered := numbered_of_range 2 rfl rfl (by decide)

/-- No case of the parser takes an unknown field, here or in a part. -/
structure Regular (changes : ChangeList Unknown) : Prop where
  change : ∀ inner ∈ changes.change, inner.Regular stream expects
  unknownFields : ∀ unknown ∈ changes.unknownFields,
    Uninterpreted stream (messageType stream expects) unknown

variable {stream expects}

theorem counted (documented : stream.Documented) :
    ∀ field ∈ (messageType stream expects).fields, field.Counted := by
  simp only [messageType, fields, List.forall_mem_cons]
  exact ⟨scalarField_counted documented.uint64,
    repeatedMessageField_counted documented (Change.counted documented), nofun⟩

theorem readable (documented : stream.Documented) {changes : ChangeList Unknown}
    (regular : changes.Regular stream expects) :
    Readable stream (messageType stream expects) changes where
  reads := by
    simp only [messageType, fields, List.forall_mem_cons]
    exact ⟨scalarField_reads documented.uint64,
      repeatedMessageField_reads documented (Change.counted documented)
          fun inner has => Change.readable documented (regular.change inner has),
      nofun⟩
  uninterpreted := regular.unknownFields

theorem mergeFrom_eq (changes source : ChangeList Unknown) :
    WireFormat.mergeFrom (messageType stream expects) changes source =
      changes.mergeFrom source := by
  unfold WireFormat.mergeFrom messageType fields
  dsimp only
  rw [mergeFields_cons, mergeField_scalar, mergeFields_cons,
    mergeField_repeatedMessage Change.fills]
  rfl

theorem clear_mergeFrom (source : ChangeList Unknown) : clear.mergeFrom source = source := by
  obtain ⟨_, _, _⟩ := source
  simp [mergeFrom, clear]

theorem fills (source : ChangeList Unknown) :
    WireFormat.mergeFrom (messageType stream expects) clear source = source :=
  (mergeFrom_eq clear source).trans (clear_mergeFrom source)

variable (stream)

def mergePartialFromCodedStream (changes : ChangeList Unknown) (input : Octets) :
    ChangeList Unknown × Status :=
  WireFormat.mergePartialFromCodedStream stream (messageType stream true) changes input

def parseFromString (data : Octets) : Bool × ChangeList Unknown :=
  WireFormat.parseFromString stream (messageType stream true) clear isInitialized data

def byteSize (changes : ChangeList Unknown) : Nat :=
  WireFormat.byteSize stream (messageType stream true) changes

def serializeAsString (changes : ChangeList Unknown) : Octets :=
  serialize stream (messageType stream true) changes

end ChangeList

/-! ## Names of graphs -/

structure GraphList (Unknown : Type) where
  name : List Octets
  unknownFields : List Unknown
  deriving DecidableEq

namespace GraphList

variable {Unknown : Type}

def clear : GraphList Unknown where
  name := []
  unknownFields := []

def isInitialized (_ : GraphList Unknown) : Bool :=
  true

def mergeFrom (graphs source : GraphList Unknown) : GraphList Unknown where
  name := graphs.name ++ source.name
  unknownFields := graphs.unknownFields ++ source.unknownFields

def unknownMember : Member (GraphList Unknown) (List Unknown) where
  get := unknownFields
  put := fun graphs value => { graphs with unknownFields := value }

variable (stream : CodedStream Unknown)

def fields : List (WireField (GraphList Unknown)) :=
  [repeatedStringField stream 1
      { get := name, put := fun graphs value => { graphs with name := value } }]

def messageType : MessageType Unknown (GraphList Unknown) where
  fields := fields stream
  unknownFields := unknownMember
  numbered := numbered_of_range 1 rfl rfl (by decide)

/-- No case of the parser takes an unknown field. -/
structure Regular (graphs : GraphList Unknown) : Prop where
  unknownFields : ∀ unknown ∈ graphs.unknownFields,
    Uninterpreted stream (messageType stream) unknown

variable {stream}

theorem counted (documented : stream.Documented) :
    ∀ field ∈ (messageType stream).fields, field.Counted := by
  simp only [messageType, fields, List.forall_mem_cons]
  exact ⟨repeatedStringField_counted documented, nofun⟩

theorem readable (documented : stream.Documented) {graphs : GraphList Unknown}
    (regular : graphs.Regular stream) :
    Readable stream (messageType stream) graphs where
  reads := by
    simp only [messageType, fields, List.forall_mem_cons]
    exact ⟨repeatedStringField_reads documented, nofun⟩
  uninterpreted := regular.unknownFields

theorem mergeFrom_eq (graphs source : GraphList Unknown) :
    WireFormat.mergeFrom (messageType stream) graphs source = graphs.mergeFrom source := by
  unfold WireFormat.mergeFrom messageType fields
  dsimp only
  rw [mergeFields_cons, mergeField_repeatedString]
  rfl

theorem clear_mergeFrom (source : GraphList Unknown) : clear.mergeFrom source = source := by
  obtain ⟨_, _⟩ := source
  simp [mergeFrom, clear]

theorem fills (source : GraphList Unknown) :
    WireFormat.mergeFrom (messageType stream) clear source = source :=
  (mergeFrom_eq clear source).trans (clear_mergeFrom source)

variable (stream)

def mergePartialFromCodedStream (graphs : GraphList Unknown) (input : Octets) :
    GraphList Unknown × Status :=
  WireFormat.mergePartialFromCodedStream stream (messageType stream) graphs input

def parseFromString (data : Octets) : Bool × GraphList Unknown :=
  WireFormat.parseFromString stream (messageType stream) clear isInitialized data

def byteSize (graphs : GraphList Unknown) : Nat :=
  WireFormat.byteSize stream (messageType stream) graphs

def serializeAsString (graphs : GraphList Unknown) : Octets :=
  serialize stream (messageType stream) graphs

end GraphList

end Rangexx.Proto
