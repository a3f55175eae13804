import Rangexx.Base128
import Rangexx.RecordProto
import Rangexx.StoreProto

/-!
# Messages that come back

The tags that the generated parsers expect make no difference to what they
return, and what is serialised of a message is parsed, in front of any input, as
the message itself.
-/

namespace Rangexx.Proto

open WireFormat
open WireFormat.Base128 (UnknownField)

variable {Unknown : Type} {stream : CodedStream Unknown}

/-! ## Expected tags -/

theorem Edges.messageType_eq (documented : stream.Documented) (expects : Bool) :
    Edges.messageType stream expects = Edges.messageType stream false := by
  unfold messageType fields
  simp only [parseMessage_eq documented]

theorem KeyValue.messageType_eq (documented : stream.Documented) (expects : Bool) :
    KeyValue.messageType stream expects = KeyValue.messageType stream false := by
  unfold messageType fields
  simp only [parseMessage_eq documented]

theorem Tags.messageType_eq (documented : stream.Documented) (expects : Bool) :
    Tags.messageType stream expects = Tags.messageType stream false := by
  unfold messageType fields
  simp only [parseMessage_eq documented, KeyValue.messageType_eq documented expects]

theorem NodeInfo.messageType_eq (documented : stream.Documented) (expects : Bool) :
    NodeInfo.messageType stream expects = NodeInfo.messageType stream false := by
  unfold messageType fields
  simp only [parseMessage_eq documented, Edges.messageType_eq documented expects,
    Tags.messageType_eq documented expects]

theorem Change.messageType_eq (documented : stream.Documented) (expects : Bool) :
    Change.messageType stream expects = Change.messageType stream false := by
  unfold messageType fields
  simp only [parseMessage_eq documented]

theorem ChangeList.messageType_eq (documented : stream.Documented) (expects : Bool) :
    ChangeList.messageType stream expects = ChangeList.messageType stream false := by
  unfold messageType fields
  simp only [parseMessage_eq documented, Change.messageType_eq documented expects]

/-- On every input, well formed or not, each generated parser returns what one
returns that reads a tag before every field, also of the messages inside. -/
theorem expected_tags_change_nothing (documented : stream.Documented) :
    (∀ request input, Request.mergePartialFromCodedStream stream request input =
      mergePlainly stream (Request.messageType stream) request input) ∧
    (∀ ack input, Ack.mergePartialFromCodedStream stream ack input =
      mergePlainly stream (Ack.messageType stream) ack input) ∧
    (∀ info input, NodeInfo.mergePartialFromCodedStream stream info input =
      mergePlainly stream (NodeInfo.messageType stream false) info input) ∧
    (∀ changes input, ChangeList.mergePartialFromCodedStream stream changes input =
      mergePlainly stream (ChangeList.messageType stream false) changes input) ∧
    ∀ graphs input, GraphList.mergePartialFromCodedStream stream graphs input =
      mergePlainly stream (GraphList.messageType stream) graphs input := by
  refine ⟨mergePartialFromCodedStream_eq_mergePlainly documented,
    mergePartialFromCodedStream_eq_mergePlainly documented, fun info input => ?_,
    fun changes input => ?_, mergePartialFromCodedStream_eq_mergePlainly documented⟩
  · rw [← NodeInfo.messageType_eq documented true]
    exact mergePartialFromCodedStream_eq_mergePlainly documented info input
  · rw [← ChangeList.messageType_eq documented true]
    exact mergePartialFromCodedStream_eq_mergePlainly documented changes input

/-- A record whose forward edges are cut off in the middle of a name. -/
theorem expected_tags_change_nothing_truncated :
    NodeInfo.mergePartialFromCodedStream base128 .clear [8, 1, 34, 4, 10, 2, 10, 3, 97] =
      mergePlainly base128 (NodeInfo.messageType base128 false) .clear
        [8, 1, 34, 4, 10, 2, 10, 3, 97] :=
  (expected_tags_change_nothing base128_documented).2.2.1 _ _

/-! ## Round trips -/

section RoundTrips

variable {M : Type} {type : MessageType Unknown M} {source : M}

variable (stream type) in
/-- The size of a serialised message is the one that was counted.  In front of
any input it is merged into the message that the parser has, and alone it is
parsed as the message that it is. -/
structure ComesBack (clear : M) (isInitialized : M → Bool) (merge : M → M → M) (source : M) :
    Prop where
  size : WireFormat.byteSize stream type source = (serialize stream type source).length
  merged (target : M) (rest : Octets) :
    WireFormat.mergePartialFromCodedStream stream type target
        (serialize stream type source ++ rest) =
      WireFormat.mergePartialFromCodedStream stream type (merge target source) rest
  parsed : WireFormat.parseFromString stream type clear isInitialized
    (serialize stream type source) = (isInitialized source, source)

theorem comesBack_of_readable (documented : stream.Documented)
    (counted : ∀ field ∈ type.fields, field.Counted) (readable : Readable stream type source)
    (fits : (serialize stream type source).length ≤ stream.limit) {clear : M}
    {isInitialized : M → Bool} {merge : M → M → M}
    (merges : ∀ target source, WireFormat.mergeFrom type target source = merge target source)
    (fills : WireFormat.mergeFrom type clear source = source) :
    ComesBack stream type clear isInitialized merge source where
  size := byteSize_eq_length documented counted source
  merged := by
    intro target rest
    rw [mergePartialFromCodedStream_append documented readable fits, merges]
  parsed := parseFromString_serialize documented readable fits fills isInitialized

end RoundTrips

theorem Request.comesBack (documented : stream.Documented) {request : Request Unknown}
    (regular : request.Regular stream)
    (fits : (request.serializeAsString stream).length ≤ stream.limit) :
    ComesBack stream (Request.messageType stream) .clear Request.isInitialized
      Request.mergeFrom request :=
  comesBack_of_readable documented (Request.counted documented)
    (Request.readable documented regular) fits Request.mergeFrom_eq (Request.fills request)

theorem NodeInfo.comesBack (documented : stream.Documented) {info : NodeInfo Unknown}
    (regular : info.Regular stream true)
    (fits : (info.serializeAsString stream).length ≤ stream.limit) :
    ComesBack stream (NodeInfo.messageType stream true) .clear NodeInfo.isInitialized
      NodeInfo.mergeFrom info :=
  comesBack_of_readable documented (NodeInfo.counted documented)
    (NodeInfo.readable documented regular) fits NodeInfo.mergeFrom_eq (NodeInfo.fills info)

/-- The messages between processes come back as they were serialised. -/
theorem store_messages_come_back (documented : stream.Documented) :
    (∀ request : Request Unknown, request.Regular stream →
      (request.serializeAsString stream).length ≤ stream.limit →
        ComesBack stream (Request.messageType stream) .clear Request.isInitialized
          Request.mergeFrom request) ∧
    ∀ ack : Ack Unknown, ack.Regular stream →
      (ack.serializeAsString stream).length ≤ stream.limit →
        ComesBack stream (Ack.messageType stream) .clear Ack.isInitialized Ack.mergeFrom ack := by
  constructor
  · intro request regular fits
    exact Request.comesBack documented regular fits
  · intro ack regular fits
    exact comesBack_of_readable documented (Ack.counted documented)
      (Ack.readable documented regular) fits Ack.mergeFrom_eq (Ack.fills ack)

/-- A field that is unknown to this version. -/
def newerField : UnknownField :=
  ⟨14, by decide, .inr [1, 2]⟩

theorem uninterpreted_newerField {M : Type} {type : MessageType UnknownField M}
    (numbers : ∀ field ∈ type.fields, field.number ≠ 14) :
    ∀ unknown ∈ [newerField], Uninterpreted base128 type unknown := by
  intro unknown member field among same
  obtain rfl := List.mem_singleton.mp member
  exact absurd same (numbers field among)

def newerRequest : Request UnknownField where
  crc := some 300
  clientId := some [104, 49]
  requestId := some 7
  method := some [120]
  args := [[101], []]
  timestamp := none
  type := some .failover
  proposalNum := some 0
  proposerId := none
  senderAddr := none
  senderPort := some 5444
  version := none
  sequenceNum := none
  unknownFields := [newerField]

theorem newerRequest_regular : newerRequest.Regular base128 where
  unknownFields := by
    apply uninterpreted_newerField
    simp only [Request.messageType, Request.fields, List.forall_mem_cons]
    exact ⟨by decide, by decide, by decide, by decide, by decide, by decide, by decide,
      by decide, by decide, by decide, by decide, by decide, by decide, List.forall_mem_nil _⟩

theorem newerRequest_comes_back :
    ComesBack base128 (Request.messageType base128) .clear Request.isInitialized
      Request.mergeFrom newerRequest :=
  (store_messages_come_back base128_documented).1 newerRequest newerRequest_regular (by decide)

/-- The records of the database come back as they were serialised. -/
theorem stored_records_come_back (documented : stream.Documented) :
    (∀ info : NodeInfo Unknown, info.Regular stream true →
      (info.serializeAsString stream).length ≤ stream.limit →
        ComesBack stream (NodeInfo.messageType stream true) .clear NodeInfo.isInitialized
          NodeInfo.mergeFrom info) ∧
    (∀ changes : ChangeList Unknown, changes.Regular stream true →
      (changes.serializeAsString stream).length ≤ stream.limit →
        ComesBack stream (ChangeList.messageType stream true) .clear ChangeList.isInitialized
          ChangeList.mergeFrom changes) ∧
    ∀ graphs : GraphList Unknown, graphs.Regular stream →
      (graphs.serializeAsString stream).length ≤ stream.limit →
        ComesBack stream (GraphList.messageType stream) .clear GraphList.isInitialized
          GraphList.mergeFrom graphs := by
  refine ⟨fun info regular fits => ?_, fun changes regular fits => ?_,
    fun graphs regular fits => ?_⟩
  · exact NodeInfo.comesBack documented regular fits
  · exact comesBack_of_readable documented (ChangeList.counted documented)
      (ChangeList.readable documented regular) fits ChangeList.mergeFrom_eq
      (ChangeList.fills changes)
  · exact comesBack_of_readable documented (GraphList.counted documented)
      (GraphList.readable documented regular) fits GraphList.mergeFrom_eq (GraphList.fills graphs)

/-- A cluster with a tag and a child, which has a field that is unknown to this
version. -/
def newerRecord : NodeInfo UnknownField where
  listVersion := some 2
  crc32 := some 300
  nodeType := some 2
  forward := some ⟨[⟨some [104, 49], [1, 300], [newerField]⟩], []⟩
  reverse := some ⟨[], []⟩
  tags := some ⟨[
    { key := some [111, 115]
      keyVersion := some 1
      values := [⟨some [108], [0, 1], []⟩, ⟨some [], [1], []⟩]
      versions := [2]
      versionmap := [⟨some 2, some 1, []⟩]
      unknownFields := [] }], []⟩
  graphVersions := [1, 2, 300]
  unknownFields := []

theorem newerRecord_regular : newerRecord.Regular base128 true where
  forward := by
    rintro inner ⟨⟩
    refine ⟨List.forall_mem_singleton.mpr ⟨?_⟩, List.forall_mem_nil _⟩
    apply uninterpreted_newerField
    simp only [Adjacency.messageType, Adjacency.fields, List.forall_mem_cons]
    exact ⟨by decide, by decide, List.forall_mem_nil _⟩
  reverse := by
    rintro inner ⟨⟩
    exact ⟨List.forall_mem_nil _, List.forall_mem_nil _⟩
  tags := by
    rintro inner ⟨⟩
    refine ⟨List.forall_mem_singleton.mpr ⟨?_, ?_, List.forall_mem_nil _⟩, List.forall_mem_nil _⟩
    · exact List.forall_mem_cons.mpr
        ⟨⟨List.forall_mem_nil _⟩, List.forall_mem_singleton.mpr ⟨List.forall_mem_nil _⟩⟩
    · exact List.forall_mem_singleton.mpr ⟨List.forall_mem_nil _⟩
  unknownFields := List.forall_mem_nil _

/-- The changes of two versions, the second with a field of a newer one. -/
def newerChanges : ChangeList UnknownField where
  currentVersion := some 2
  change := [
    ⟨some ⟨some 1400000000, some 7, []⟩, [⟨some [112], some 1, []⟩, ⟨some [], some 2, []⟩], []⟩,
    ⟨some ⟨some 1400000300, some 0, []⟩, [], [newerField]⟩]
  unknownFields := []

theorem newerChanges_regular : newerChanges.Regular base128 true where
  change := by
    refine List.forall_mem_cons.mpr ⟨⟨?_, ?_, List.forall_mem_nil _⟩,
      List.forall_mem_singleton.mpr ⟨?_, List.forall_mem_nil _, ?_⟩⟩
    · rintro inner ⟨⟩
      exact ⟨List.forall_mem_nil _⟩
    · exact List.forall_mem_cons.mpr
        ⟨⟨List.forall_mem_nil _⟩, List.forall_mem_singleton.mpr ⟨List.forall_mem_nil _⟩⟩
    · rintro inner ⟨⟩
      exact ⟨List.forall_mem_nil _⟩
    · apply uninterpreted_newerField
      simp only [Change.messageType, Change.fields, List.forall_mem_cons]
      exact ⟨by decide, by decide, List.forall_mem_nil _⟩
  unknownFields := List.forall_mem_nil _

theorem newerRecords_come_back :
    ComesBack base128 (NodeInfo.messageType base128 true) .clear NodeInfo.isInitialized
        NodeInfo.mergeFrom newerRecord ∧
      ComesBack base128 (ChangeList.messageType base128 true) .clear ChangeList.isInitialized
        ChangeList.mergeFrom newerChanges ∧
      ComesBack base128 (GraphList.messageType base128) .clear GraphList.isInitialized
        GraphList.mergeFrom ⟨[[112], [100, 101]], []⟩ :=
  ⟨(stored_records_come_back base128_documented).1 newerRecord newerRecord_regular (by decide),
    (stored_records_come_back base128_documented).2.1 newerChanges newerChanges_regular
      (by decide),
    (stored_records_come_back base128_documented).2.2 ⟨[[112], [100, 101]], []⟩ ⟨nofun⟩
      (by decide)⟩

end Rangexx.Proto
