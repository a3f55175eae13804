import Rangexx.FieldKinds
import Rangexx.StoredMessages

/-!
# The messages of `store.proto`

`stored::Request` and `stored::Ack` as `store.pb.cpp` has them, with the fields
that are there or not, those that it does not know, and the bytes that strings
are.
-/

namespace Rangexx.Proto

open WireFormat
open Paxos (RequestType AckType)

/-! ## Enumerations -/

/-- The number of a `Request_Type`. -/
def requestTypeNumber : RequestType → Int32
  | .request => 1
  | .prepare => 2
  | .propose => 4
  | .learn => 8
  | .replay => 16
  | .failover => 32
  | .heartbeat => 64

/-- `Request_Type_IsValid`, with the value. -/
def requestTypeOf (value : Int32) : Option RequestType :=
  [RequestType.request, .prepare, .propose, .learn, .replay, .failover, .heartbeat].find?
    fun type => requestTypeNumber type == value

theorem requestTypeOf_number (type : RequestType) :
    requestTypeOf (requestTypeNumber type) = some type := by
  cases type <;> rfl

/-- The number of an `Ack_Type`. -/
def ackTypeNumber : AckType → Int32
  | .ack => 1
  | .promise => 2
  | .nack => 4
  | .accepted => 8

/-- `Ack_Type_IsValid`, with the value. -/
def ackTypeOf (value : Int32) : Option AckType :=
  [AckType.ack, .promise, .nack, .accepted].find? fun type => ackTypeNumber type == value

theorem ackTypeOf_number (type : AckType) : ackTypeOf (ackTypeNumber type) = some type := by
  cases type <;> rfl

/-! ## Requests -/

structure Request (Unknown : Type) where
  crc : Option UInt32
  clientId : Option Octets
  requestId : Option UInt64
  method : Option Octets
  args : List Octets
  timestamp : Option UInt64
  type : Option RequestType
  proposalNum : Option UInt64
  proposerId : Option UInt64
  senderAddr : Option UInt32
  senderPort : Option UInt32
  version : Option UInt64
  sequenceNum : Option UInt64
  unknownFields : List Unknown
  deriving DecidableEq

namespace Request

variable {Unknown : Type}

def clear : Request Unknown where
  crc := none
  clientId := none
  requestId := none
  method := none
  args := []
  timestamp := none
  type := none
  proposalNum := none
  proposerId := none
  senderAddr := none
  senderPort := none
  version := none
  sequenceNum := none
  unknownFields := []

def isInitialized (request : Request Unknown) : Bool :=
  request.crc.isSome && request.clientId.isSome && request.requestId.isSome &&
    request.method.isSome

def mergeFrom (request source : Request Unknown) : Request Unknown where
  crc := source.crc <|> request.crc
  clientId := source.clientId <|> request.clientId
  requestId := source.requestId <|> request.requestId
  method := source.method <|> request.method
  args := request.args ++ source.args
  timestamp := source.timestamp <|> request.timestamp
  type := source.type <|> request.type
  proposalNum := source.proposalNum <|> request.proposalNum
  proposerId := source.proposerId <|> request.proposerId
  senderAddr := source.senderAddr <|> request.senderAddr
  senderPort := source.senderPort <|> request.senderPort
  version := source.version <|> request.version
  sequenceNum := source.sequenceNum <|> request.sequenceNum
  unknownFields := request.unknownFields ++ source.unknownFields

def unknownMember : Member (Request Unknown) (List Unknown) where
  get := unknownFields
  put := fun request value => { request with unknownFields := value }

variable (stream : CodedStream Unknown)

def fields : List (WireField (Request Unknown)) :=
  [scalarField 1 stream.uint32
      { get := crc, put := fun request value => { request with crc := value } },
    stringField stream 2
      { get := clientId, put := fun request value => { request with clientId := value } },
    scalarField 3 stream.uint64
      { get := requestId, put := fun request value => { request with requestId := value } },
    stringField stream 4
      { get := method, put := fun request value => { request with method := value } },
    repeatedStringField stream 5
      { get := args, put := fun request value => { request with args := value } },
    scalarField 6 stream.uint64
      { get := timestamp, put := fun request value => { request with timestamp := value } },
    enumField stream 7 requestTypeOf requestTypeNumber unknownMember
      { get := type, put := fun request value => { request with type := value } },
    scalarField 8 stream.uint64
      { get := proposalNum, put := fun request value => { request with proposalNum := value } },
    scalarField 9 stream.uint64
      { get := proposerId, put := fun request value => { request with proposerId := value } },
    scalarField 10 stream.uint32
      { get := senderAddr, put := fun request value => { request with senderAddr := value } },
    scalarField 11 stream.uint32
      { get := senderPort, put := fun request value => { request with senderPort := value } },
    scalarField 12 stream.uint64
      { get := version, put := fun request value => { request with version := value } },
    scalarField 13 stream.uint64
      { get := sequenceNum, put := fun request value => { request with sequenceNum := value } }]

def messageType : MessageType Unknown (Request Unknown) where
  fields := fields stream
  unknownFields := unknownMember
  numbered := numbered_of_range 13 rfl rfl (by decide)

/-- No case of the parser takes an unknown field. -/
structure Regular (request : Request Unknown) : Prop where
  unknownFields : ∀ unknown ∈ request.unknownFields,
    Uninterpreted stream (messageType stream) unknown

variable {stream}

theorem counted (documented : stream.Documented) :
    ∀ field ∈ (messageType stream).fields, field.Counted := by
  simp only [messageType, fields, List.forall_mem_cons]
  exact ⟨scalarField_counted documented.uint32, stringField_counted documented,
    scalarField_counted documented.uint64, stringField_counted documented,
    repeatedStringField_counted documented, scalarField_counted documented.uint64,
    enumField_counted documented, scalarField_counted documented.uint64,
    scalarField_counted documented.uint64, scalarField_counted documented.uint32,
    scalarField_counted documented.uint32, scalarField_counted documented.uint64,
    scalarField_counted documented.uint64, nofun⟩

theorem readable (documented : stream.Documented) {request : Request Unknown}
    (regular : request.Regular stream) :
    Readable stream (messageType stream) request where
  reads := by
    simp only [messageType, fields, List.forall_mem_cons]
    exact ⟨scalarField_reads documented.uint32, stringField_reads documented,
      scalarField_reads documented.uint64, stringField_reads documented,
      repeatedStringField_reads documented, scalarField_reads documented.uint64,
      enumField_reads documented requestTypeOf_number, scalarField_reads documented.uint64,
      scalarField_reads documented.uint64, scalarField_reads documented.uint32,
      scalarField_reads documented.uint32, scalarField_reads documented.uint64,
      scalarField_reads documented.uint64, nofun⟩
  uninterpreted := regular.unknownFields

theorem mergeFrom_eq (request source : Request Unknown) :
    WireFormat.mergeFrom (messageType stream) request source = request.mergeFrom source := by
  unfold WireFormat.mergeFrom messageType fields
  dsimp only
  rw [mergeFields_cons, mergeField_scalar, mergeFields_cons, mergeField_string, mergeFields_cons,
    mergeField_scalar, mergeFields_cons, mergeField_string, mergeFields_cons,
    mergeField_repeatedString, mergeFields_cons, mergeField_scalar, mergeFields_cons,
    mergeField_enum, mergeFields_cons, mergeField_scalar, mergeFields_cons, mergeField_scalar,
    mergeFields_cons, mergeField_scalar, mergeFields_cons, mergeField_scalar, mergeFields_cons,
    mergeField_scalar, mergeFields_cons, mergeField_scalar]
  rfl

theorem clear_mergeFrom (source : Request Unknown) : clear.mergeFrom source = source := by
  obtain ⟨_, _, _, _, _, _, _, _, _, _, _, _, _, _⟩ := source
  simp [mergeFrom, clear]

theorem fills (source : Request Unknown) :
    WireFormat.mergeFrom (messageType stream) clear source = source :=
  (mergeFrom_eq clear source).trans (clear_mergeFrom source)

variable (stream)

def mergePartialFromCodedStream (request : Request Unknown) (input : Octets) :
    Request Unknown × Status :=
  WireFormat.mergePartialFromCodedStream stream (messageType stream) request input

def parseFromString (data : Octets) : Bool × Request Unknown :=
  WireFormat.parseFromString stream (messageType stream) clear isInitialized data

def byteSize (request : Request Unknown) : Nat :=
  WireFormat.byteSize stream (messageType stream) request

def serializeAsString (request : Request Unknown) : Octets :=
  serialize stream (messageType stream) request

end Request

/-! ## Acknowledgements -/

structure Ack (Unknown : Type) where
  status : Option Bool
  clientId : Option Octets
  requestId : Option UInt64
  code : Option UInt32
  reason : Option Octets
  type : Option AckType
  proposalNum : Option UInt64
  proposerId : Option UInt64
  nextProposalNum : Option UInt64
  sequenceNum : Option UInt64
  unknownFields : List Unknown
  deriving DecidableEq

namespace Ack

variable {Unknown : Type}

def clear : Ack Unknown where
  status := none
  clientId := none
  requestId := none
  code := none
  reason := none
  type := none
  proposalNum := none
  proposerId := none
  nextProposalNum := none
  sequenceNum := none
  unknownFields := []

def isInitialized (ack : Ack Unknown) : Bool :=
  ack.status.isSome && ack.clientId.isSome && ack.requestId.isSome

def mergeFrom (ack source : Ack Unknown) : Ack Unknown where
  status := source.status <|> ack.status
  clientId := source.clientId <|> ack.clientId
  requestId := source.requestId <|> ack.requestId
  code := source.code <|> ack.code
  reason := source.reason <|> ack.reason
  type := source.type <|> ack.type
  proposalNum := source.proposalNum <|> ack.proposalNum
  proposerId := source.proposerId <|> ack.proposerId
  nextProposalNum := source.nextProposalNum <|> ack.nextProposalNum
  sequenceNum := source.sequenceNum <|> ack.sequenceNum
  unknownFields := ack.unknownFields ++ source.unknownFields

def unknownMember : Member (Ack Unknown) (List Unknown) where
  get := unknownFields
  put := fun ack value => { ack with unknownFields := value }

variable (stream : CodedStream Unknown)

def fields : List (WireField (Ack Unknown)) :=
  [scalarField 1 stream.bool
      { get := status, put := fun ack value => { ack with status := value } },
    stringField stream 2
      { get := clientId, put := fun ack value => { ack with clientId := value } },
    scalarField 3 stream.uint64
      { get := requestId, put := fun ack value => { ack with requestId := value } },
    scalarField 4 stream.uint32 { get := code, put := fun ack value => { ack with code := value } },
    stringField stream 5 { get := reason, put := fun ack value => { ack with reason := value } },
    enumField stream 6 ackTypeOf ackTypeNumber unknownMember
      { get := type, put := fun ack value => { ack with type := value } },
    scalarField 7 stream.uint64
      { get := proposalNum, put := fun ack value => { ack with proposalNum := value } },
    scalarField 8 stream.uint64
      { get := proposerId, put := fun ack value => { ack with proposerId := value } },
    scalarField 9 stream.uint64
      { get := nextProposalNum, put := fun ack value => { ack with nextProposalNum := value } },
    scalarField 10 stream.uint64
      { get := sequenceNum, put := fun ack value => { ack with sequenceNum := value } }]

def messageType : MessageType Unknown (Ack Unknown) where
  fields := fields stream
  unknownFields := unknownMember
  numbered := numbered_of_range 10 rfl rfl (by decide)

/-- No case of the parser takes an unknown field. -/
structure Regular (ack : Ack Unknown) : Prop where
  unknownFields : ∀ unknown ∈ ack.unknownFields,
    Uninterpreted stream (messageType stream) unknown

variable {stream}

theorem counted (documented : stream.Documented) :
    ∀ field ∈ (messageType stream).fields, field.Counted := by
  simp only [messageType, fields, List.forall_mem_cons]
  exact ⟨scalarField_counted documented.bool, stringField_counted documented,
    scalarField_counted documented.uint64, scalarField_counted documented.uint32,
    stringField_counted documented, enumField_counted documented,
    scalarField_counted documented.uint64, scalarField_counted documented.uint64,
    scalarField_counted documented.uint64, scalarField_counted documented.uint64, nofun⟩

theorem readable (documented : stream.Documented) {ack : Ack Unknown}
    (regular : ack.Regular stream) :
    Readable stream (messageType stream) ack where
  reads := by
    simp only [messageType, fields, List.forall_mem_cons]
    exact ⟨scalarField_reads documented.bool, stringField_reads documented,
      scalarField_reads documented.uint64, scalarField_reads documented.uint32,
      stringField_reads documented, enumField_reads documented ackTypeOf_number,
      scalarField_reads documented.uint64, scalarField_reads documented.uint64,
      scalarField_reads documented.uint64, scalarField_reads documented.uint64, nofun⟩
  uninterpreted := regular.unknownFields

theorem mergeFrom_eq (ack source : Ack Unknown) :
    WireFormat.mergeFrom (messageType stream) ack source = ack.mergeFrom source := by
  unfold WireFormat.mergeFrom messageType fields
  dsimp only
  rw [mergeFields_cons, mergeField_scalar, mergeFields_cons, mergeField_string, mergeFields_cons,
    mergeField_scalar, mergeFields_cons, mergeField_scalar, mergeFields_cons, mergeField_string,
    mergeFields_cons, mergeField_enum, mergeFields_cons, mergeField_scalar, mergeFields_cons,
    mergeField_scalar, mergeFields_cons, mergeField_scalar, mergeFields_cons, mergeField_scalar]
  rfl

theorem clear_mergeFrom (source : Ack Unknown) : clear.mergeFrom source = source := by
  obtain ⟨_, _, _, _, _, _, _, _, _, _, _⟩ := source
  simp [mergeFrom, clear]

theorem fills (source : Ack Unknown) :
    WireFormat.mergeFrom (messageType stream) clear source = source :=
  (mergeFrom_eq clear source).trans (clear_mergeFrom source)

variable (stream)

def mergePartialFromCodedStream (ack : Ack Unknown) (input : Octets) :
    Ack Unknown × Status :=
  WireFormat.mergePartialFromCodedStream stream (messageType stream) ack input

def parseFromString (data : Octets) : Bool × Ack Unknown :=
  WireFormat.parseFromString stream (messageType stream) clear isInitialized data

def byteSize (ack : Ack Unknown) : Nat :=
  WireFormat.byteSize stream (messageType stream) ack

def serializeAsString (ack : Ack Unknown) : Octets :=
  serialize stream (messageType stream) ack

end Ack

end Rangexx.Proto
