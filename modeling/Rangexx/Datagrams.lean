import Rangexx.MessageQueue
import Rangexx.ProtoRoundTrips
import Rangexx.StoredWrites

/-!
# From a thread to the proposers, in bytes

A write request goes through the queue of the daemon in frames, is parsed there
and serialised again, and goes to the proposers in a datagram, of which the
listener takes the checksum.  None of this changes the request.
-/

namespace Rangexx.Proto

open MessageQueue (Byte RoundTrip)
open WireFormat
open WireFormat.Base128 (UnknownField)

variable {Unknown : Type} (stream : CodedStream Unknown)

namespace Request

/-- The end of `req` of a `WriteRequest`: the checksum of the request with none. -/
def withCrc32 (request : Request Unknown) : Request Unknown :=
  let request := { request with crc := some 0 }
  { request with crc := some (Paxos.crc32 (request.serializeAsString stream)) }

/-- `verify_request`. -/
def verifyRequest (request : Request Unknown) : Bool :=
  request.method.getD [] = octets "none" ||
    (WriteMethod.all.find? fun method => octets method.name = request.method.getD []).any
      fun method => request.args.length = method.numArguments

end Request

/-- `RequestQueueListener::receive`, from the message that the queue gave. -/
def receiveRequest (msg : List Byte) : Option (Request Unknown) :=
  let data := msg.map Byte.value
  if 0 < data.length then
    let (parsed, req) := Request.parseFromString stream data
    if parsed && req.verifyRequest then some req else none
  else none

/-! ## The listener -/

structure Endpoint where
  address : UInt32
  port : UInt32
  deriving DecidableEq, Repr

/-- How `async_receive_from` ends. -/
inductive Outcome where
  | failed (value : UInt32) (message : Octets)
  | received (data : Octets)

/-- `sizeof(buf_)`. -/
def bufferSize : Nat := 65508

/-- `validate_msg`. -/
def validateMsg (outcome : Outcome) : Ack Unknown × Request Unknown :=
  let ack : Ack Unknown := { Ack.clear with
    status := some true
    code := some 0
    reason := some []
    requestId := some 0xFFFFFFFFFFFFFFFF
    clientId := some [] }
  let (ack, msg) : Ack Unknown × Request Unknown :=
    match outcome with
    | .failed value message =>
        ({ ack with status := some true, code := some value, reason := some message },
          Request.clear)
    | .received data =>
        let msg := (Request.parseFromString stream (data.take bufferSize)).2
        if !msg.isInitialized then
          ({ ack with
            status := some false
            code := some (-1)
            reason := some (octets "Unable to parse datagram") }, msg)
        else
          let crc := msg.crc.getD 0
          let msg := { msg with crc := some 0 }
          if crc ≠ Paxos.crc32 (msg.serializeAsString stream) then
            ({ ack with
              status := some false
              code := some (-2)
              reason := some (octets "Invalid CRC") }, msg)
          else (ack, msg)
  ({ ack with
    requestId := some (msg.requestId.getD 0)
    clientId := some (msg.clientId.getD []) }, msg)

/-- What `receive_handler` does with a message. -/
inductive Reception (Unknown : Type) where
  | reply (ack : Ack Unknown)
  | submit (msg : Request Unknown)
  | ignored

/-- `receive_handler`, while the server is not shut down. -/
def receiveHandler (endpoint : Endpoint) (outcome : Outcome) : Reception Unknown :=
  let (ack, msg) := validateMsg stream outcome
  if msg.type.getD .request = .heartbeat then .reply ack
  else if ack.status.getD false then
    .submit { msg with senderAddr := some endpoint.address, senderPort := some endpoint.port }
  else .ignored

/-! ## The way of a request -/

variable {stream} {request : Request Unknown}

variable (stream) in
/-- The bytes of a request with its checksum. -/
def Request.sealedBytes (request : Request Unknown) : Octets :=
  (request.withCrc32 stream).serializeAsString stream

variable (stream) in
/-- A request that a thread can send: it passes `verify_request`, its frames fit
the buffer of the queue, and its bytes a datagram. -/
structure Sendable (request : Request Unknown) : Prop where
  regular : request.Regular stream
  initialized : request.clientId.isSome && request.requestId.isSome && request.method.isSome
  verified : request.verifyRequest = true
  frames : ¬ MessageQueue.Overflows (request.sealedBytes stream).length
  datagram : (request.sealedBytes stream).length < bufferSize
  limit : (request.sealedBytes stream).length ≤ stream.limit

theorem parseFromString_sealed (documented : stream.Documented) (regular : request.Regular stream)
    (initialized : request.clientId.isSome && request.requestId.isSome && request.method.isSome)
    (limit : (request.sealedBytes stream).length ≤ stream.limit) :
    Request.parseFromString stream (request.sealedBytes stream) =
      (true, request.withCrc32 stream) := by
  have sealedRegular : (request.withCrc32 stream).Regular stream := ⟨regular.unknownFields⟩
  have comesBack := Request.comesBack documented sealedRegular limit
  have isInitialized : (request.withCrc32 stream).isInitialized = true := by
    simpa [Request.isInitialized, Request.withCrc32] using initialized
  exact comesBack.parsed.trans (by rw [isInitialized])

theorem sealedBytes_pos (documented : stream.Documented) (sendable : Sendable stream request) :
    0 < (request.sealedBytes stream).length := by
  have parsed := parseFromString_sealed documented sendable.regular sendable.initialized
    sendable.limit
  rw [List.length_pos_iff]
  intro empty
  rw [empty] at parsed
  unfold Request.parseFromString WireFormat.parseFromString at parsed
  rw [mergePartialFromCodedStream_nil documented] at parsed
  exact absurd (Prod.mk.inj parsed).1 (by simp [Request.isInitialized, Request.clear])

/-- The daemon takes the request from its queue as it was sent. -/
theorem receiveRequest_sealed (documented : stream.Documented)
    (sendable : Sendable stream request) :
    receiveRequest stream ((request.sealedBytes stream).map Byte.plain) =
      some (request.withCrc32 stream) := by
  have values : ((request.sealedBytes stream).map Byte.plain).map Byte.value =
      request.sealedBytes stream := by
    rw [List.map_map]
    exact List.map_id _
  have verified : (request.withCrc32 stream).verifyRequest = true := sendable.verified
  unfold receiveRequest
  dsimp only
  rw [values, if_pos (sealedBytes_pos documented sendable),
    parseFromString_sealed documented sendable.regular sendable.initialized sendable.limit]
  simp [verified]

/-- The acknowledgement of a datagram that passes every check. -/
def passed (request : Request Unknown) : Ack Unknown :=
  { Ack.clear with
    status := some true
    code := some 0
    reason := some []
    requestId := some (request.requestId.getD 0)
    clientId := some (request.clientId.getD []) }

theorem validateMsg_sealed (documented : stream.Documented) (sendable : Sendable stream request) :
    validateMsg stream (.received (request.sealedBytes stream)) =
      (passed request, { request with crc := some 0 }) := by
  have whole : (request.sealedBytes stream).take bufferSize = request.sealedBytes stream :=
    List.take_of_length_le sendable.datagram.le
  have initialized : (request.withCrc32 stream).isInitialized = true := by
    simpa [Request.isInitialized, Request.withCrc32] using sendable.initialized
  unfold validateMsg
  dsimp only
  rw [whole, parseFromString_sealed documented sendable.regular sendable.initialized
    sendable.limit, initialized]
  simp [Request.withCrc32, passed]

/-- What a listener does with a request that passes every check. -/
def admitted (request : Request Unknown) (endpoint : Endpoint) : Reception Unknown :=
  if request.type = some .heartbeat then .reply (passed request)
  else .submit { request with
    crc := some 0
    senderAddr := some endpoint.address
    senderPort := some endpoint.port }

theorem receiveHandler_sealed (documented : stream.Documented)
    (sendable : Sendable stream request) (endpoint : Endpoint) :
    receiveHandler stream endpoint (.received (request.sealedBytes stream)) =
      admitted request endpoint := by
  have typed : request.type.getD .request = .heartbeat ↔ request.type = some .heartbeat := by
    cases request.type with
    | none => decide
    | some type => exact ⟨congrArg some, Option.some.inj⟩
  unfold receiveHandler admitted
  rw [validateMsg_sealed documented sendable]
  dsimp only
  by_cases isBeat : request.type = some .heartbeat
  · rw [if_pos (typed.mpr isBeat), if_pos isBeat]
  · rw [if_neg (mt typed.mp isBeat), if_neg isBeat]
    rfl

/-- Requests that threads put into the queue of the daemon, one after the other,
come out of it in the same order, and each is parsed as it was sealed.  What the
daemon sends for one of them is submitted by every listener it reaches, with
the checksum cleared, the sender noted and everything else as the thread has
set it; a heartbeat is acknowledged. -/
theorem requests_reach_proposers (documented : stream.Documented)
    {requests : List (Request Unknown)}
    (sendable : ∀ request ∈ requests, Sendable stream request) :
    RoundTrip (requests.map fun request => (request.sealedBytes stream).map Byte.plain) ∧
      ∀ request ∈ requests,
        receiveRequest stream ((request.sealedBytes stream).map Byte.plain) =
          some (request.withCrc32 stream) ∧
        ∀ endpoint,
          receiveHandler stream endpoint
              (.received ((request.withCrc32 stream).serializeAsString stream)) =
            admitted request endpoint := by
  constructor
  · apply MessageQueue.roundTrip_of_fits
    · intro msg member
      obtain ⟨request, among, rfl⟩ := List.mem_map.mp member
      have positive := sealedBytes_pos documented (sendable request among)
      have small := (sendable request among).datagram
      rw [List.length_map]
      unfold bufferSize at small
      omega
    · intro msg member
      obtain ⟨request, among, rfl⟩ := List.mem_map.mp member
      rw [List.length_map]
      exact (sendable request among).frames
  · intro request among
    exact ⟨receiveRequest_sealed documented (sendable request among), fun endpoint =>
      receiveHandler_sealed documented (sendable request among) endpoint⟩

/-- A request to add the host `h`. -/
def hostRequest : Request UnknownField :=
  { Request.clear with
    clientId := some (octets "a|1")
    requestId := some 0
    method := some (octets "add_host")
    args := [octets "h"]
    type := some .request }

/-- A request of a newer version that gives a cluster a tag of no value. -/
def tagRequest : Request UnknownField :=
  { (Request.clear : Request UnknownField) with
    clientId := some (octets "b|7")
    requestId := some 300
    method := some (octets "add_node_key_value")
    args := [octets "e", octets "c", octets "os", []]
    type := some .request
    unknownFields := [newerField] }

def heartbeat : Request UnknownField :=
  { Request.clear with
    clientId := some (octets "c|2")
    requestId := some 1
    method := some (octets "none")
    type := some .heartbeat }

/-- A request that fits one frame fits a datagram as well. -/
theorem sendable_of_short {request : Request UnknownField} (regular : request.Regular base128)
    (initialized : request.clientId.isSome && request.requestId.isSome && request.method.isSome)
    (verified : request.verifyRequest = true)
    (short : (request.sealedBytes base128).length ≤ MessageQueue.bufsize) :
    Sendable base128 request where
  regular := regular
  initialized := initialized
  verified := verified
  frames := fun overflows => Nat.not_lt_of_le short overflows.1
  datagram := Nat.lt_of_le_of_lt short (by decide)
  limit := Nat.le_trans short (by decide)

theorem hostRequest_sendable : Sendable base128 hostRequest :=
  sendable_of_short ⟨List.forall_mem_nil _⟩ rfl (by decide +kernel) (by decide +kernel)

theorem tagRequest_sendable : Sendable base128 tagRequest :=
  sendable_of_short ⟨newerRequest_regular.unknownFields⟩ rfl (by decide +kernel)
    (by decide +kernel)

theorem heartbeat_sendable : Sendable base128 heartbeat :=
  sendable_of_short ⟨List.forall_mem_nil _⟩ rfl (by decide +kernel) (by decide +kernel)

theorem three_reach_proposers :
    RoundTrip ([hostRequest, heartbeat, tagRequest].map fun request =>
        (request.sealedBytes base128).map Byte.plain) ∧
      ∀ request ∈ [hostRequest, heartbeat, tagRequest],
        receiveRequest base128 ((request.sealedBytes base128).map Byte.plain) =
          some (request.withCrc32 base128) ∧
        ∀ endpoint,
          receiveHandler base128 endpoint
              (.received ((request.withCrc32 base128).serializeAsString base128)) =
            admitted request endpoint :=
  requests_reach_proposers base128_documented (List.forall_mem_cons.mpr ⟨hostRequest_sendable,
    List.forall_mem_cons.mpr ⟨heartbeat_sendable, List.forall_mem_singleton.mpr
      tagRequest_sendable⟩⟩)

end Rangexx.Proto
