import Rangexx.StoredMessages

/-!
# From datagrams to the Paxos queues

`ListenServer::receive_handler` and `paxos::submit`, for whatever the receive
leaves.  Parsing and serialising belong to protobuf; a parse can fail and still
leave every required field set.
-/

namespace Rangexx.Paxos.ListenServer

/-- What `ParseFromString` returns, and the message it leaves. -/
structure Parsing where
  succeeded : Bool
  msg : Request
  isInitialized : Bool

structure Protobuf where
  parseFromString : List UInt8 → Parsing
  serializeAsString : Request → List UInt8

/-- How `async_receive_from` ends. -/
inductive Outcome where
  | failed (value : Nat) (message : String)
  | received (data : List UInt8)

variable (protobuf : Protobuf)

/-- What `validate_msg` finds.  It does not look at what `ParseFromString`
returns. -/
def receipt : Outcome → Receipt
  | .failed value message => .error value message
  | .received data =>
      let parsing := protobuf.parseFromString data
      if parsing.isInitialized then .parsed parsing.msg else .uninitialized parsing.msg

/-- The queues of the three processes. -/
structure Queues where
  proposer : List Request
  accepter : List Request
  learner : List Request
  deriving DecidableEq, Repr

/-- A push to a full `spsc_queue` does nothing. -/
def push (queue : List Request) (req : Request) : List Request :=
  if queue.length < 1024 then queue ++ [req] else queue

/-- `paxos::submit`. -/
def submit (req : Request) (queues : Queues) : Queues :=
  match req.type with
  | .heartbeat | .replay => queues
  | .failover | .request => { queues with proposer := push queues.proposer req }
  | .prepare | .propose => { queues with accepter := push queues.accepter req }
  | .learn => { queues with learner := push queues.learner req }

/-- The request that `receive_handler` calls `submit` with, if it does. -/
def submitted (shutdown : Bool) (sender : Socket) (outcome : Outcome) : Option Request :=
  if shutdown then none
  else
    match receiveHandler protobuf.serializeAsString sender (receipt protobuf outcome) with
    | .submit req => some req
    | .reply _ | .ignored => none

/-- The queues after `receive_handler`. -/
def handle (shutdown : Bool) (sender : Socket) (outcome : Outcome) (queues : Queues) : Queues :=
  (submitted protobuf shutdown sender outcome).elim queues fun req => submit req queues

/-- The checksum is the one of the message without it. -/
def CrcMatches (msg : Request) : Prop :=
  msg.crc = crc32 (protobuf.serializeAsString { msg with crc := 0 })

instance (msg : Request) : Decidable (CrcMatches protobuf msg) :=
  inferInstanceAs (Decidable (_ = _))

/-- The bytes are those of an initialised request with a right checksum. -/
def Valid : Outcome → Prop
  | .failed _ _ => False
  | .received data =>
      (protobuf.parseFromString data).succeeded ∧ (protobuf.parseFromString data).isInitialized ∧
        CrcMatches protobuf (protobuf.parseFromString data).msg

/-- Only a valid datagram is submitted, and otherwise the queues stay. -/
def Guarded (shutdown : Bool) (sender : Socket) (outcome : Outcome) (queues : Queues) : Prop :=
  ((submitted protobuf shutdown sender outcome).isSome → Valid protobuf outcome) ∧
    (¬ Valid protobuf outcome → handle protobuf shutdown sender outcome queues = queues)

/-- The parser gave up on the bytes, after all that is looked at was there. -/
def ParsedInPart (data : List UInt8) : Prop :=
  ¬ (protobuf.parseFromString data).succeeded ∧ (protobuf.parseFromString data).isInitialized ∧
    CrcMatches protobuf (protobuf.parseFromString data).msg ∧
    (protobuf.parseFromString data).msg.type ≠ .heartbeat

/-- Every error is submitted, as a request nothing was parsed into. -/
theorem submitted_failed (sender : Socket) (value : Nat) (message : String) :
    submitted protobuf false sender (.failed value message) =
      some { Request.unset with sender := some sender } :=
  rfl

theorem status_parsed (msg : Request) :
    (validateMsg protobuf.serializeAsString (.parsed msg)).1.status ↔ CrcMatches protobuf msg := by
  by_cases right : CrcMatches protobuf msg
  · have passes : ¬ msg.crc ≠ crc32 (protobuf.serializeAsString { msg with crc := 0 }) := by
      rwa [not_not]
    simp only [validateMsg, if_neg passes, right]
  · simp only [validateMsg, if_pos (show _ ≠ _ from right), right, Bool.false_eq_true]

theorem type_parsed (msg : Request) :
    (validateMsg protobuf.serializeAsString (.parsed msg)).2.type = msg.type := by
  unfold validateMsg
  dsimp only
  split <;> rfl

/-- What is submitted is decided by the status and the type alone. -/
theorem submitted_iff (sender : Socket) (outcome : Outcome) :
    (submitted protobuf false sender outcome).isSome ↔
      (validateMsg protobuf.serializeAsString (receipt protobuf outcome)).1.status ∧
        (validateMsg protobuf.serializeAsString (receipt protobuf outcome)).2.type ≠
          .heartbeat := by
  unfold submitted receiveHandler
  generalize validateMsg protobuf.serializeAsString (receipt protobuf outcome) = validated
  obtain ⟨ack, msg⟩ := validated
  by_cases beat : msg.type = .heartbeat
  · simp [beat]
  · cases status : ack.status with
    | true => simp [beat, status]
    | false => simp [beat, status]

theorem submitted_received (sender : Socket) (data : List UInt8) :
    (submitted protobuf false sender (.received data)).isSome ↔
      (protobuf.parseFromString data).isInitialized ∧
        CrcMatches protobuf (protobuf.parseFromString data).msg ∧
        (protobuf.parseFromString data).msg.type ≠ .heartbeat := by
  rw [submitted_iff, receipt]
  cases initialized : (protobuf.parseFromString data).isInitialized with
  | false => simp [validateMsg]
  | true =>
      simp only [if_true]
      rw [status_parsed, type_parsed]
      simp

theorem guarded_iff (shutdown : Bool) (sender : Socket) (outcome : Outcome) (queues : Queues) :
    Guarded protobuf shutdown sender outcome queues ↔
      ((submitted protobuf shutdown sender outcome).isSome → Valid protobuf outcome) := by
  constructor
  · exact And.left
  · intro onlyValid
    refine ⟨onlyValid, fun notValid => ?_⟩
    have nothing : submitted protobuf shutdown sender outcome = none := by
      cases result : submitted protobuf shutdown sender outcome with
      | none => rfl
      | some req => exact absurd (onlyValid (by rw [result]; rfl)) notValid
    rw [handle, nothing, Option.elim_none]

/-- Nothing invalid is submitted if and only if the server is shut down, or the
receive did not fail and the parser did not stop in the middle of what looks
like a request. -/
theorem only_valid_submitted_iff (shutdown : Bool) (sender : Socket) (outcome : Outcome)
    (queues : Queues) :
    Guarded protobuf shutdown sender outcome queues ↔
      shutdown ∨ ∃ data, outcome = .received data ∧ ¬ ParsedInPart protobuf data := by
  rw [guarded_iff]
  cases shutdown with
  | true => simp [submitted]
  | false =>
      cases outcome with
      | failed value message => simp [submitted_failed, Valid]
      | received data =>
          rw [submitted_received]
          simp only [Valid, ParsedInPart, Bool.false_eq_true, false_or, Outcome.received.injEq,
            exists_eq_left']
          tauto

/-- A protobuf for which the empty datagram is a request, and one with trailing
bytes is given up after it. -/
def lenient : Protobuf where
  parseFromString := fun data => ⟨data.isEmpty, Request.unset, true⟩
  serializeAsString := fun _ => []

/-- A receive that was refused puts a request into the proposer's queue, and so
do bytes that do not parse. -/
theorem invalid_submitted :
    (¬ Guarded lenient false ⟨0, ""⟩ (.failed 111 "Connection refused") ⟨[], [], []⟩ ∧
      handle lenient false ⟨0, ""⟩ (.failed 111 "Connection refused") ⟨[], [], []⟩ =
        ⟨[{ Request.unset with sender := some ⟨0, ""⟩ }], [], []⟩) ∧
    ¬ Guarded lenient false ⟨0, ""⟩ (.received [0]) ⟨[], [], []⟩ ∧
      handle lenient false ⟨0, ""⟩ (.received [0]) ⟨[], [], []⟩ =
        ⟨[{ Request.unset with sender := some ⟨0, ""⟩ }], [], []⟩ := by
  refine ⟨⟨fun guarded => guarded.1 rfl, rfl⟩, fun guarded => ?_, rfl⟩
  have succeeded := (guarded.1 rfl).1
  simp [lenient] at succeeded

end Rangexx.Paxos.ListenServer
