import Rangexx.Base128
import Rangexx.CorruptedByte
import Rangexx.Datagrams

/-!
# Datagrams with a byte changed

The checksum of a request is taken over its serialised form, in which the bytes
of a text stand as they are.  A datagram in which one byte of a text was changed
is one byte away in that form as well, and the listener does not take it.
-/

namespace SingleChange

variable {α : Type}

theorem Changed.append_left (front : List α) {first second : List α}
    (changed : Changed first second) : Changed (front ++ first) (front ++ second) := by
  induction front with
  | nil => exact changed
  | cons entry rest ih => exact .there entry ih

theorem Changed.append_right {first second : List α} (changed : Changed first second)
    (back : List α) : Changed (first ++ back) (second ++ back) := by
  induction changed with
  | here different rest => exact .here different (rest ++ back)
  | there common changed ih => exact .there common ih

theorem Changed.length_eq {first second : List α} (changed : Changed first second) :
    first.length = second.length := by
  induction changed with
  | here different rest => rfl
  | there common changed ih => rw [List.length_cons, List.length_cons, ih]

end SingleChange

namespace WireFormat

open SingleChange

variable {Unknown M : Type} {stream : CodedStream Unknown} {type : MessageType Unknown M}

/-- Two messages that differ in one field differ at one byte of their serialised
forms when the field does. -/
theorem serialize_changed {before after : List (WireField M)} {field : WireField M}
    {first second : M} (fields : type.fields = before ++ field :: after)
    (same : ∀ other ∈ before ++ after, other.parts first = other.parts second)
    (unknown : type.unknownFields.get first = type.unknownFields.get second)
    (changed : Changed
      ((field.parts first).flatMap fun part => stream.writeTag field.tag ++ part.bytes)
      ((field.parts second).flatMap fun part => stream.writeTag field.tag ++ part.bytes)) :
    Changed (serialize stream type first) (serialize stream type second) := by
  have sameBytes {others : List (WireField M)} (among : others ⊆ before ++ after) :
      (others.flatMap fun field => (field.parts first).flatMap fun part =>
        stream.writeTag field.tag ++ part.bytes) =
      others.flatMap fun field => (field.parts second).flatMap fun part =>
        stream.writeTag field.tag ++ part.bytes := by
    rw [List.flatMap_def, List.flatMap_def]
    refine congrArg List.flatten (List.map_congr_left fun other member => ?_)
    rw [same other (among member)]
  unfold serialize
  rw [fields, unknown, List.flatMap_append, List.flatMap_cons, List.flatMap_append,
    List.flatMap_cons, sameBytes (List.subset_append_left _ _),
    sameBytes (List.subset_append_right _ _)]
  exact ((changed.append_right _).append_left _).append_right _

variable (stream) in
/-- `WriteString` leaves the bytes of a text as they are, behind something that
depends on their number alone. -/
def CodedStream.VerbatimStrings : Prop :=
  ∃ header : Nat → Octets, ∀ text, stream.writeString text = header text.length ++ text

theorem CodedStream.VerbatimStrings.changed (verbatim : stream.VerbatimStrings)
    {first second : Octets} (changed : Changed first second) :
    Changed (stream.writeString first) (stream.writeString second) := by
  obtain ⟨header, written⟩ := verbatim
  rw [written, written, changed.length_eq]
  exact changed.append_left _

theorem base128_verbatimStrings : base128.VerbatimStrings :=
  ⟨fun length => Base128.writeVarint 10 length, fun _ => rfl⟩

end WireFormat

namespace Rangexx.Proto

open SingleChange WireFormat
open WireFormat.Base128 (UnknownField)

variable {Unknown : Type} {stream : CodedStream Unknown}

/-- One byte of a text of the request was changed. -/
inductive Garbled : Request Unknown → Request Unknown → Prop
  | clientId (request : Request Unknown) {first second : Octets}
      (changed : Changed first second) :
      Garbled { request with clientId := some first } { request with clientId := some second }
  | method (request : Request Unknown) {first second : Octets}
      (changed : Changed first second) :
      Garbled { request with method := some first } { request with method := some second }
  | arg (request : Request Unknown) (before after : List Octets) {first second : Octets}
      (changed : Changed first second) :
      Garbled { request with args := before ++ first :: after }
        { request with args := before ++ second :: after }

namespace Garbled

variable {sent received : Request Unknown}

theorem withCrc (garbled : Garbled sent received) (crc : Option UInt32) :
    Garbled { sent with crc := crc } { received with crc := crc } := by
  cases garbled with
  | clientId request changed => exact .clientId { request with crc := crc } changed
  | method request changed => exact .method { request with crc := crc } changed
  | arg request before after changed => exact .arg { request with crc := crc } before after changed

theorem serialized (verbatim : stream.VerbatimStrings) (garbled : Garbled sent received) :
    Changed (sent.serializeAsString stream) (received.serializeAsString stream) := by
  cases garbled with
  | clientId request changed =>
      refine serialize_changed (show (Request.messageType stream).fields =
        (Request.fields stream).take 1 ++ _ :: (Request.fields stream).drop 2 from rfl)
        ?_ rfl (((verbatim.changed changed).append_left _).append_right [])
      simp only [Request.fields, List.take_succ_cons, List.take_zero, List.drop_succ_cons,
        List.drop_zero, List.cons_append, List.nil_append, List.forall_mem_cons]
      exact ⟨rfl, rfl, rfl, rfl, rfl, rfl, rfl, rfl, rfl, rfl, rfl, rfl, List.forall_mem_nil _⟩
  | method request changed =>
      refine serialize_changed (show (Request.messageType stream).fields =
        (Request.fields stream).take 3 ++ _ :: (Request.fields stream).drop 4 from rfl)
        ?_ rfl (((verbatim.changed changed).append_left _).append_right [])
      simp only [Request.fields, List.take_succ_cons, List.take_zero, List.drop_succ_cons,
        List.drop_zero, List.cons_append, List.nil_append, List.forall_mem_cons]
      exact ⟨rfl, rfl, rfl, rfl, rfl, rfl, rfl, rfl, rfl, rfl, rfl, rfl, List.forall_mem_nil _⟩
  | arg request before after changed =>
      refine serialize_changed (show (Request.messageType stream).fields =
        (Request.fields stream).take 4 ++ _ :: (Request.fields stream).drop 5 from rfl)
        ?_ rfl ?_
      · simp only [Request.fields, List.take_succ_cons, List.take_zero, List.drop_succ_cons,
          List.drop_zero, List.cons_append, List.nil_append, List.forall_mem_cons]
        exact ⟨rfl, rfl, rfl, rfl, rfl, rfl, rfl, rfl, rfl, rfl, rfl, rfl, List.forall_mem_nil _⟩
      · dsimp only [repeatedStringField]
        rw [List.map_append, List.map_append, List.map_cons, List.map_cons, List.flatMap_append,
          List.flatMap_append, List.flatMap_cons, List.flatMap_cons]
        exact (((verbatim.changed changed).append_left _).append_right _).append_left _

theorem initialized (garbled : Garbled sent received) :
    received.isInitialized = sent.isInitialized := by
  cases garbled <;> rfl

theorem unknownFields (garbled : Garbled sent received) :
    received.unknownFields = sent.unknownFields := by
  cases garbled <;> rfl

theorem type (garbled : Garbled sent received) : received.type = sent.type := by
  cases garbled <;> rfl

end Garbled

variable (stream) in
/-- The datagram of a request that was changed after it was sealed. -/
def garbledDatagram (sent received : Request Unknown) : Octets :=
  Request.serializeAsString stream { received with crc := (sent.withCrc32 stream).crc }

variable {sent received : Request Unknown}

theorem Garbled.sealed_changed (verbatim : stream.VerbatimStrings)
    (garbled : Garbled sent received) :
    Changed (sent.sealedBytes stream) (garbledDatagram stream sent received) :=
  (garbled.withCrc (sent.withCrc32 stream).crc).serialized verbatim

theorem Garbled.sealed_initialized (sendable : Sendable stream sent)
    (garbled : Garbled sent received) :
    ({ received with crc := (sent.withCrc32 stream).crc } : Request Unknown).isInitialized =
      true := by
  have set := sendable.initialized
  have both := garbled.initialized
  simp only [Request.isInitialized, Request.withCrc32] at both ⊢
  cases garbled <;> simpa using set

/-- What arrives is a request, with the checksum of the one that was sent. -/
theorem Garbled.parsed (documented : stream.Documented) (verbatim : stream.VerbatimStrings)
    (sendable : Sendable stream sent) (garbled : Garbled sent received) :
    Request.parseFromString stream (garbledDatagram stream sent received) =
      (true, { received with crc := (sent.withCrc32 stream).crc }) := by
  have regular : ({ received with crc := (sent.withCrc32 stream).crc } :
      Request Unknown).Regular stream :=
    ⟨garbled.unknownFields ▸ sendable.regular.unknownFields⟩
  have lengths := (garbled.sealed_changed verbatim).length_eq
  have comesBack := Request.comesBack documented regular (lengths.symm.trans_le sendable.limit)
  exact comesBack.parsed.trans (by rw [garbled.sealed_initialized sendable])

/-- The listener finds the checksum wrong. -/
theorem Garbled.validated (documented : stream.Documented) (verbatim : stream.VerbatimStrings)
    (sendable : Sendable stream sent) (garbled : Garbled sent received) :
    (validateMsg stream (.received (garbledDatagram stream sent received))).1.status =
        some false ∧
      (validateMsg stream (.received (garbledDatagram stream sent received))).2.type =
        sent.type := by
  have whole : (garbledDatagram stream sent received).take bufferSize =
      garbledDatagram stream sent received :=
    List.take_of_length_le
      ((garbled.sealed_changed verbatim).length_eq.symm.trans_lt sendable.datagram).le
  have wrong : (sent.withCrc32 stream).crc.getD 0 ≠
      Paxos.crc32 (Request.serializeAsString stream { received with crc := some 0 }) :=
    Paxos.crc32_ne_of_changed ((garbled.withCrc (some 0)).serialized verbatim)
  unfold validateMsg
  dsimp only
  rw [whole, garbled.parsed documented verbatim sendable, garbled.sealed_initialized sendable]
  simp only [Bool.not_true, Bool.false_eq_true, if_false, if_pos wrong]
  exact ⟨trivial, garbled.type⟩

/-- The datagram that arrives is one byte away from the one that was sent and
still a request, and the listener finds its checksum wrong: it submits nothing,
and answers a heartbeat with a status that is false. -/
theorem garbled_requests_refused (documented : stream.Documented)
    (verbatim : stream.VerbatimStrings) (sendable : Sendable stream sent)
    (garbled : Garbled sent received) (endpoint : Endpoint) :
    Changed (sent.sealedBytes stream) (garbledDatagram stream sent received) ∧
      Request.parseFromString stream (garbledDatagram stream sent received) =
        (true, { received with crc := (sent.withCrc32 stream).crc }) ∧
      (sent.type ≠ some .heartbeat →
        receiveHandler stream endpoint (.received (garbledDatagram stream sent received)) =
          .ignored) ∧
      (sent.type = some .heartbeat → ∃ ack,
        receiveHandler stream endpoint (.received (garbledDatagram stream sent received)) =
            .reply ack ∧
          ack.status = some false) := by
  have validated := garbled.validated documented verbatim sendable
  refine ⟨garbled.sealed_changed verbatim, garbled.parsed documented verbatim sendable,
    fun notBeat => ?_, fun isBeat => ?_⟩
  · have typed : (validateMsg stream (.received (garbledDatagram stream sent received))).2.type.getD
        .request ≠ .heartbeat := by
      rw [validated.2]
      cases isType : sent.type with
      | none => decide
      | some type => exact fun isBeat => notBeat (isType.trans (congrArg some isBeat))
    unfold receiveHandler
    simp only [if_neg typed, validated.1, Option.getD_some, Bool.false_eq_true, if_false]
  · refine ⟨_, ?_, validated.1⟩
    unfold receiveHandler
    simp only [validated.2, isBeat, Option.getD_some, if_true]

/-- The host of a request arrives as another one, and so does the client of a
heartbeat. -/
theorem garbled_texts_refused :
    receiveHandler base128 ⟨2130706433, 5444⟩ (.received (garbledDatagram base128 hostRequest
        { hostRequest with args := [octets "i"] })) = .ignored ∧
      ∃ ack, receiveHandler base128 ⟨2130706433, 5444⟩ (.received (garbledDatagram base128 heartbeat
          { heartbeat with clientId := some (octets "c|3") })) = .reply ack ∧
        ack.status = some false :=
  ⟨(garbled_requests_refused base128_documented base128_verbatimStrings hostRequest_sendable
      (.arg hostRequest [] [] (.here (by decide +kernel) [])) _).2.2.1 nofun,
    (garbled_requests_refused base128_documented base128_verbatimStrings heartbeat_sendable
      (.clientId heartbeat (.there 99 (.there 124 (.here (by decide) [])))) _).2.2.2 rfl⟩

end Rangexx.Proto
