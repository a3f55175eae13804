import Mathlib.Algebra.Order.Ring.Nat
import Rangexx.FaultLoop
import Rangexx.ListPieces

/-!
# The message queue

`MessageQueue::send` cuts a message into frames of at most `bufsize` bytes, the
first of which begins with an ordinal and the length of the message.
`MessageQueue::receive` looks for the ordinal and puts the frames together.
The underlying queue hands over frames or times out.
-/

namespace Rangexx.MessageQueue

/-- A byte in memory.  `origin` says of which message it is a byte, and at what
place; no function looks at it. -/
structure Byte where
  value : UInt8
  origin : Option (Nat × Nat)
  deriving DecidableEq, Repr

def Byte.plain (value : UInt8) : Byte :=
  ⟨value, none⟩

abbrev Frame :=
  List Byte

def bufsize : Nat :=
  16384

/-- The size of the ordinal and the length. -/
def overhead : Nat :=
  8

def msgOrdinal : Nat :=
  0xAAAAAAAA

/-- The memory of a `uint32_t`. -/
def bytesOf (number : Nat) : List Byte :=
  [.plain (UInt8.ofNat number), .plain (UInt8.ofNat (number / 2 ^ 8)),
    .plain (UInt8.ofNat (number / 2 ^ 16)), .plain (UInt8.ofNat (number / 2 ^ 24))]

def numberOf (bytes : List Byte) : Nat :=
  bytes.foldr (fun byte number => byte.value.toNat + 2 ^ 8 * number) 0

/-- `char buf[bufsize] = {0}`. -/
def blank : List Byte :=
  List.replicate bufsize (.plain 0)

/-- `std::memcpy` into a buffer, unless it writes behind the end. -/
def memcpy (buf : List Byte) (offset : Nat) (data : List Byte) : Option (List Byte) :=
  if offset + data.length ≤ buf.length then
    some (buf.take offset ++ data ++ buf.drop (offset + data.length))
  else none

/-! ## Sending -/

/-- How many bytes of a message its first frame holds. -/
def firstSending (bytes : Nat) : Nat :=
  if min bytes bufsize > bufsize - overhead then min bytes bufsize - (bytes + overhead) % bufsize
  else min bytes bufsize

/-- The frames after the first, from the bytes left. -/
def sendRest (buf data : List Byte) : Option (List Frame) :=
  if data = [] then some []
  else do
    let sending := min data.length bufsize
    let buf ← memcpy buf 0 (data.take sending)
    let frames ← sendRest buf (data.drop sending)
    some (buf.take sending :: frames)
termination_by data.length
decreasing_by
  rename_i going
  have nonempty := List.length_pos_iff.mpr going
  have positive : 0 < bufsize := by decide
  rw [List.length_drop]
  omega

/-- The frames of `send`, if none of its copies leaves the buffer.  The length
is kept in a `uint32_t`. -/
def send (msg : List Byte) : Option (List Frame) :=
  let bytes := msg.length % 2 ^ 32
  let data := msg.take bytes
  if bytes = 0 then some []
  else do
    let sending := firstSending bytes
    let buf ← memcpy blank 0 (bytesOf msgOrdinal)
    let buf ← memcpy buf 4 (bytesOf bytes)
    let buf ← memcpy buf overhead (data.take sending)
    let size :=
      if sending > bufsize - overhead then sending + (bytes + overhead) % bufsize
      else sending + overhead
    let frames ← sendRest buf (data.drop sending)
    some (buf.take size :: frames)

/-! ## Receiving -/

/-- What `timed_receive` leaves in the buffer; nothing changes on a time-out. -/
def store (buf : List Byte) (frame : Frame) : List Byte :=
  frame ++ buf.drop frame.length

/-- The first loop of `receive`: the buffer and `recvd_size` when the ordinal
has come, unless the queue times out before, and what the queue has left. -/
def findOrdinal (buf : List Byte) :
    List (Option Frame) → Option (List Byte × Nat) × List (Option Frame)
  | [] => (none, [])
  | none :: rest => (none, rest)
  | some frame :: rest =>
      let buf := store buf frame
      if numberOf (buf.take 4) = msgOrdinal then (some (buf, frame.length), rest)
      else findOrdinal buf rest

/-- The variables of the second loop. -/
structure Reader where
  buf : List Byte
  recvdSize : Nat
  msg : List Byte
  received : Nat
  outcomes : List (Option Frame)

/-- `q_->timed_receive`, whose result is not looked at. -/
def Reader.timedReceive (reader : Reader) : Reader :=
  match reader.outcomes with
  | some frame :: rest =>
      { reader with buf := store reader.buf frame, recvdSize := frame.length, outcomes := rest }
  | none :: rest => { reader with outcomes := rest }
  | [] => reader

@[simp]
theorem Reader.timedReceive_msg (reader : Reader) : reader.timedReceive.msg = reader.msg := by
  unfold timedReceive
  split <;> rfl

/-- `while (received < bytes)`. -/
def appendLoop (bytes : Nat) : FaultLoop Reader Empty where
  guard := fun reader => decide (reader.received < bytes)
  body := fun reader =>
    let reader := reader.timedReceive
    .ok { reader with
      msg := reader.msg ++ reader.buf.take reader.recvdSize
      received := reader.received + reader.recvdSize }

inductive Result where
  | returned (msg : List Byte)
  /-- `assign` was called with a negative length. -/
  | lengthError
  deriving DecidableEq, Repr

/-- `receive`, with at most some rounds of the second loop, and what the queue
has left. -/
def receive (rounds : Nat) (outcomes : List (Option Frame)) :
    Option (Result × List (Option Frame)) :=
  match findOrdinal blank outcomes with
  | (none, left) => some (.returned [], left)
  | (some (buf, recvdSize), left) =>
      if recvdSize < overhead then some (.lengthError, left)
      else
        match (appendLoop (numberOf ((buf.drop 4).take 4))).run rounds
            ⟨buf, recvdSize, (buf.drop overhead).take (recvdSize - overhead),
              recvdSize - overhead, left⟩ with
        | some (.ok reader) => some (.returned reader.msg, reader.outcomes)
        | _ => none

/-- `receive` ends with a result. -/
def Receives (outcomes : List (Option Frame)) (result : Result) (rest : List (Option Frame)) :
    Prop :=
  ∃ rounds, receive rounds outcomes = some (result, rest)

/-! ## What is sent -/

/-- The first frame is too long for its message. -/
def Overflows (bytes : Nat) : Prop :=
  bufsize < bytes ∧ (bytes + overhead) % bufsize < overhead

instance (bytes : Nat) : Decidable (Overflows bytes) :=
  inferInstanceAs (Decidable (_ ∧ _))

theorem firstSending_of_fits {bytes : Nat} (nonzero : bytes ≠ 0) (fits : ¬ Overflows bytes) :
    0 < firstSending bytes ∧ firstSending bytes ≤ bytes ∧
      firstSending bytes ≤ bufsize - overhead := by
  unfold firstSending
  by_cases many : min bytes bufsize > bufsize - overhead
  · rw [if_pos many]
    simp only [Overflows, bufsize, overhead] at fits many ⊢
    omega
  · rw [if_neg many]
    simp only [bufsize, overhead] at many ⊢
    omega

theorem firstSending_of_overflows {bytes : Nat} (overflows : Overflows bytes) :
    bufsize - overhead < firstSending bytes ∧ firstSending bytes ≤ bytes := by
  unfold firstSending
  have many : min bytes bufsize > bufsize - overhead := by
    simp only [Overflows, bufsize, overhead] at overflows ⊢
    omega
  rw [if_pos many]
  simp only [Overflows, bufsize, overhead] at overflows ⊢
  omega

theorem bytesOf_length (number : Nat) : (bytesOf number).length = 4 :=
  rfl

theorem blank_length : blank.length = bufsize :=
  List.length_replicate

/-- Copying behind what was copied before. -/
theorem memcpy_append {front back data : List Byte} (fits : data.length ≤ back.length) :
    memcpy (front ++ back) front.length data =
      some (front ++ data ++ back.drop data.length) := by
  rw [memcpy, if_pos]
  · rw [List.take_left, List.drop_append]
    simp
  · rw [List.length_append]
    omega

theorem memcpy_start {buf data : List Byte} (fits : data.length ≤ buf.length) :
    memcpy buf 0 data = some (data ++ buf.drop data.length) :=
  @memcpy_append [] buf data fits

theorem sendRest_eq {buf : List Byte} (whole : buf.length = bufsize) (data : List Byte) :
    sendRest buf data = some (ListPieces.pieces bufsize data) := by
  have positive : 0 < bufsize := by decide
  induction data using ListPieces.pieces_induction positive generalizing buf with
  | nil => rw [sendRest, if_pos rfl, ListPieces.pieces_nil]
  | cut data nonempty ih =>
      have taken : data.take (min data.length bufsize) = data.take bufsize := by
        rw [Nat.min_comm, ← List.take_eq_take_min]
      have dropped : data.drop (min data.length bufsize) = data.drop bufsize := by
        rcases Nat.le_total data.length bufsize with short | long
        · rw [Nat.min_eq_left short, List.drop_length, List.drop_eq_nil_of_le short]
        · rw [Nat.min_eq_right long]
      have fits : (data.take bufsize).length ≤ buf.length := by
        rw [whole]
        exact List.length_take_le ..
      have size : min data.length bufsize = (data.take bufsize).length := by
        rw [List.length_take, Nat.min_comm]
      have still : (data.take bufsize ++ buf.drop (data.take bufsize).length).length =
          bufsize := by
        rw [List.length_append, List.length_drop]
        omega
      rw [sendRest, if_neg nonempty]
      dsimp only
      rw [taken, dropped, memcpy_start fits, ListPieces.pieces_of_ne_nil positive nonempty]
      simp only [Option.bind_eq_bind, Option.bind_some, ih still]
      rw [size, List.take_left]

/-- The first bytes of a first frame. -/
def header (bytes : Nat) : List Byte :=
  bytesOf msgOrdinal ++ bytesOf bytes

theorem header_length (bytes : Nat) : (header bytes).length = overhead :=
  rfl

/-- The copies of a first frame. -/
theorem memcpy_first (bytes : Nat) (data : List Byte) :
    ((memcpy blank 0 (bytesOf msgOrdinal)).bind fun buf =>
      (memcpy buf 4 (bytesOf bytes)).bind fun buf => memcpy buf overhead data) =
      if overhead + data.length ≤ bufsize then
        some (header bytes ++ data ++ blank.drop (overhead + data.length))
      else none := by
  have ordinal : memcpy blank 0 (bytesOf msgOrdinal) =
      some (bytesOf msgOrdinal ++ blank.drop 4) :=
    memcpy_start (by simp [blank_length, bytesOf_length, bufsize])
  have length : memcpy (bytesOf msgOrdinal ++ blank.drop 4) 4 (bytesOf bytes) =
      some (header bytes ++ blank.drop overhead) := by
    have copied := @memcpy_append (bytesOf msgOrdinal) (blank.drop 4) (bytesOf bytes)
      (by simp [blank_length, bytesOf_length, bufsize])
    rwa [bytesOf_length, List.drop_drop] at copied
  rw [ordinal, Option.bind_some, length, Option.bind_some]
  by_cases fits : overhead + data.length ≤ bufsize
  · rw [if_pos fits]
    have copied := @memcpy_append (header bytes) (blank.drop overhead) data
      (by rw [List.length_drop, blank_length]; omega)
    rwa [header_length, List.drop_drop] at copied
  · rw [if_neg fits, memcpy, if_neg]
    rw [List.length_append, header_length, List.length_drop, blank_length]
    have : overhead ≤ bufsize := by decide
    omega

theorem send_unfold {msg : List Byte} (nonempty : msg ≠ []) (small : msg.length < 2 ^ 32) :
    send msg =
      ((memcpy blank 0 (bytesOf msgOrdinal)).bind fun buf =>
        (memcpy buf 4 (bytesOf msg.length)).bind fun buf =>
          memcpy buf overhead (msg.take (firstSending msg.length))).bind fun buf =>
      (sendRest buf (msg.drop (firstSending msg.length))).map fun frames =>
        buf.take (if firstSending msg.length > bufsize - overhead then
          firstSending msg.length + (msg.length + overhead) % bufsize
          else firstSending msg.length + overhead) :: frames := by
  have nonzero : msg.length ≠ 0 := fun zero => nonempty (List.eq_nil_of_length_eq_zero zero)
  have bytes : msg.length % 2 ^ 32 = msg.length := Nat.mod_eq_of_lt small
  unfold send
  simp only [bytes, List.take_length, if_neg nonzero, Option.bind_eq_bind, Option.bind_assoc,
    Option.map_eq_bind]
  rfl

theorem send_eq {msg : List Byte} (nonempty : msg ≠ []) (small : msg.length < 2 ^ 32)
    (fits : ¬ Overflows msg.length) :
    send msg = some ((header msg.length ++ msg.take (firstSending msg.length)) ::
      ListPieces.pieces bufsize (msg.drop (firstSending msg.length))) := by
  have nonzero : msg.length ≠ 0 := fun zero => nonempty (List.eq_nil_of_length_eq_zero zero)
  obtain ⟨-, atMost, room⟩ := firstSending_of_fits nonzero fits
  have taken : (msg.take (firstSending msg.length)).length = firstSending msg.length :=
    List.length_take_of_le atMost
  have fitsBuffer : overhead + firstSending msg.length ≤ bufsize := by
    have : overhead ≤ bufsize := by decide
    omega
  have whole : (header msg.length ++ msg.take (firstSending msg.length) ++
      blank.drop (overhead + firstSending msg.length)).length = bufsize := by
    rw [List.length_append, List.length_append, List.length_drop, header_length, taken,
      blank_length]
    omega
  have size : firstSending msg.length + overhead =
      (header msg.length ++ msg.take (firstSending msg.length)).length := by
    rw [List.length_append, header_length, taken, Nat.add_comm]
  rw [send_unfold nonempty small, memcpy_first, taken, if_pos fitsBuffer, Option.bind_some,
    sendRest_eq whole, Option.map_some, if_neg (Nat.not_lt_of_le room), size, List.take_left]

theorem send_overflows {msg : List Byte} (small : msg.length < 2 ^ 32)
    (overflows : Overflows msg.length) : send msg = none := by
  obtain ⟨many, atMost⟩ := firstSending_of_overflows overflows
  have nonempty : msg ≠ [] := by
    rintro rfl
    exact absurd overflows (by decide)
  have taken : (msg.take (firstSending msg.length)).length = firstSending msg.length :=
    List.length_take_of_le atMost
  have full : ¬ overhead + firstSending msg.length ≤ bufsize := by omega
  rw [send_unfold nonempty small, memcpy_first, taken, if_neg full, Option.bind_none]

theorem send_nil : send [] = some [] :=
  rfl

/-- The frames of a message: none of an empty one, and otherwise a first frame
and the pieces of the rest. -/
theorem send_cases {msg : List Byte} (small : msg.length < 2 ^ 32) {frames : List Frame}
    (sent : send msg = some frames) :
    (msg = [] ∧ frames = []) ∨
      (msg ≠ [] ∧ ¬ Overflows msg.length ∧
        frames = (header msg.length ++ msg.take (firstSending msg.length)) ::
          ListPieces.pieces bufsize (msg.drop (firstSending msg.length))) := by
  by_cases empty : msg = []
  · subst empty
    exact Or.inl ⟨rfl, (Option.some.inj (send_nil.symm.trans sent)).symm⟩
  · by_cases overflows : Overflows msg.length
    · rw [send_overflows small overflows] at sent
      simp at sent
    · rw [send_eq empty small overflows] at sent
      exact Or.inr ⟨empty, overflows, (Option.some.inj sent).symm⟩

theorem frames_fit {msg : List Byte} (small : msg.length < 2 ^ 32) {frames : List Frame}
    (sent : send msg = some frames) : ∀ frame ∈ frames, frame.length ≤ bufsize := by
  intro frame member
  rcases send_cases small sent with ⟨-, rfl⟩ | ⟨nonempty, fits, rfl⟩
  · simp at member
  · have nonzero : msg.length ≠ 0 := fun zero => nonempty (List.eq_nil_of_length_eq_zero zero)
    rcases List.mem_cons.mp member with rfl | piece
    · obtain ⟨-, -, room⟩ := firstSending_of_fits nonzero fits
      have : overhead ≤ bufsize := by decide
      rw [List.length_append, header_length, List.length_take]
      omega
    · exact (ListPieces.length_of_mem_pieces (by decide) piece).2

/-! ## What is received -/

theorem numberOf_bytesOf {number : Nat} (small : number < 2 ^ 32) :
    numberOf (bytesOf number) = number := by
  simp only [numberOf, bytesOf, Byte.plain, List.foldr_cons, List.foldr_nil, UInt8.toNat_ofNat']
  omega

theorem take_store (buf : List Byte) (frame : Frame) :
    (store buf frame).take frame.length = frame :=
  List.take_left

/-- A buffer that begins with a first frame shows its ordinal, its length and
its bytes. -/
theorem store_first (buf : List Byte) (bytes : Nat) (data : List Byte) :
    (store buf (header bytes ++ data)).take 4 = bytesOf msgOrdinal ∧
      ((store buf (header bytes ++ data)).drop 4).take 4 = bytesOf bytes ∧
      ((store buf (header bytes ++ data)).drop overhead).take data.length = data := by
  refine ⟨rfl, rfl, ?_⟩
  have behind : (store buf (header bytes ++ data)).drop (header bytes).length =
      data ++ buf.drop (header bytes ++ data).length := by
    rw [store, List.append_assoc, List.drop_left]
  rw [← header_length bytes, behind, List.take_left]

/-- The second loop reads the pieces of what is missing. -/
theorem appendLoop_pieces (bytes : Nat) (missing : List Byte) {reader : Reader}
    {rest : List (Option Frame)} (counted : reader.received + missing.length = bytes)
    (queued : reader.outcomes = (ListPieces.pieces bufsize missing).map some ++ rest) :
    ∃ final, (appendLoop bytes).Ends reader final ∧ final.msg = reader.msg ++ missing ∧
      final.outcomes = rest := by
  have positive : 0 < bufsize := by decide
  induction missing using ListPieces.pieces_induction positive generalizing reader with
  | nil =>
      have left : (appendLoop bytes).guard reader = false := by
        rw [List.length_nil] at counted
        simp only [appendLoop, decide_eq_false_iff_not]
        omega
      refine ⟨reader, (FaultLoop.ends_of_left left).mpr rfl, (List.append_nil _).symm, ?_⟩
      rwa [ListPieces.pieces_nil, List.map_nil, List.nil_append] at queued
  | cut missing nonempty ih =>
      rw [ListPieces.pieces_of_ne_nil positive nonempty, List.map_cons, List.cons_append] at queued
      have some := List.length_pos_iff.mpr nonempty
      have entered : (appendLoop bytes).guard reader = true := by
        simp only [appendLoop, decide_eq_true_iff]
        omega
      have sum := congrArg List.length (List.take_append_drop bufsize missing)
      rw [List.length_append] at sum
      obtain ⟨final, ends, message, left⟩ := @ih
        ⟨store reader.buf (missing.take bufsize), (missing.take bufsize).length,
          reader.msg ++ missing.take bufsize, reader.received + (missing.take bufsize).length, _⟩
        (by dsimp only; omega) rfl
      refine ⟨final, (FaultLoop.ends_of_round entered ?_).mpr ends, ?_, left⟩
      · simp only [appendLoop, Reader.timedReceive, queued, take_store]
      · rw [message, List.append_assoc, List.take_append_drop]

/-- If the ordinal is found, the loop decides what `receive` returns. -/
theorem receives_of_ends {outcomes left : List (Option Frame)} {buf : List Byte} {recvdSize : Nat}
    (found : findOrdinal blank outcomes = (some (buf, recvdSize), left))
    (enough : overhead ≤ recvdSize) {final : Reader}
    (ends : (appendLoop (numberOf ((buf.drop 4).take 4))).Ends
      ⟨buf, recvdSize, (buf.drop overhead).take (recvdSize - overhead), recvdSize - overhead, left⟩
      final) :
    Receives outcomes (.returned final.msg) final.outcomes := by
  obtain ⟨rounds, ran⟩ := ends
  refine ⟨rounds, ?_⟩
  unfold receive
  rw [found]
  dsimp only
  rw [if_neg (Nat.not_lt_of_le enough), ran]

/-- Once the first frame of a message is found, the message is received from
its other frames. -/
theorem receives_of_first {msg : List Byte} (small : msg.length < 2 ^ 32) {first : Frame}
    {more : List Frame} (sent : send msg = some (first :: more))
    {outcomes rest : List (Option Frame)} {buf : List Byte}
    (found : findOrdinal blank outcomes =
      (some (store buf first, first.length), more.map some ++ rest)) :
    Receives outcomes (.returned msg) rest := by
  rcases send_cases small sent with ⟨-, none⟩ | ⟨nonempty, fits, frames⟩
  · simp at none
  · obtain ⟨rfl, rfl⟩ := List.cons.inj frames
    have nonzero : msg.length ≠ 0 := fun zero => nonempty (List.eq_nil_of_length_eq_zero zero)
    have atMost := (firstSending_of_fits nonzero fits).2.1
    have taken : (msg.take (firstSending msg.length)).length = firstSending msg.length :=
      List.length_take_of_le atMost
    obtain ⟨-, length, data⟩ :=
      store_first buf msg.length (msg.take (firstSending msg.length))
    have size : (header msg.length ++ msg.take (firstSending msg.length)).length - overhead =
        (msg.take (firstSending msg.length)).length := by
      rw [List.length_append, header_length, Nat.add_sub_cancel_left]
    obtain ⟨final, ends, message, left⟩ := @appendLoop_pieces msg.length
      (msg.drop (firstSending msg.length))
      ⟨store buf (header msg.length ++ msg.take (firstSending msg.length)),
        (header msg.length ++ msg.take (firstSending msg.length)).length,
        msg.take (firstSending msg.length), (msg.take (firstSending msg.length)).length, _⟩ rest
      (by dsimp only; rw [taken, List.length_drop]; omega) rfl
    rw [List.take_append_drop] at message
    rw [← message, ← left]
    apply receives_of_ends found
    · rw [List.length_append, header_length]
      omega
    · rw [length, numberOf_bytesOf small, size, data]
      exact ends

theorem findOrdinal_first (buf : List Byte) (bytes : Nat) (data : List Byte)
    (rest : List (Option Frame)) :
    findOrdinal buf (some (header bytes ++ data) :: rest) =
      (some (store buf (header bytes ++ data), (header bytes ++ data).length), rest) := by
  unfold findOrdinal
  dsimp only
  rw [(store_first buf bytes data).1, if_pos (numberOf_bytesOf (by decide))]

/-- A message is received from its frames. -/
theorem receives_sent {msg : List Byte} (nonempty : msg ≠ []) (small : msg.length < 2 ^ 32)
    {frames : List Frame} (sent : send msg = some frames) (rest : List (Option Frame)) :
    Receives (frames.map some ++ rest) (.returned msg) rest := by
  rcases send_cases small sent with ⟨empty, -⟩ | ⟨-, -, rfl⟩
  · exact absurd empty nonempty
  · exact receives_of_first small sent (findOrdinal_first blank _ _ _)

/-! ## Round trips -/

/-- The frames of some messages, one after the other. -/
def sendAll : List (List Byte) → Option (List Frame)
  | [] => some []
  | msg :: rest => do
      let frames ← send msg
      let others ← sendAll rest
      some (frames ++ others)

/-- Successive calls of `receive` return these messages. -/
def ReceivesAll (outcomes : List (Option Frame)) : List (List Byte) → Prop
  | [] => True
  | msg :: others => ∃ rest, Receives outcomes (.returned msg) rest ∧ ReceivesAll rest others

/-- Messages go through a queue that loses nothing. -/
def RoundTrip (messages : List (List Byte)) : Prop :=
  ∃ frames, sendAll messages = some frames ∧ (∀ frame ∈ frames, frame.length ≤ bufsize) ∧
    ReceivesAll (frames.map some) messages

theorem roundTrip_of_fits {messages : List (List Byte)}
    (sizes : ∀ msg ∈ messages, 1 ≤ msg.length ∧ msg.length < 2 ^ 32)
    (fits : ∀ msg ∈ messages, ¬ Overflows msg.length) : RoundTrip messages := by
  induction messages with
  | nil => exact ⟨[], rfl, by simp, trivial⟩
  | cons msg others ih =>
      obtain ⟨frames, sent, short, received⟩ :=
        ih (fun other member => sizes other (List.mem_cons_of_mem msg member))
          (fun other member => fits other (List.mem_cons_of_mem msg member))
      obtain ⟨positive, small⟩ := sizes msg List.mem_cons_self
      have nonempty : msg ≠ [] := List.length_pos_iff.mp positive
      have first := send_eq nonempty small (fits msg List.mem_cons_self)
      refine ⟨_ ++ frames, by rw [sendAll, first, sent]; rfl, ?_, ?_⟩
      · intro frame member
        rcases List.mem_append.mp member with own | other
        · exact frames_fit small first frame own
        · exact short frame other
      · refine ⟨frames.map some, ?_, received⟩
        rw [List.map_append]
        exact receives_sent nonempty small first (frames.map some)

theorem fits_of_sendAll {messages : List (List Byte)}
    (sizes : ∀ msg ∈ messages, 1 ≤ msg.length ∧ msg.length < 2 ^ 32) {frames : List Frame}
    (sent : sendAll messages = some frames) : ∀ msg ∈ messages, ¬ Overflows msg.length := by
  induction messages generalizing frames with
  | nil => simp
  | cons msg others ih =>
      obtain ⟨own, first, onward⟩ := Option.bind_eq_some_iff.mp sent
      obtain ⟨rest, sentRest, -⟩ := Option.bind_eq_some_iff.mp onward
      intro other member overflows
      rcases List.mem_cons.mp member with rfl | later
      · rw [send_overflows (sizes other List.mem_cons_self).2 overflows] at first
        simp at first
      · exact ih (fun one listed => sizes one (List.mem_cons_of_mem msg listed)) sentRest other
          later overflows

/-- Messages go through the queue if and only if none has a length that is too
much for the buffer. -/
theorem roundTrip_iff {messages : List (List Byte)}
    (sizes : ∀ msg ∈ messages, 1 ≤ msg.length ∧ msg.length < 2 ^ 32) :
    RoundTrip messages ↔ ∀ msg ∈ messages, ¬ Overflows msg.length := by
  constructor
  · rintro ⟨frames, sent, -, -⟩
    exact fits_of_sendAll sizes sent
  · exact roundTrip_of_fits sizes

/-- A message of three frames, and one that fits one. -/
def longAndShort : List (List Byte) :=
  [List.replicate (2 * bufsize + 100) (.plain 1), [.plain 2, .plain 3]]

theorem roundTrip_longAndShort :
    RoundTrip longAndShort ↔ ∀ msg ∈ longAndShort, ¬ Overflows msg.length :=
  roundTrip_iff (by
    unfold longAndShort
    rw [List.forall_mem_cons, List.length_replicate]
    decide)

/-- A message eight bytes short of two buffers does not go through. -/
theorem no_roundTrip :
    ¬ ∀ messages : List (List Byte),
      (∀ msg ∈ messages, 1 ≤ msg.length ∧ msg.length < 2 ^ 32) → RoundTrip messages := by
  intro all
  have size : ∀ msg ∈ [List.replicate (2 * bufsize - overhead) (Byte.plain 0)],
      msg.length = 2 * bufsize - overhead := by
    intro msg member
    rw [List.mem_singleton.mp member, List.length_replicate]
  have sizes : ∀ msg ∈ [List.replicate (2 * bufsize - overhead) (Byte.plain 0)],
      1 ≤ msg.length ∧ msg.length < 2 ^ 32 := by
    intro msg member
    rw [size msg member]
    decide
  obtain ⟨frames, sent, -, -⟩ := all _ sizes
  refine fits_of_sendAll sizes sent _ List.mem_cons_self ?_
  rw [size _ List.mem_cons_self]
  decide

end Rangexx.MessageQueue
