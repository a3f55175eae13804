import Mathlib.Data.List.Infix
import Rangexx.MessageQueue

/-!
# Receiving when frames are missing or late

A `send` that times out leaves the first frames of its message behind, and
`timed_receive` may time out at any call.  Every byte of a message is labelled
with the message and its place, so that a result tells where its bytes are from.
-/

namespace Rangexx.MessageQueue

/-- A call of `send`, and how many frames the queue took before it timed out. -/
structure Write where
  message : List UInt8
  delivered : Nat
  deriving DecidableEq, Repr

/-- The bytes of a message with their places. -/
def labelled (index : Nat) (message : List UInt8) : List Byte :=
  message.mapIdx fun place value => ⟨value, some (index, place)⟩

/-- The frames in the queue after some writes, the first of which has the given
index. -/
def written (index : Nat) : List Write → Option (List Frame)
  | [] => some []
  | write :: rest => do
      let frames ← send (labelled index write.message)
      let others ← written (index + 1) rest
      some (frames.take write.delivered ++ others)

/-- The result is empty, or one of the messages. -/
def Right (writes : List Write) (result : Result) : Prop :=
  result = .returned [] ∨ ∃ index write, writes[index]? = some write ∧
    result = .returned (labelled index write.message)

/-- Successive calls of `receive` end, and each returns the right thing. -/
def RightRun (writes : List Write) : Nat → List (Option Frame) → Prop
  | 0, _ => True
  | calls + 1, outcomes => ∃ result rest, Receives outcomes result rest ∧ Right writes result ∧
      RightRun writes calls rest

/-! ## When a result is right -/

/-- The frame is the first one of a message, and what the queue yields next are
the others. -/
def Whole (writes : List Write) (frame : Frame) (rest : List (Option Frame)) : Prop :=
  ∃ index write more, writes[index]? = some write ∧
    send (labelled index write.message) = some (frame :: more) ∧ more.map some <+: rest

/-- The first frame with which the buffer begins with the ordinal, if it comes
before a time-out, begins a message that follows as a whole, or consists of the
ordinal and the length 0. -/
def Clean (writes : List Write) (buf : List Byte) : List (Option Frame) → Prop
  | [] => True
  | none :: _ => True
  | some frame :: rest =>
      if numberOf ((store buf frame).take 4) = msgOrdinal then
        Whole writes frame rest ∨ (frame.length = overhead ∧ numberOf (frame.drop 4) = 0)
      else Clean writes (store buf frame) rest

/-- Successive calls of `receive` find the queue in order. -/
def CleanRun (writes : List Write) : Nat → List (Option Frame) → Prop
  | 0, _ => True
  | calls + 1, outcomes => Clean writes blank outcomes ∧
      ∀ result rest, Receives outcomes result rest → CleanRun writes calls rest

/-! ## Where bytes are from -/

def originAt (bytes : List Byte) (place : Nat) : Option (Nat × Nat) :=
  bytes[place]?.bind Byte.origin

theorem originAt_labelled {message : List UInt8} {place : Nat} (inside : place < message.length)
    (index : Nat) : originAt (labelled index message) place = some (index, place) := by
  simp [originAt, labelled, inside]

theorem length_labelled (index : Nat) (message : List UInt8) :
    (labelled index message).length = message.length :=
  List.length_mapIdx

theorem labelled_eq_nil {index : Nat} {message : List UInt8} :
    labelled index message = [] ↔ message = [] :=
  List.mapIdx_eq_nil_iff

theorem originAt_append_left {front : List Byte} {place : Nat} (inside : place < front.length)
    (back : List Byte) : originAt (front ++ back) place = originAt front place := by
  rw [originAt, originAt, List.getElem?_append_left inside]

theorem originAt_append_right (front back : List Byte) (place : Nat) :
    originAt (front ++ back) (front.length + place) = originAt back place := by
  rw [originAt, originAt, List.getElem?_append_right (Nat.le_add_right ..),
    Nat.add_sub_cancel_left]

theorem originAt_drop (bytes : List Byte) (skipped place : Nat) :
    originAt (bytes.drop skipped) place = originAt bytes (skipped + place) := by
  rw [originAt, originAt, List.getElem?_drop]

theorem originAt_drop_take {size place : Nat} (less : place < size) (bytes : List Byte)
    (skipped : Nat) : originAt ((bytes.drop skipped).take size) place =
      originAt bytes (skipped + place) := by
  rw [originAt, originAt, List.getElem?_take_of_lt less, List.getElem?_drop]

/-- Where an origin says a byte of a message is, there it is. -/
theorem originAt_labelled_eq {index place : Nat} {message : List UInt8} {origin : Nat × Nat}
    (same : originAt (labelled index message) place = some origin) : origin = (index, place) := by
  by_cases inside : place < message.length
  · rw [originAt_labelled inside] at same
    exact (Option.some.inj same).symm
  · simp [originAt, labelled, Nat.le_of_not_lt inside] at same

/-- A frame of a write: the first one, or the bytes from a place on. -/
inductive FrameOf (writes : List Write) : Frame → Prop
  | first {index : Nat} {write : Write} {frame : Frame} {more : List Frame}
      (listed : writes[index]? = some write)
      (sent : send (labelled index write.message) = some (frame :: more)) : FrameOf writes frame
  | later {index place : Nat} {write : Write} (listed : writes[index]? = some write)
      (positive : 0 < place) (inside : place < write.message.length) :
      FrameOf writes (((labelled index write.message).drop place).take bufsize)

/-- The first frame of a message begins with its header. -/
theorem first_frame {index : Nat} {message : List UInt8} (small : message.length < 2 ^ 32)
    {frame : Frame} {more : List Frame}
    (sent : send (labelled index message) = some (frame :: more)) :
    ∃ size, 0 < size ∧ size ≤ message.length ∧
      frame = header message.length ++ (labelled index message).take size ∧
      more = ListPieces.pieces bufsize ((labelled index message).drop size) := by
  rcases send_cases (by rwa [length_labelled]) sent with ⟨-, none⟩ | ⟨nonempty, fits, frames⟩
  · simp at none
  · rw [length_labelled] at fits frames
    obtain ⟨isFirst, isMore⟩ := List.cons.inj frames
    have nonzero : message.length ≠ 0 := by
      intro zero
      exact nonempty (labelled_eq_nil.mpr (List.eq_nil_of_length_eq_zero zero))
    obtain ⟨positive, atMost, -⟩ := firstSending_of_fits nonzero fits
    exact ⟨firstSending message.length, positive, atMost, isFirst, isMore⟩

theorem frameOf_sent {writes : List Write} {index : Nat} {write : Write}
    (listed : writes[index]? = some write) (small : write.message.length < 2 ^ 32)
    {frames : List Frame} (sent : send (labelled index write.message) = some frames) :
    ∀ frame ∈ frames, FrameOf writes frame := by
  intro frame member
  cases frames with
  | nil => simp at member
  | cons first more =>
      rcases List.mem_cons.mp member with rfl | piece
      · exact .first listed sent
      · obtain ⟨size, positive, atMost, -, rfl⟩ := first_frame small sent
        obtain ⟨skipped, less, rfl⟩ := ListPieces.mem_pieces (by decide) piece
        rw [List.length_drop, length_labelled] at less
        rw [List.drop_drop]
        exact .later listed (by omega) (by omega)

theorem frameOf_written {writes past rest : List Write} {index : Nat}
    (split : writes = past ++ rest) (position : past.length = index)
    (small : ∀ write ∈ writes, write.message.length < 2 ^ 32) {frames : List Frame}
    (sent : written index rest = some frames) : ∀ frame ∈ frames, FrameOf writes frame := by
  induction rest generalizing past index frames with
  | nil =>
      obtain rfl := Option.some.inj sent
      simp
  | cons write rest ih =>
      obtain ⟨own, first, onward⟩ := Option.bind_eq_some_iff.mp sent
      obtain ⟨others, sentRest, same⟩ := Option.bind_eq_some_iff.mp onward
      obtain rfl := Option.some.inj same
      have listed : writes[index]? = some write := by
        rw [split, ← position, List.getElem?_append_right (Nat.le_refl _), Nat.sub_self]
        rfl
      intro frame member
      rcases List.mem_append.mp member with taken | later
      · exact frameOf_sent listed (small write (List.mem_of_getElem? listed)) first frame
          (List.mem_of_mem_take taken)
      · refine @ih (past ++ [write]) (index + 1) ?_ ?_ others sentRest frame later
        · rw [split, List.append_assoc, List.singleton_append]
        · rw [List.length_append, List.length_singleton, position]

section Frames

variable {writes : List Write} (small : ∀ write ∈ writes, write.message.length < 2 ^ 32)
  {frame : Frame} {index : Nat}

include small

theorem FrameOf.ne_nil (isFrame : FrameOf writes frame) : frame ≠ [] := by
  cases isFrame with
  | first listed sent =>
      obtain ⟨size, -, -, rfl, -⟩ := first_frame (small _ (List.mem_of_getElem? listed)) sent
      simp [header, bytesOf]
  | later listed positive inside =>
      have size : bufsize ≠ 0 := by decide
      simp [List.take_eq_nil_iff, size, length_labelled, inside]

/-- A frame that begins with a byte of a message holds what follows there. -/
theorem FrameOf.of_head (isFrame : FrameOf writes frame) {place : Nat}
    (origin : originAt frame 0 = some (index, place)) :
    0 < place ∧ ∃ write, writes[index]? = some write ∧
      frame = ((labelled index write.message).drop place).take bufsize := by
  cases isFrame with
  | first listed sent =>
      obtain ⟨size, -, -, rfl, -⟩ := first_frame (small _ (List.mem_of_getElem? listed)) sent
      simp [originAt, header, bytesOf, Byte.plain] at origin
  | later listed positive inside =>
      rw [originAt_drop_take (by decide)] at origin
      obtain ⟨rfl, rfl⟩ := Prod.mk.inj (originAt_labelled_eq origin)
      exact ⟨positive, _, listed, rfl⟩

/-- A frame with the first byte of a message behind the header is its first
frame. -/
theorem FrameOf.of_overhead (isFrame : FrameOf writes frame)
    (origin : originAt frame overhead = some (index, 0)) :
    ∃ write more, writes[index]? = some write ∧
      send (labelled index write.message) = some (frame :: more) := by
  cases isFrame with
  | @first number write _ more listed sent =>
      obtain ⟨size, positive, atMost, rfl, -⟩ :=
        first_frame (small _ (List.mem_of_getElem? listed)) sent
      have behind := originAt_append_right (header write.message.length)
        ((labelled number write.message).take size) 0
      rw [header_length, Nat.add_zero, origin] at behind
      have first := @originAt_drop_take size 0 positive (labelled number write.message) 0
      rw [List.drop_zero, ← behind] at first
      obtain ⟨rfl, -⟩ := Prod.mk.inj (originAt_labelled_eq first.symm)
      exact ⟨write, more, listed, sent⟩
  | later listed positive inside =>
      rw [originAt_drop_take (by decide)] at origin
      have place := (Prod.mk.inj (originAt_labelled_eq origin)).2
      omega

end Frames

/-! ## What the loops read -/

/-- The second loop only appends. -/
theorem appendLoop_grows {bytes : Nat} {reader final : Reader}
    (ends : (appendLoop bytes).Ends reader final) :
    reader.msg <+: final.msg ∧ final.outcomes <:+ reader.outcomes := by
  refine FaultLoop.ends_induction (motive := fun reader =>
    reader.msg <+: final.msg ∧ final.outcomes <:+ reader.outcomes) ends
    (fun _ => ⟨List.prefix_rfl, List.suffix_rfl⟩) ?_
  intro state next _ passed _ grows
  obtain rfl := Except.ok.inj passed
  have longer := grows.1
  rw [Reader.timedReceive_msg] at longer
  refine ⟨(List.prefix_append ..).trans longer, grows.2.trans ?_⟩
  unfold Reader.timedReceive
  split
  · rename_i queued
    rw [queued]
    exact List.suffix_cons ..
  · rename_i queued
    rw [queued]
    exact List.suffix_cons ..
  · exact List.suffix_rfl

/-- A beginning of a list that is not empty begins with the same byte. -/
theorem originAt_of_isPrefix {chunk bytes : List Byte} (isPart : chunk <+: bytes)
    (nonempty : chunk ≠ []) : originAt chunk 0 = originAt bytes 0 := by
  obtain ⟨back, rfl⟩ := isPart
  exact (originAt_append_left (List.length_pos_iff.mpr nonempty) back).symm

theorem findOrdinal_suffix (buf : List Byte) (outcomes : List (Option Frame)) :
    (findOrdinal buf outcomes).2 <:+ outcomes := by
  induction outcomes generalizing buf with
  | nil => exact List.suffix_rfl
  | cons outcome rest ih =>
      cases outcome with
      | none => exact List.suffix_cons ..
      | some frame =>
          unfold findOrdinal
          dsimp only
          split
          · exact List.suffix_cons ..
          · exact (ih _).trans (List.suffix_cons ..)

theorem clean_of_not_found (writes : List Write) {buf : List Byte}
    {outcomes : List (Option Frame)} (notFound : (findOrdinal buf outcomes).1 = none) :
    Clean writes buf outcomes := by
  induction outcomes generalizing buf with
  | nil => trivial
  | cons outcome rest ih =>
      cases outcome with
      | none => trivial
      | some frame =>
          unfold findOrdinal at notFound
          unfold Clean
          dsimp only at notFound
          split at notFound
          · simp at notFound
          · rename_i garbage
            rw [if_neg garbage]
            exact ih notFound

/-- The frame with which the ordinal is found decides whether the queue is in
order. -/
theorem found_frame (writes : List Write) {buf read : List Byte} {size : Nat}
    {outcomes left : List (Option Frame)}
    (found : findOrdinal buf outcomes = (some (read, size), left)) :
    ∃ prior frame, read = store prior frame ∧ size = frame.length ∧ some frame ∈ outcomes ∧
      (Clean writes buf outcomes ↔
        Whole writes frame left ∨ (frame.length = overhead ∧ numberOf (frame.drop 4) = 0)) := by
  induction outcomes generalizing buf with
  | nil => simp [findOrdinal] at found
  | cons outcome rest ih =>
      cases outcome with
      | none => simp [findOrdinal] at found
      | some frame =>
          unfold findOrdinal at found
          unfold Clean
          dsimp only at found
          split at found
          · rename_i ordinal
            obtain ⟨opened, rfl⟩ := Prod.mk.inj found
            obtain ⟨rfl, rfl⟩ := Prod.mk.inj (Option.some.inj opened)
            refine ⟨buf, frame, rfl, rfl, List.mem_cons_self, ?_⟩
            rw [if_pos ordinal]
          · rename_i garbage
            obtain ⟨prior, first, store, length, member, clean⟩ := ih found
            refine ⟨prior, first, store, length, List.mem_cons_of_mem _ member, ?_⟩
            rw [if_neg garbage]
            exact clean

/-- How `receive` can end. -/
theorem receives_cases {outcomes rest : List (Option Frame)} {result : Result}
    (receives : Receives outcomes result rest) :
    (findOrdinal blank outcomes = (none, rest) ∧ result = .returned []) ∨
      ∃ buf size left, findOrdinal blank outcomes = (some (buf, size), left) ∧
        ((size < overhead ∧ result = .lengthError ∧ rest = left) ∨
          (overhead ≤ size ∧ ∃ final, (appendLoop (numberOf ((buf.drop 4).take 4))).Ends
            ⟨buf, size, (buf.drop overhead).take (size - overhead), size - overhead, left⟩ final ∧
              result = .returned final.msg ∧ rest = final.outcomes)) := by
  obtain ⟨rounds, received⟩ := receives
  unfold receive at received
  split at received
  · rename_i left notFound
    obtain ⟨rfl, rfl⟩ := Prod.mk.inj (Option.some.inj received)
    exact Or.inl ⟨notFound, rfl⟩
  · rename_i buf size left found
    refine Or.inr ⟨buf, size, left, found, ?_⟩
    split at received
    · rename_i short
      obtain ⟨rfl, rfl⟩ := Prod.mk.inj (Option.some.inj received)
      exact Or.inl ⟨short, rfl, rfl⟩
    · rename_i enough
      split at received
      · rename_i final ran
        obtain ⟨rfl, rfl⟩ := Prod.mk.inj (Option.some.inj received)
        exact Or.inr ⟨Nat.le_of_not_lt enough, final, ⟨rounds, ran⟩, rfl, rfl⟩
      · simp at received

section Loops

variable {writes : List Write} (small : ∀ write ∈ writes, write.message.length < 2 ^ 32)

include small

/-- If the second loop ends with a message, it has read the pieces of what was
missing: what is read last is neither read again nor from elsewhere. -/
theorem pieces_queued {index : Nat} {write : Write} (listed : writes[index]? = some write)
    {missing : List Byte} {reader final : Reader}
    (frames : ∀ frame, some frame ∈ reader.outcomes → FrameOf writes frame)
    (read : reader.received = reader.msg.length)
    (part : reader.msg ++ missing = labelled index write.message)
    (last : reader.buf.take reader.recvdSize ≠ [])
    (before : originAt (reader.buf.take reader.recvdSize) 0 ≠ some (index, reader.msg.length))
    (ends : (appendLoop write.message.length).Ends reader final)
    (complete : final.msg = labelled index write.message) :
    (ListPieces.pieces bufsize missing).map some <+: reader.outcomes := by
  have positive : 0 < bufsize := by decide
  induction missing using ListPieces.pieces_induction positive generalizing reader with
  | nil => simp
  | cut missing nonempty ih =>
      have whole := congrArg List.length part
      rw [List.length_append, length_labelled] at whole
      have some := List.length_pos_iff.mpr nonempty
      have entered : (appendLoop write.message.length).guard reader = true := by
        simp only [appendLoop, decide_eq_true_iff]
        omega
      have inside : reader.msg.length < write.message.length := by omega
      have origin : originAt missing 0 = Option.some (index, reader.msg.length) := by
        have right := originAt_append_right reader.msg missing 0
        rw [part, Nat.add_zero, originAt_labelled inside] at right
        exact right.symm
      have onward := (FaultLoop.ends_of_round entered rfl).mp ends
      have grows := (appendLoop_grows onward).1
      rw [complete, ← part, Reader.timedReceive_msg] at grows
      have chunk := (List.prefix_append_right_inj _).mp grows
      cases queued : reader.outcomes with
      | nil =>
          simp only [Reader.timedReceive, queued] at chunk
          exact absurd ((originAt_of_isPrefix chunk last).trans origin) before
      | cons outcome rest =>
          cases outcome with
          | none =>
              simp only [Reader.timedReceive, queued] at chunk
              exact absurd ((originAt_of_isPrefix chunk last).trans origin) before
          | some frame =>
              simp only [Reader.timedReceive, queued, take_store] at chunk onward
              have isFrame := frames frame (by rw [queued]; exact List.mem_cons_self)
              have first := (originAt_of_isPrefix chunk (isFrame.ne_nil small)).trans origin
              obtain ⟨-, other, otherListed, piece⟩ := isFrame.of_head small first
              obtain rfl := Option.some.inj (listed.symm.trans otherListed)
              rw [← part, List.drop_left] at piece
              subst piece
              rw [ListPieces.pieces_of_ne_nil positive nonempty, List.map_cons,
                List.cons_prefix_cons]
              have nonemptyPiece := List.length_pos_iff.mpr (isFrame.ne_nil small)
              refine ⟨rfl, @ih ⟨_, _, reader.msg ++ missing.take bufsize, _, rest⟩ ?_ ?_ ?_ ?_ ?_
                onward⟩
              · intro later member
                exact frames later (by rw [queued]; exact List.mem_cons_of_mem _ member)
              · dsimp only
                rw [read, List.length_append]
              · dsimp only
                rw [List.append_assoc, List.take_append_drop, part]
              · dsimp only
                rw [take_store]
                exact isFrame.ne_nil small
              · dsimp only
                rw [take_store, first, List.length_append]
                intro same
                have place := (Prod.mk.inj (Option.some.inj same)).2
                omega

omit small in
/-- What is appended next is a frame, if what was read last is one. -/
theorem frameOf_next {reader : Reader} (last : FrameOf writes (reader.buf.take reader.recvdSize))
    (frames : ∀ frame, some frame ∈ reader.outcomes → FrameOf writes frame) :
    FrameOf writes (reader.timedReceive.buf.take reader.timedReceive.recvdSize) := by
  unfold Reader.timedReceive
  split
  · rename_i frame rest queued
    dsimp only
    rw [take_store]
    exact frames frame (by rw [queued]; exact List.mem_cons_self)
  · exact last
  · exact last

omit small in
theorem payload_store (prior : List Byte) (frame : Frame) (enough : overhead ≤ frame.length) :
    ((store prior frame).drop overhead).take (frame.length - overhead) =
      frame.drop overhead := by
  rw [store, List.drop_append_of_le_length enough, List.take_left' List.length_drop]

omit small in
/-- The length that a frame of eight bytes names. -/
theorem length_store (prior : List Byte) {frame : Frame} (short : frame.length = overhead) :
    ((store prior frame).drop 4).take 4 = frame.drop 4 := by
  have four : 4 ≤ frame.length := by
    rw [short]
    decide
  rw [store, List.drop_append_of_le_length four, List.take_left']
  rw [List.length_drop, short]
  rfl

/-- If the queue is in order, the call ends with the right result. -/
theorem right_of_clean {outcomes : List (Option Frame)} (clean : Clean writes blank outcomes) :
    ∃ result rest, Receives outcomes result rest ∧ Right writes result := by
  cases found : findOrdinal blank outcomes with
  | mk opened left =>
      cases opened with
      | none =>
          refine ⟨.returned [], left, ⟨0, ?_⟩, Or.inl rfl⟩
          unfold receive
          rw [found]
      | some opened =>
          obtain ⟨read, size⟩ := opened
          obtain ⟨prior, frame, rfl, rfl, -, decides⟩ := found_frame writes found
          rcases decides.mp clean with whole | ⟨short, zero⟩
          · obtain ⟨index, write, more, listed, sent, rest, rfl⟩ := whole
            have lengths := small write (List.mem_of_getElem? listed)
            exact ⟨_, rest, receives_of_first (by rwa [length_labelled]) sent found,
              Or.inr ⟨index, write, listed, rfl⟩⟩
          · have atOnce := receives_of_ends found (Nat.le_of_eq short.symm)
              ((FaultLoop.ends_of_left (by
                simp only [appendLoop, length_store prior short, zero]
                exact decide_eq_false (Nat.not_lt_zero _))).mpr rfl)
            refine ⟨_, _, atOnce, Or.inl ?_⟩
            simp [short]

/-- If the second loop reads on, what it appends is a frame and belongs to the
result. -/
theorem next_appended {bytes : Nat} {reader final : Reader}
    (last : FrameOf writes (reader.buf.take reader.recvdSize))
    (frames : ∀ frame, some frame ∈ reader.outcomes → FrameOf writes frame)
    (ends : (appendLoop bytes).Ends reader final) (less : reader.received < bytes) :
    ∃ chunk, FrameOf writes chunk ∧ chunk ≠ [] ∧ reader.msg ++ chunk <+: final.msg := by
  have entered : (appendLoop bytes).guard reader = true := decide_eq_true less
  have grows := (appendLoop_grows ((FaultLoop.ends_of_round entered rfl).mp ends)).1
  rw [Reader.timedReceive_msg] at grows
  have next := frameOf_next last frames
  exact ⟨_, next, next.ne_nil small, grows⟩

/-- An empty result was named by the frame. -/
theorem blank_of_empty {prior : List Byte} {frame : Frame} {left : List (Option Frame)}
    {final : Reader} (isFrame : FrameOf writes frame)
    (frames : ∀ frame, some frame ∈ left → FrameOf writes frame)
    (enough : overhead ≤ frame.length)
    (ends : (appendLoop (numberOf (((store prior frame).drop 4).take 4))).Ends
      ⟨store prior frame, frame.length, frame.drop overhead, frame.length - overhead, left⟩ final)
    (empty : final.msg = []) : frame.length = overhead ∧ numberOf (frame.drop 4) = 0 := by
  have payload : frame.drop overhead = [] := by
    have grows := (appendLoop_grows ends).1
    rw [empty] at grows
    exact List.prefix_nil.mp grows
  have short : frame.length = overhead :=
    Nat.le_antisymm (List.drop_eq_nil_iff.mp payload) enough
  refine ⟨short, ?_⟩
  by_contra positive
  have last : FrameOf writes ((store prior frame).take frame.length) := by
    rwa [take_store]
  rw [length_store prior short] at ends
  obtain ⟨chunk, -, nonempty, appended⟩ := next_appended small last frames ends (by
    dsimp only
    omega)
  rw [empty] at appended
  exact nonempty (List.append_eq_nil_iff.mp (List.prefix_nil.mp appended)).2

/-- A result that is a message was read as a whole. -/
theorem whole_of_message {prior : List Byte} {frame : Frame} {left : List (Option Frame)}
    {final : Reader} (isFrame : FrameOf writes frame)
    (frames : ∀ frame, some frame ∈ left → FrameOf writes frame)
    (ends : (appendLoop (numberOf (((store prior frame).drop 4).take 4))).Ends
      ⟨store prior frame, frame.length, frame.drop overhead, frame.length - overhead, left⟩ final)
    {index : Nat} {write : Write} (listed : writes[index]? = some write)
    (nonempty : final.msg ≠ []) (complete : final.msg = labelled index write.message) :
    Whole writes frame left := by
  have last : FrameOf writes ((store prior frame).take frame.length) := by
    rwa [take_store]
  have begins : originAt final.msg 0 = some (index, 0) := by
    rw [complete]
    apply originAt_labelled
    rw [← length_labelled index, ← complete]
    exact List.length_pos_iff.mpr nonempty
  by_cases payload : frame.drop overhead = []
  · exfalso
    rw [payload] at ends
    by_cases less : frame.length - overhead < numberOf (((store prior frame).drop 4).take 4)
    · -- the first byte appended would be the first of the message
      obtain ⟨chunk, isChunk, someByte, appended⟩ := next_appended small last frames ends less
      have origin := (originAt_of_isPrefix appended someByte).trans begins
      exact absurd (isChunk.of_head small origin).1 (Nat.lt_irrefl 0)
    · have same := (FaultLoop.ends_of_left (decide_eq_false less)).mp ends
      rw [same] at nonempty
      exact nonempty rfl
  · have origin := originAt_of_isPrefix (appendLoop_grows ends).1 payload
    have behind : originAt frame overhead = some (index, 0) :=
      (originAt_drop frame overhead 0).symm.trans (origin.trans begins)
    obtain ⟨other, more, otherListed, sent⟩ := isFrame.of_overhead small behind
    obtain rfl := Option.some.inj (listed.symm.trans otherListed)
    have lengths := small write (List.mem_of_getElem? listed)
    refine ⟨index, write, more, listed, sent, ?_⟩
    obtain ⟨size, positive, atMost, rfl, rfl⟩ := first_frame lengths sent
    have bytes := (store_first prior write.message.length
      ((labelled index write.message).take size)).2.1
    have dropped : (header write.message.length ++ (labelled index write.message).take size).drop
        overhead = (labelled index write.message).take size :=
      List.drop_left' (header_length _)
    have taken : ((labelled index write.message).take size).length = size := by
      rw [List.length_take, length_labelled, Nat.min_eq_left atMost]
    rw [bytes, numberOf_bytesOf lengths, dropped] at ends
    have whole : (labelled index write.message).take size ++
        (labelled index write.message).drop size = labelled index write.message :=
      List.take_append_drop ..
    refine pieces_queued small listed ?_ ?_ whole ?_ ?_ ends complete
    · exact frames
    · rw [List.length_append, header_length, Nat.add_sub_cancel_left]
    · exact last.ne_nil small
    · dsimp only
      rw [take_store]
      simp [originAt, header, bytesOf, Byte.plain]

/-- If the call ends with the right result, the queue is in order. -/
theorem clean_of_right {outcomes rest : List (Option Frame)} {result : Result}
    (frames : ∀ frame, some frame ∈ outcomes → FrameOf writes frame)
    (receives : Receives outcomes result rest) (right : Right writes result) :
    Clean writes blank outcomes := by
  rcases receives_cases receives with ⟨notFound, -⟩ | ⟨read, size, left, found, ends⟩
  · exact clean_of_not_found writes (by rw [notFound])
  · obtain ⟨prior, frame, rfl, rfl, member, decides⟩ := found_frame writes found
    have isFrame := frames frame member
    have suffix := findOrdinal_suffix blank outcomes
    rw [found] at suffix
    have later : ∀ frame, some frame ∈ left → FrameOf writes frame := fun frame queued =>
      frames frame (suffix.subset queued)
    rw [decides]
    rcases ends with ⟨-, rfl, -⟩ | ⟨enough, final, ends, rfl, -⟩
    · rcases right with empty | ⟨index, write, -, message⟩
      · simp at empty
      · simp at message
    · rw [payload_store prior frame enough] at ends
      by_cases empty : final.msg = []
      · exact Or.inr (blank_of_empty small isFrame later enough ends empty)
      · rcases right with isEmpty | ⟨index, write, listed, message⟩
        · exact absurd (Result.returned.inj isEmpty) empty
        · exact Or.inl (whole_of_message small isFrame later ends listed empty
            (Result.returned.inj message))

end Loops

/-! ## Runs -/

theorem receives_suffix {outcomes rest : List (Option Frame)} {result : Result}
    (receives : Receives outcomes result rest) : rest <:+ outcomes := by
  have suffix := findOrdinal_suffix blank outcomes
  rcases receives_cases receives with ⟨notFound, -⟩ | ⟨read, size, left, found, ends⟩
  · rwa [notFound] at suffix
  · rw [found] at suffix
    rcases ends with ⟨-, -, rfl⟩ | ⟨-, final, ends, -, rfl⟩
    · exact suffix
    · exact (appendLoop_grows ends).2.trans suffix

/-- A call ends in one way only. -/
theorem receives_unique {outcomes rest otherRest : List (Option Frame)} {result other : Result}
    (receives : Receives outcomes result rest) (again : Receives outcomes other otherRest) :
    result = other ∧ rest = otherRest := by
  rcases receives_cases receives with ⟨notFound, rfl⟩ | ⟨read, size, left, found, ends⟩
  · rcases receives_cases again with ⟨same, rfl⟩ | ⟨_, _, _, same, -⟩
    · rw [notFound] at same
      exact ⟨rfl, (Prod.mk.inj same).2⟩
    · rw [notFound] at same
      simp at same
  · rcases receives_cases again with ⟨same, -⟩ | ⟨_, _, _, same, otherEnds⟩
    · rw [found] at same
      simp at same
    · rw [found] at same
      obtain ⟨opened, rfl⟩ := Prod.mk.inj same
      obtain ⟨rfl, rfl⟩ := Prod.mk.inj (Option.some.inj opened)
      rcases ends with ⟨short, rfl, rfl⟩ | ⟨enough, final, ends, rfl, rfl⟩
      · rcases otherEnds with ⟨-, rfl, rfl⟩ | ⟨enough, -⟩
        · exact ⟨rfl, rfl⟩
        · exact absurd short (Nat.not_lt_of_le enough)
      · rcases otherEnds with ⟨short, -⟩ | ⟨-, final, otherEnds, rfl, rfl⟩
        · exact absurd short (Nat.not_lt_of_le enough)
        · obtain rfl := FaultLoop.ends_unique ends otherEnds
          exact ⟨rfl, rfl⟩

theorem rightRun_iff {writes : List Write}
    (small : ∀ write ∈ writes, write.message.length < 2 ^ 32) (calls : Nat)
    {outcomes : List (Option Frame)}
    (frames : ∀ frame, some frame ∈ outcomes → FrameOf writes frame) :
    RightRun writes calls outcomes ↔ CleanRun writes calls outcomes := by
  induction calls generalizing outcomes with
  | zero => exact Iff.rfl
  | succ calls ih =>
      constructor
      · rintro ⟨result, rest, receives, right, onward⟩
        refine ⟨clean_of_right small frames receives right, fun other otherRest again => ?_⟩
        obtain ⟨-, rfl⟩ := receives_unique receives again
        exact (ih fun frame queued => frames frame
          ((receives_suffix receives).subset queued)).mp onward
      · rintro ⟨clean, onward⟩
        obtain ⟨result, rest, receives, right⟩ := right_of_clean small clean
        exact ⟨result, rest, receives, right, (ih fun frame queued => frames frame
          ((receives_suffix receives).subset queued)).mpr (onward result rest receives)⟩

/-- For any writes, some of which timed out, and any time-outs of the queue,
every call of `receive` ends and returns nothing or one of the messages, if and
only if every call finds the queue in order. -/
theorem receive_right_iff {writes : List Write}
    (small : ∀ write ∈ writes, write.message.length < 2 ^ 32) {frames : List Frame}
    (sent : written 0 writes = some frames) {outcomes : List (Option Frame)}
    (queued : outcomes.filterMap id <+: frames) (calls : Nat) :
    RightRun writes calls outcomes ↔ CleanRun writes calls outcomes := by
  apply rightRun_iff small
  intro frame member
  have among := queued.subset (List.mem_filterMap.mpr ⟨some frame, member, rfl⟩)
  exact @frameOf_written writes [] writes 0 rfl rfl small frames sent frame among

/-- A message of two frames. -/
def twoFrames : List UInt8 :=
  List.replicate (bufsize - overhead + 1) 0

/-- What its first frame holds of it. -/
def twoFramesData : List Byte :=
  (labelled 0 twoFrames).take (bufsize - overhead)

theorem length_twoFrames (index : Nat) :
    (labelled index twoFrames).length = bufsize - overhead + 1 := by
  rw [length_labelled, twoFrames, List.length_replicate]

theorem send_twoFrames : ∃ second more, send (labelled 0 twoFrames) =
    some ((header (bufsize - overhead + 1) ++ twoFramesData) :: second :: more) := by
  have nonempty : labelled 0 twoFrames ≠ [] := by
    simp [← List.length_pos_iff, length_twoFrames]
  have sent := send_eq nonempty (by rw [length_twoFrames]; decide)
    (by rw [length_twoFrames]; decide)
  have size : firstSending (bufsize - overhead + 1) = bufsize - overhead := by decide
  have left : (labelled 0 twoFrames).drop (bufsize - overhead) ≠ [] := by
    rw [← List.length_pos_iff, List.length_drop, length_twoFrames]
    decide
  rw [length_twoFrames, size, ListPieces.pieces_of_ne_nil (by decide) left] at sent
  exact ⟨_, _, sent⟩

theorem twoFramesData_ne_nil : twoFramesData ≠ [] := by
  rw [twoFramesData, ← List.length_pos_iff, List.length_take, length_twoFrames]
  decide

/-- A send that was cut short after one of two frames, and a whole message
behind it. -/
def cutAndWhole : List Write :=
  [⟨twoFrames, 1⟩, ⟨[7], 1⟩]

def cutAndWholeFrames : List Frame :=
  [header (bufsize - overhead + 1) ++ twoFramesData, header 1 ++ labelled 1 [7]]

theorem small_cutAndWhole : ∀ write ∈ cutAndWhole, write.message.length < 2 ^ 32 := by
  unfold cutAndWhole
  rw [List.forall_mem_cons]
  dsimp only
  rw [← length_labelled 0, length_twoFrames]
  decide

theorem written_cutAndWhole : written 0 cutAndWhole = some cutAndWholeFrames := by
  obtain ⟨second, more, cut⟩ := send_twoFrames
  have whole : send (labelled 1 [7]) = some [header 1 ++ labelled 1 [7]] := by
    rw [send_eq (by decide) (by decide) (by decide)]
    have size : firstSending (labelled 1 [7]).length = 1 := by decide
    rw [size]
    simp [labelled]
  rw [cutAndWhole, written, cut, written, whole]
  rfl

theorem receive_right_cutAndWhole :
    RightRun cutAndWhole 2 (none :: cutAndWholeFrames.map some) ↔
      CleanRun cutAndWhole 2 (none :: cutAndWholeFrames.map some) :=
  receive_right_iff small_cutAndWhole written_cutAndWhole (List.prefix_rfl) 2

/-- When the queue took one of the two frames of a message, `receive` does not
return the message or nothing. -/
theorem receive_not_right :
    ¬ ∀ (writes : List Write) (frames : List Frame) (outcomes : List (Option Frame)) (calls : Nat),
      (∀ write ∈ writes, write.message.length < 2 ^ 32) → written 0 writes = some frames →
        outcomes.filterMap id <+: frames → RightRun writes calls outcomes := by
  intro all
  obtain ⟨second, more, sent⟩ := send_twoFrames
  have small : ∀ write ∈ [Write.mk twoFrames 1], write.message.length < 2 ^ 32 := by
    intro write member
    rw [List.mem_singleton.mp member, ← length_labelled 0, length_twoFrames]
    decide
  have cut : written 0 [⟨twoFrames, 1⟩] = some [header (bufsize - overhead + 1) ++ twoFramesData] := by
    rw [written, sent]
    rfl
  have frames : ∀ frame, some frame ∈ [some (header (bufsize - overhead + 1) ++ twoFramesData)] →
      FrameOf [⟨twoFrames, 1⟩] frame := by
    intro frame member
    rw [Option.some.inj (List.mem_singleton.mp member)]
    exact @FrameOf.first _ 0 _ _ _ rfl sent
  have clean := ((rightRun_iff small 1 frames).mp
    (all _ _ [some (header (bufsize - overhead + 1) ++ twoFramesData)] 1 small cut List.prefix_rfl)).1
  rw [Clean, if_pos (by rw [(store_first blank _ twoFramesData).1]; exact numberOf_bytesOf (by decide))]
    at clean
  rcases clean with ⟨index, write, others, listed, again, follows⟩ | ⟨short, -⟩
  · cases index with
    | zero =>
        obtain rfl := Option.some.inj listed
        obtain rfl := (List.cons.inj (Option.some.inj (sent.symm.trans again))).2
        simp at follows
    | succ index => simp at listed
  · rw [List.length_append, header_length] at short
    have := List.length_pos_iff.mpr twoFramesData_ne_nil
    omega

end Rangexx.MessageQueue
