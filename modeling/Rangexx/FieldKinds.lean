import Rangexx.MessageFields

/-!
# Kinds of fields

The cases that are generated for the fields of a message, by the type and the
label that the field is declared with.
-/

namespace WireFormat

variable {Unknown M N Value : Type} (stream : CodedStream Unknown)

/-! ## Numbers -/

section Numbers

variable (number : Nat) (primitive : Primitive Value)

/-- `ReadPrimitive`, and what is done with the value when that went well. -/
def readInto (store : M → Value → M) (message : M) (input : Octets) : M × Option Octets :=
  match primitive.read input with
  | none => (message, none)
  | some (value, rest) => (store message value, some rest)

theorem readInto_length {store : M → Value → M} {message : M} {input rest : Octets}
    (read : (readInto primitive store message input).2 = some rest) :
    rest.length ≤ input.length := by
  unfold readInto at read
  split at read
  · cases read
  · rename_i found
    cases read
    exact primitive.read_length found

/-- A number that is there or not. -/
def scalarField (member : Member M (Option Value)) : WireField M where
  number := number
  wireType := 0
  repeated := false
  read := readInto primitive member.set
  read_length := readInto_length primitive
  readPacked := none
  readPacked_length := nofun
  parts := fun message => (member.get message).toList.map fun value =>
    { bytes := primitive.write value
      size := primitive.size value
      store := fun message => member.set message value }

/-- `repeated uint64`, which is written one by one and may be read packed.  The
values that `ReadRepeatedPrimitive` takes after the first are those whose tag is
next, which the goto behind it takes as well. -/
def repeatedField (member : Member M (List UInt64)) : WireField M where
  number := number
  wireType := 0
  repeated := true
  read := readInto stream.uint64 member.add
  read_length := readInto_length stream.uint64
  readPacked := some fun message input =>
    ((stream.readPacked input).1.foldl member.add message, (stream.readPacked input).2)
  readPacked_length := by
    rintro message input rest read ⟨⟩ found
    exact stream.readPacked_length found
  parts := fun message => (member.get message).map fun value =>
    { bytes := stream.uint64.write value
      size := stream.uint64.size value
      store := fun message => member.add message value }

/-- What a number of an enumeration comes to.  One that is none of its values is
kept among the unknown fields. -/
def storeEnum (ofInt : Int32 → Option Value) (unknown : Member M (List Unknown))
    (member : Member M (Option Value)) (message : M) (value : Int32) : M :=
  match ofInt value with
  | some value => member.set message value
  | none => unknown.add message (stream.addVarint number value.toInt64.toUInt64)

/-- A value of an enumeration. -/
def enumField (ofInt : Int32 → Option Value) (toInt : Value → Int32)
    (unknown : Member M (List Unknown)) (member : Member M (Option Value)) : WireField M where
  number := number
  wireType := 0
  repeated := false
  read := readInto stream.enum (storeEnum stream number ofInt unknown member)
  read_length := readInto_length stream.enum
  readPacked := none
  readPacked_length := nofun
  parts := fun message => (member.get message).toList.map fun value =>
    { bytes := stream.enum.write (toInt value)
      size := stream.enum.size (toInt value)
      store := fun message => member.set message value }

end Numbers

/-! ## Strings -/

section Strings

variable (number : Nat)

/-- A string that is there or not.  It is made before it is read, so that it is
there also when the reading fails. -/
def stringField (member : Member M (Option Octets)) : WireField M where
  number := number
  wireType := 2
  repeated := false
  read := fun message input =>
    let (text, left) := stream.readString ((member.get message).getD []) input
    (member.set message text, left)
  read_length := stream.readString_length
  readPacked := none
  readPacked_length := nofun
  parts := fun message => (member.get message).toList.map fun text =>
    { bytes := stream.writeString text
      size := stream.stringSize text
      store := fun message => member.set message text }

def repeatedStringField (member : Member M (List Octets)) : WireField M where
  number := number
  wireType := 2
  repeated := true
  read := fun message input =>
    let (text, left) := stream.readString [] input
    (member.add message text, left)
  read_length := stream.readString_length
  readPacked := none
  readPacked_length := nofun
  parts := fun message => (member.get message).map fun text =>
    { bytes := stream.writeString text
      size := stream.stringSize text
      store := fun message => member.add message text }

end Strings

/-! ## Messages in messages -/

section Messages

variable (type : MessageType Unknown N) (parse : N → Octets → N × Status) (number : Nat)

/-- `ReadMessageNoVirtual` into a message, with the parser of its type, and the
bytes after it. -/
def readMessage (message : N) (input : Octets) : N × Option Octets :=
  match stream.readLimited input with
  | none => (message, none)
  | some (bytes, rest) =>
      let (message, status) := parse message bytes
      (message, if status = .consumed then some rest else none)

theorem readMessage_length {message : N} {input rest : Octets}
    (read : (readMessage stream parse message input).2 = some rest) :
    rest.length ≤ input.length := by
  unfold readMessage at read
  split at read
  · cases read
  · rename_i found
    dsimp only at read
    split at read
    · cases read
      exact stream.readLimited_length found
    · cases read

/-- The length that `ByteSize` has cached, and the message. -/
def writeMessage (message : N) : Octets :=
  stream.uint32.write (.ofNat (byteSize stream type message)) ++ serialize stream type message

/-- `MessageSizeNoVirtual`. -/
def messageSize (message : N) : Nat :=
  stream.uint32.size (.ofNat (byteSize stream type message)) + byteSize stream type message

/-- A message that is there or not, and begins as `clear`. -/
def messageField (clear : N) (member : Member M (Option N)) : WireField M where
  number := number
  wireType := 2
  repeated := false
  read := fun message input =>
    let (inner, left) := readMessage stream parse ((member.get message).getD clear) input
    (member.set message inner, left)
  read_length := readMessage_length stream parse
  readPacked := none
  readPacked_length := nofun
  parts := fun message => (member.get message).toList.map fun inner =>
    { bytes := writeMessage stream type inner
      size := messageSize stream type inner
      store := fun message =>
        member.set message (mergeFrom type ((member.get message).getD clear) inner) }

def repeatedMessageField (clear : N) (member : Member M (List N)) : WireField M where
  number := number
  wireType := 2
  repeated := true
  read := fun message input =>
    let (inner, left) := readMessage stream parse clear input
    (member.add message inner, left)
  read_length := readMessage_length stream parse
  readPacked := none
  readPacked_length := nofun
  parts := fun message => (member.get message).map fun inner =>
    { bytes := writeMessage stream type inner
      size := messageSize stream type inner
      store := fun message => member.add message (mergeFrom type clear inner) }

end Messages

variable {stream} {number : Nat} {type : MessageType Unknown N}
  {parse : N → Octets → N × Status} {clear : N} {primitive : Primitive Value}
  {ofInt : Int32 → Option Value} {toInt : Value → Int32} {unknown : Member M (List Unknown)}

/-! ## Sizes -/

theorem scalarField_counted (documented : primitive.Documented)
    {member : Member M (Option Value)} : (scalarField number primitive member).Counted := by
  intro message part has
  obtain ⟨value, -, rfl⟩ := List.mem_map.mp has
  exact documented.size_eq value

theorem repeatedField_counted (documented : stream.Documented) {member : Member M (List UInt64)} :
    (repeatedField stream number member).Counted := by
  intro message part has
  obtain ⟨value, -, rfl⟩ := List.mem_map.mp has
  exact documented.uint64.size_eq value

theorem enumField_counted (documented : stream.Documented) {member : Member M (Option Value)} :
    (enumField stream number ofInt toInt unknown member).Counted := by
  intro message part has
  obtain ⟨value, -, rfl⟩ := List.mem_map.mp has
  exact documented.enum.size_eq _

theorem stringField_counted (documented : stream.Documented) {member : Member M (Option Octets)} :
    (stringField stream number member).Counted := by
  intro message part has
  obtain ⟨text, -, rfl⟩ := List.mem_map.mp has
  exact documented.stringSize_eq text

theorem repeatedStringField_counted (documented : stream.Documented)
    {member : Member M (List Octets)} : (repeatedStringField stream number member).Counted := by
  intro message part has
  obtain ⟨text, -, rfl⟩ := List.mem_map.mp has
  exact documented.stringSize_eq text

theorem messageSize_eq (documented : stream.Documented)
    (counted : ∀ field ∈ type.fields, field.Counted) (message : N) :
    messageSize stream type message = (writeMessage stream type message).length := by
  unfold messageSize writeMessage
  rw [List.length_append, documented.uint32.size_eq, byteSize_eq_length documented counted]

theorem messageField_counted (documented : stream.Documented)
    (counted : ∀ field ∈ type.fields, field.Counted) {member : Member M (Option N)} :
    (messageField stream type parse number clear member).Counted := by
  intro message part has
  obtain ⟨inner, -, rfl⟩ := List.mem_map.mp has
  exact messageSize_eq documented counted inner

theorem repeatedMessageField_counted (documented : stream.Documented)
    (counted : ∀ field ∈ type.fields, field.Counted) {member : Member M (List N)} :
    (repeatedMessageField stream type parse number clear member).Counted := by
  intro message part has
  obtain ⟨inner, -, rfl⟩ := List.mem_map.mp has
  exact messageSize_eq documented counted inner

/-! ## What is written is read -/

section Reads

variable {source : M}

theorem readInto_write (documented : primitive.Documented) (store : M → Value → M) (message : M)
    (value : Value) (rest : Octets) :
    readInto primitive store message (primitive.write value ++ rest) =
      (store message value, some rest) := by
  unfold readInto
  rw [documented.read_write]

theorem scalarField_reads (documented : primitive.Documented) {member : Member M (Option Value)} :
    (scalarField number primitive member).Reads stream source := by
  intro part has _ target rest
  obtain ⟨value, -, rfl⟩ := List.mem_map.mp has
  exact readInto_write documented member.set target value rest

theorem repeatedField_reads (documented : stream.Documented) {member : Member M (List UInt64)} :
    (repeatedField stream number member).Reads stream source := by
  intro part has _ target rest
  obtain ⟨value, -, rfl⟩ := List.mem_map.mp has
  exact readInto_write documented.uint64 member.add target value rest

theorem enumField_reads (documented : stream.Documented)
    (inverse : ∀ value, ofInt (toInt value) = some value) {member : Member M (Option Value)} :
    (enumField stream number ofInt toInt unknown member).Reads stream source := by
  intro part has _ target rest
  obtain ⟨value, -, rfl⟩ := List.mem_map.mp has
  have stored : storeEnum stream number ofInt unknown member target (toInt value) =
      member.set target value := by
    unfold storeEnum
    rw [inverse]
  exact (readInto_write documented.enum _ target (toInt value) rest).trans (stored ▸ rfl)

theorem stringField_reads (documented : stream.Documented) {member : Member M (Option Octets)} :
    (stringField stream number member).Reads stream source := by
  intro part has fits target rest
  obtain ⟨text, -, rfl⟩ := List.mem_map.mp has
  have short := Nat.le_trans (documented.length_le_writeString text) fits
  simp only [stringField, documented.readString_write short]

theorem repeatedStringField_reads (documented : stream.Documented)
    {member : Member M (List Octets)} :
    (repeatedStringField stream number member).Reads stream source := by
  intro part has fits target rest
  obtain ⟨text, -, rfl⟩ := List.mem_map.mp has
  have short := Nat.le_trans (documented.length_le_writeString text) fits
  simp only [repeatedStringField, documented.readString_write short]

/-- A message that is written behind its length is read into any other. -/
theorem readMessage_write (documented : stream.Documented)
    (counted : ∀ field ∈ type.fields, field.Counted) {inner : N}
    (readable : Readable stream type inner)
    (fits : (writeMessage stream type inner).length ≤ stream.limit) (expects : Bool) (target : N)
    (rest : Octets) :
    readMessage stream (parseMessage stream type expects) target
        (writeMessage stream type inner ++ rest) = (mergeFrom type target inner, some rest) := by
  unfold writeMessage at fits ⊢
  rw [List.length_append] at fits
  have short : (serialize stream type inner).length ≤ stream.limit := by omega
  have parsed := mergePartialFromCodedStream_serialize documented readable short target
  rw [mergePartialFromCodedStream_eq_mergePlainly documented] at parsed
  unfold readMessage
  rw [List.append_assoc, byteSize_eq_length documented counted,
    documented.readLimited_write short, parseMessage_eq documented]
  dsimp only
  rw [parsed]
  rfl

theorem messageField_reads (documented : stream.Documented)
    (counted : ∀ field ∈ type.fields, field.Counted) {expects : Bool}
    {member : Member M (Option N)}
    (readable : ∀ inner ∈ member.get source, Readable stream type inner) :
    (messageField stream type (parseMessage stream type expects) number clear member).Reads stream
      source := by
  intro part has fits target rest
  obtain ⟨inner, inside, rfl⟩ := List.mem_map.mp has
  have isReadable := readable inner (Option.mem_toList.mp inside)
  simp only [messageField, readMessage_write documented counted isReadable fits]

theorem repeatedMessageField_reads (documented : stream.Documented)
    (counted : ∀ field ∈ type.fields, field.Counted) {expects : Bool}
    {member : Member M (List N)}
    (readable : ∀ inner ∈ member.get source, Readable stream type inner) :
    (repeatedMessageField stream type (parseMessage stream type expects) number clear member).Reads
      stream source := by
  intro part has fits target rest
  obtain ⟨inner, inside, rfl⟩ := List.mem_map.mp has
  have isReadable := readable inner inside
  simp only [repeatedMessageField, readMessage_write documented counted isReadable fits]

end Reads

/-! ## What merging does -/

/-- The values of a field, set or added in a message. -/
def mergeField (field : WireField M) (message source : M) : M :=
  (field.parts source).foldl (fun message part => part.store message) message

theorem mergeFields_cons (field : WireField M) (later : List (WireField M)) (message source : M) :
    mergeFields (field :: later) message source =
      mergeFields later (mergeField field message source) source :=
  rfl

variable {message source : M}

theorem mergeField_scalar {member : Member M (Option Value)} :
    mergeField (scalarField number primitive member) message source =
      member.put message (member.get source <|> member.get message) := by
  rw [← member.foldl_set]
  exact List.foldl_map

theorem mergeField_enum {member : Member M (Option Value)} :
    mergeField (enumField stream number ofInt toInt unknown member) message source =
      member.put message (member.get source <|> member.get message) := by
  rw [← member.foldl_set]
  exact List.foldl_map

theorem mergeField_string {member : Member M (Option Octets)} :
    mergeField (stringField stream number member) message source =
      member.put message (member.get source <|> member.get message) := by
  rw [← member.foldl_set]
  exact List.foldl_map

theorem mergeField_repeated {member : Member M (List UInt64)} :
    mergeField (repeatedField stream number member) message source =
      member.put message (member.get message ++ member.get source) := by
  rw [← member.foldl_add]
  exact List.foldl_map

theorem mergeField_repeatedString {member : Member M (List Octets)} :
    mergeField (repeatedStringField stream number member) message source =
      member.put message (member.get message ++ member.get source) := by
  rw [← member.foldl_add]
  exact List.foldl_map

/-- A message that is there is merged into the one that the message has, or into
a clear one. -/
theorem mergeField_message {member : Member M (Option N)} :
    mergeField (messageField stream type parse number clear member) message source =
      member.put message ((member.get source).map
        (mergeFrom type ((member.get message).getD clear)) <|> member.get message) := by
  unfold mergeField messageField
  dsimp only
  cases member.get source with
  | none => exact (member.put_get message).symm
  | some inner => rfl

/-- Messages are added as they are when merging one into a clear one gives it
back. -/
theorem mergeField_repeatedMessage {member : Member M (List N)}
    (fills : ∀ inner, mergeFrom type clear inner = inner) :
    mergeField (repeatedMessageField stream type parse number clear member) message source =
      member.put message (member.get message ++ member.get source) := by
  rw [← member.foldl_add]
  unfold mergeField repeatedMessageField
  simp only [fills]
  exact List.foldl_map

end WireFormat
