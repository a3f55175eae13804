import Rangexx.CodedStream
import Rangexx.ReturningRuns

/-!
# Messages by their fields

What the code that is generated for a message has in common: the parser, which
reads a tag and jumps to the label of its field, and tries there the tags that
come next before it reads one again; and the functions that write the fields in
order, count their sizes and merge a message into another.
-/

namespace WireFormat

open ReturningRun

/-! ## Fields -/

/-- A member of a message, as its accessors see it. -/
structure Member (M Value : Type) where
  get : M → Value
  put : M → Value → M
  put_get (message : M) : put message (get message) = message := by intros; rfl
  get_put (message : M) (value : Value) : get (put message value) = value := by intros; rfl
  put_put (message : M) (first second : Value) :
    put (put message first) second = put message second := by intros; rfl

namespace Member

variable {M Value : Type}

/-- `set_`. -/
def set (member : Member M (Option Value)) (message : M) (value : Value) : M :=
  member.put message (some value)

/-- `add_`. -/
def add (member : Member M (List Value)) (message : M) (value : Value) : M :=
  member.put message (member.get message ++ [value])

/-- A value that is there replaces the one that the message has. -/
theorem foldl_set (member : Member M (Option Value)) (message : M) (value : Option Value) :
    value.toList.foldl member.set message =
      member.put message (value <|> member.get message) := by
  cases value with
  | none => exact (member.put_get message).symm
  | some value => rfl

theorem foldl_add (member : Member M (List Value)) (message : M) (values : List Value) :
    values.foldl member.add message = member.put message (member.get message ++ values) := by
  induction values generalizing message with
  | nil => rw [List.append_nil, member.put_get]; rfl
  | cons value values ih =>
      rw [List.foldl_cons, ih, add, member.get_put, member.put_put, List.append_assoc,
        List.singleton_append]

end Member

/-- One value that a message has of a field: the bytes behind its tag, their
number as it is counted, and what setting or adding the value does. -/
structure Part (M : Type) where
  bytes : Octets
  size : Nat
  store : M → M

/-- The case of a field in the parser, and what is written of the field. -/
structure WireField (M : Type) where
  number : Nat
  wireType : Nat
  repeated : Bool
  /-- What stands at the label of the field. -/
  read : M → Octets → M × Option Octets
  read_length {message : M} {input rest : Octets} :
    (read message input).2 = some rest → rest.length ≤ input.length
  /-- The other wire type that a repeated number can have. -/
  readPacked : Option (M → Octets → M × Option Octets)
  readPacked_length {message : M} {input rest : Octets} :
    ∀ read ∈ readPacked, (read message input).2 = some rest → rest.length ≤ input.length
  parts : M → List (Part M)

/-- The tag in front of a value. -/
def WireField.tag {M : Type} (field : WireField M) : Nat :=
  8 * field.number + field.wireType

/-- The fields of a message in the order of their numbers, and its unknown
fields. -/
structure MessageType (Unknown M : Type) where
  fields : List (WireField M)
  unknownFields : Member M (List Unknown)
  numbered : (fields.map WireField.number).Nodup ∧
    ∀ field ∈ fields, 0 < field.number ∧ field.number < 16 ∧ field.wireType < 8

/-- Fields that are numbered from 1 on. -/
theorem numbered_of_range {M : Type} {fields : List (WireField M)} (count : Nat)
    (numbers : fields.map WireField.number = List.range' 1 count)
    (types : (fields.map WireField.wireType).all (· < 8)) (small : count < 16) :
    (fields.map WireField.number).Nodup ∧
      ∀ field ∈ fields, 0 < field.number ∧ field.number < 16 ∧ field.wireType < 8 := by
  constructor
  · rw [numbers]
    exact List.nodup_range'
  · intro field member
    have isNumber : field.number ∈ List.range' 1 count :=
      numbers ▸ List.mem_map_of_mem member
    have isType := List.all_eq_true.mp types _ (List.mem_map_of_mem member)
    rw [List.mem_range'_1] at isNumber
    rw [decide_eq_true_eq] at isType
    omega

/-- The message with more unknown fields. -/
def MessageType.addUnknown {Unknown M : Type} (type : MessageType Unknown M) (message : M)
    (unknown : List Unknown) : M :=
  type.unknownFields.put message (type.unknownFields.get message ++ unknown)

theorem MessageType.addUnknown_nil {Unknown M : Type} (type : MessageType Unknown M)
    (message : M) : type.addUnknown message [] = message := by
  rw [addUnknown, List.append_nil, type.unknownFields.put_get]

theorem MessageType.addUnknown_append {Unknown M : Type} (type : MessageType Unknown M)
    (message : M) (first second : List Unknown) :
    type.addUnknown message (first ++ second) =
      type.addUnknown (type.addUnknown message first) second := by
  unfold addUnknown
  rw [type.unknownFields.get_put, type.unknownFields.put_put, List.append_assoc]

/-! ## The parser -/

/-- What a parser returns, and whether the message was then at its end:
`ConsumedEntireMessage`. -/
inductive Status where
  | failed
  | unfinished
  | consumed
  deriving DecidableEq, Repr

/-- The parser between two fields.  It is at the label of the first of some
fields, or where it reads a tag. -/
structure Reader (M : Type) where
  label : List (WireField M)
  message : M
  input : Octets

/-- Where a case goes on: out of the parser, or to some label. -/
inductive Jump (M : Type) where
  | finish
  | goto (label : List (WireField M)) (rest : Octets)

variable {Unknown M : Type} (stream : CodedStream Unknown)

/-- The end of the case of a field, after a goto to the label of a field whose
tag is next. -/
def jumpExpected (label : List (WireField M)) (rest : Octets) : Jump M :=
  match label with
  | [] => .goto [] rest
  | field :: later =>
      match if field.repeated then stream.expectTag field.tag rest else none with
      | some rest => .goto (field :: later) rest
      | none =>
          match later with
          | [] => if stream.expectAtEnd rest then .finish else .goto [] rest
          | following :: others =>
              match stream.expectTag following.tag rest with
              | some rest => .goto (following :: others) rest
              | none => .goto [] rest

/-- The end of a case that tries nothing. -/
def jumpNowhere (_ : List (WireField M)) (rest : Octets) : Jump M :=
  .goto [] rest

/-- The fields from that of a number on. -/
def fieldsFrom (fields : List (WireField M)) (number : Nat) : List (WireField M) :=
  fields.dropWhile fun field => field.number != number

variable (type : MessageType Unknown M) (jump : List (WireField M) → Octets → Jump M)

/-- What follows on the value of a field, or on the failure to read it. -/
def afterField (label : List (WireField M)) : M × Option Octets → Step (Reader M) (M × Status)
  | (message, none) => .done (message, .failed)
  | (message, some rest) =>
      match jump label rest with
      | .finish => .done (message, .consumed)
      | .goto label rest => .next ⟨label, message, rest⟩

/-- `handle_uninterpreted`. -/
def handleUninterpreted (message : M) (tag : Nat) (input : Octets) :
    Step (Reader M) (M × Status) :=
  if tag % 8 = 4 then .done (message, .unfinished)
  else
    match stream.skipField tag input with
    | (unknown, none) => .done (type.addUnknown message unknown, .failed)
    | (unknown, some rest) => .next ⟨[], type.addUnknown message unknown, rest⟩

/-- The switch on a tag. -/
def switchTag (message : M) (tag : Nat) (input : Octets) : Step (Reader M) (M × Status) :=
  match fieldsFrom type.fields (tag / 8) with
  | [] => handleUninterpreted stream type message tag input
  | field :: later =>
      if tag % 8 = field.wireType then .next ⟨field :: later, message, input⟩
      else
        match field.readPacked with
        | none => handleUninterpreted stream type message tag input
        | some readPacked =>
            if tag % 8 = 2 then afterField jump (field :: later) (readPacked message input)
            else handleUninterpreted stream type message tag input

/-- A turn of the parser. -/
def turn (reader : Reader M) : Step (Reader M) (M × Status) :=
  match reader.label with
  | field :: later => afterField jump (field :: later) (field.read reader.message reader.input)
  | [] =>
      match stream.readTag reader.input with
      | .ended => .done (reader.message, .consumed)
      | .malformed => .done (reader.message, .unfinished)
      | .tag tag rest => switchTag stream type jump reader.message tag rest

/-- More turns than the parser takes on what is left of its input. -/
def turns (reader : Reader M) : Nat :=
  match reader.label with
  | [] => 2 * reader.input.length + 1
  | _ :: _ => 2 * reader.input.length + 2

/-- A parser that goes on as `jump` says. -/
def parseWith (message : M) (input : Octets) : M × Status :=
  (run (turn stream type jump) (turns (⟨[], message, input⟩ : Reader M) + 1)
    ⟨[], message, input⟩).getD (message, .failed)

/-- `MergePartialFromCodedStream`. -/
def mergePartialFromCodedStream (message : M) (input : Octets) : M × Status :=
  parseWith stream type (jumpExpected stream) message input

/-- `MergePartialFromCodedStream` without what it expects: a tag is read before
every field. -/
def mergePlainly (message : M) (input : Octets) : M × Status :=
  parseWith stream type jumpNowhere message input

/-- One of the two parsers. -/
def parseMessage (expects : Bool) : M → Octets → M × Status :=
  if expects then mergePartialFromCodedStream stream type else mergePlainly stream type

/-- `ParseFromString`: what it returns, and the message it leaves. -/
def parseFromString (clear : M) (isInitialized : M → Bool) (data : Octets) : Bool × M :=
  let (message, status) := mergePartialFromCodedStream stream type clear data
  (status = .consumed && isInitialized message, message)

/-! ## Writing and merging -/

/-- `SerializeWithCachedSizes`. -/
def serialize (message : M) : Octets :=
  (type.fields.flatMap fun field => (field.parts message).flatMap fun part =>
      stream.writeTag field.tag ++ part.bytes) ++
    (type.unknownFields.get message).flatMap fun unknown =>
      stream.writeTag (stream.unknownTag unknown) ++ stream.writeUnknown unknown

/-- `ByteSize`.  Every tag is counted as one byte. -/
def byteSize (message : M) : Nat :=
  ((type.fields.map fun field => ((field.parts message).map fun part => 1 + part.size).sum).sum) +
    ((type.unknownFields.get message).map stream.unknownSize).sum

/-- The fields of a message, set or added in the order in which they are
written. -/
def mergeFields (fields : List (WireField M)) (message source : M) : M :=
  fields.foldl (fun message field =>
    (field.parts source).foldl (fun message part => part.store message) message) message

/-- `MergeFrom`, in the order of the fields. -/
def mergeFrom (message source : M) : M :=
  type.addUnknown (mergeFields type.fields message source) (type.unknownFields.get source)

/-! ## The parser comes to an end -/

variable {stream type jump} {message : M} {input rest : Octets} {label : List (WireField M)}
  {reader : Reader M} {result : M × Status}

/-- A jump takes no more than what it is given. -/
def Consumes (jump : List (WireField M) → Octets → Jump M) : Prop :=
  ∀ label rest next after, jump label rest = .goto next after →
    ∀ message, turns ⟨next, message, after⟩ ≤ 2 * rest.length + 1

theorem jumpNowhere_consumes : Consumes (@jumpNowhere M) := by
  rintro label rest next after ⟨⟩ message
  exact Nat.le_refl _

/-- Where the end of a case goes: out of the parser at the end of the message, to
where a tag is read, or to a label whose tag was next. -/
theorem jumpExpected_cases (field : WireField M) (later : List (WireField M)) (rest : Octets) :
    (jumpExpected stream (field :: later) rest = .finish ∧ stream.expectAtEnd rest = true) ∨
      jumpExpected stream (field :: later) rest = .goto [] rest ∨
      ∃ next others after, jumpExpected stream (field :: later) rest =
          .goto (next :: others) after ∧
        next :: others <:+ field :: later ∧ stream.expectTag next.tag rest = some after := by
  cases own : if field.repeated then stream.expectTag field.tag rest else none with
  | some after =>
      have expected : stream.expectTag field.tag rest = some after := by
        split at own
        · exact own
        · cases own
      refine .inr (.inr ⟨field, later, after, ?_, List.suffix_refl _, expected⟩)
      simp only [jumpExpected, own]
  | none =>
      cases later with
      | nil =>
          cases atEnd : stream.expectAtEnd rest with
          | true => exact .inl ⟨by simp [jumpExpected, own, atEnd], rfl⟩
          | false => exact .inr (.inl (by simp [jumpExpected, own, atEnd]))
      | cons following others =>
          cases expected : stream.expectTag following.tag rest with
          | some after =>
              refine .inr (.inr ⟨following, others, after, ?_, List.suffix_cons _ _, expected⟩)
              simp only [jumpExpected, own, expected]
          | none => exact .inr (.inl (by simp only [jumpExpected, own, expected]))

theorem jumpExpected_consumes (documented : stream.Documented) :
    Consumes (@jumpExpected Unknown M stream) := by
  intro label rest next after goes message
  cases label with
  | nil =>
      cases goes
      exact Nat.le_refl _
  | cons field later =>
      obtain ⟨finishes, -⟩ | stays | ⟨following, others, shorter, jumps, -, expected⟩ :=
        @jumpExpected_cases _ _ stream field later rest
      · rw [finishes] at goes
        cases goes
      · rw [stays] at goes
        cases goes
        exact Nat.le_refl _
      · rw [jumps] at goes
        cases goes
        have less := stream.readTag_length (documented.readTag_of_expectTag expected)
        simp only [turns]
        omega

theorem afterField_smaller (consumes : Consumes jump) {found : M × Option Octets}
    (read : ∀ rest, found.2 = some rest → rest.length ≤ input.length)
    (turned : afterField jump label found = .next reader) :
    turns reader ≤ 2 * input.length + 1 := by
  obtain ⟨message, _ | rest⟩ := found
  · cases turned
  · have shorter := read rest rfl
    dsimp only [afterField] at turned
    cases goes : jump label rest with
    | finish =>
        rw [goes] at turned
        cases turned
    | goto next after =>
        rw [goes] at turned
        cases turned
        have fewer := consumes label rest next after goes message
        omega

theorem handleUninterpreted_smaller {tag : Nat}
    (turned : handleUninterpreted stream type message tag input = .next reader) :
    turns reader ≤ 2 * input.length + 1 := by
  unfold handleUninterpreted at turned
  split at turned
  · cases turned
  · split at turned
    · cases turned
    · rename_i unknown rest skipped
      cases turned
      have shorter : rest.length ≤ input.length :=
        stream.skipField_length (by rw [skipped])
      simp only [turns]
      omega

theorem switchTag_smaller (consumes : Consumes jump) {tag : Nat}
    (turned : switchTag stream type jump message tag input = .next reader) :
    turns reader ≤ 2 * input.length + 2 := by
  unfold switchTag at turned
  split at turned
  · have fewer := handleUninterpreted_smaller turned
    omega
  · rename_i field later _
    split at turned
    · cases turned
      exact Nat.le_refl _
    · split at turned
      · have fewer := handleUninterpreted_smaller turned
        omega
      · rename_i readPacked packed
        split at turned
        · have fewer := afterField_smaller consumes
            (fun rest => field.readPacked_length readPacked packed) turned
          omega
        · have fewer := handleUninterpreted_smaller turned
          omega

/-- A turn leaves fewer turns to take. -/
theorem turn_smaller (consumes : Consumes jump) {before : Reader M}
    (turned : turn stream type jump before = .next reader) : turns reader < turns before := by
  obtain ⟨label, message, input⟩ := before
  cases label with
  | cons field later =>
      have fewer := afterField_smaller consumes (fun rest => field.read_length) turned
      simp only [turns] at fewer ⊢
      omega
  | nil =>
      unfold turn at turned
      dsimp only at turned
      cases tagRead : stream.readTag input with
      | ended =>
          rw [tagRead] at turned
          cases turned
      | malformed =>
          rw [tagRead] at turned
          cases turned
      | tag tag rest =>
          rw [tagRead] at turned
          have shorter := stream.readTag_length tagRead
          have fewer := switchTag_smaller consumes turned
          simp only [turns] at fewer ⊢
          omega

/-- The parser returns. -/
theorem parseWith_eq_iff (consumes : Consumes jump) :
    parseWith stream type jump message input = result ↔
      Returns (turn stream type jump) ⟨[], message, input⟩ result := by
  have comesToEnd (before : Reader M) (_ : True) :
      (∃ next, turn stream type jump before = .next next ∧ True ∧
        turns next < turns before) ∨
        ∃ given, turn stream type jump before = .done given ∧ True := by
    cases turned : turn stream type jump before with
    | next after => exact .inl ⟨after, rfl, trivial, turn_smaller consumes turned⟩
    | done given => exact .inr ⟨given, rfl, trivial⟩
  obtain ⟨found, ran, -⟩ := @exists_run _ _ _ _ id _ _ turns comesToEnd ⟨[], message, input⟩
    trivial _ (Nat.lt_succ_self _)
  have isFound : parseWith stream type jump message input = found :=
    congrArg (Option.getD · _) ran
  have returns : Returns (turn stream type jump) ⟨[], message, input⟩ found := ⟨_, ran⟩
  constructor
  · rintro rfl
    rwa [isFound]
  · intro also
    rw [isFound]
    exact returns.unique also

/-! ## What the parser expects -/

theorem fieldsFrom_suffix (fields : List (WireField M)) (number : Nat) :
    fieldsFrom fields number <:+ fields :=
  List.dropWhile_suffix _

/-- The fields from that of a label on. -/
theorem fieldsFrom_of_suffix {fields later : List (WireField M)} {field : WireField M}
    (nodup : (fields.map WireField.number).Nodup) (suffix : field :: later <:+ fields) :
    fieldsFrom fields field.number = field :: later := by
  obtain ⟨before, rfl⟩ := suffix
  rw [List.map_append, List.map_cons] at nodup
  have others : ∀ other ∈ before, (other.number != field.number) = true := by
    intro other member
    rw [bne_iff_ne]
    intro same
    exact (List.nodup_append.mp nodup).2.2 _ (List.mem_map_of_mem member) _ List.mem_cons_self same
  unfold fieldsFrom
  rw [List.dropWhile_append_of_pos others, List.dropWhile_cons_of_neg (by simp)]

variable {field : WireField M} {later : List (WireField M)}

theorem field_tag (suffix : field :: later <:+ type.fields) :
    field.tag / 8 = field.number ∧ field.tag % 8 = field.wireType ∧ 0 < field.tag ∧
      field.tag < 128 := by
  obtain ⟨positive, small, fits⟩ := type.numbered.2 field (suffix.subset List.mem_cons_self)
  unfold WireField.tag
  omega

/-- The tag of a field leads to its label. -/
theorem switchTag_field (suffix : field :: later <:+ type.fields) :
    switchTag stream type jump message field.tag input =
      .next ⟨field :: later, message, input⟩ := by
  obtain ⟨isNumber, isWireType, -⟩ := field_tag suffix
  unfold switchTag
  rw [isNumber, fieldsFrom_of_suffix type.numbered.1 suffix]
  exact if_pos isWireType

/-- After a field, expecting a tag comes to reading it. -/
theorem afterField_yields (documented : stream.Documented) {found : M × Option Octets}
    (suffix : field :: later <:+ type.fields)
    (alike : ∀ rest, found.2 = some rest → ∀ next : Reader M, next.label <:+ type.fields →
      turns next ≤ 2 * rest.length + 1 →
        (Returns (turn stream type (jumpExpected stream)) next result ↔
          Returns (turn stream type jumpNowhere) next result)) :
    (afterField (jumpExpected stream) (field :: later) found).Yields
        (turn stream type (jumpExpected stream)) result ↔
      (afterField jumpNowhere (field :: later) found).Yields
        (turn stream type jumpNowhere) result := by
  obtain ⟨message, _ | rest⟩ := found
  · exact Iff.rfl
  · change _ ↔ Returns (turn stream type jumpNowhere) ⟨[], message, rest⟩ result
    obtain ⟨finishes, atEnd⟩ | stays | ⟨next, others, after, jumps, among, expected⟩ :=
      @jumpExpected_cases _ _ stream field later rest
    · have ends := documented.readTag_of_expectAtEnd atEnd
      rw [returns_iff_yields]
      simp only [afterField, finishes, turn, ends]
      exact Iff.rfl
    · simp only [afterField, stays]
      exact alike rest rfl _ List.nil_suffix (Nat.le_refl _)
    · have isTag := documented.readTag_of_expectTag expected
      have shorter := stream.readTag_length isTag
      have inFields := among.trans suffix
      have plain : turn stream type jumpNowhere ⟨[], message, rest⟩ =
          .next ⟨next :: others, message, after⟩ := by
        simp only [turn, isTag]
        exact switchTag_field inFields
      rw [returns_next plain]
      simp only [afterField, jumps]
      refine alike rest rfl _ inFields ?_
      simp only [turns]
      omega

theorem handleUninterpreted_yields {tag : Nat}
    (alike : ∀ next : Reader M, next.label <:+ type.fields →
      turns next ≤ 2 * input.length + 1 →
        (Returns (turn stream type (jumpExpected stream)) next result ↔
          Returns (turn stream type jumpNowhere) next result)) :
    (handleUninterpreted stream type message tag input).Yields
        (turn stream type (jumpExpected stream)) result ↔
      (handleUninterpreted stream type message tag input).Yields
        (turn stream type jumpNowhere) result := by
  cases turned : handleUninterpreted stream type message tag input with
  | done given => exact Iff.rfl
  | next after =>
      have atLoop : after.label = [] := by
        unfold handleUninterpreted at turned
        split at turned
        · cases turned
        · split at turned <;> cases turned
          rfl
      exact alike after (atLoop ▸ List.nil_suffix) (handleUninterpreted_smaller turned)

/-- From every label, the parser that expects tags returns what the plain one
does. -/
theorem returns_expected_iff (documented : stream.Documented)
    (suffix : reader.label <:+ type.fields) :
    Returns (turn stream type (jumpExpected stream)) reader result ↔
      Returns (turn stream type jumpNowhere) reader result := by
  induction bound : turns reader using Nat.strongRecOn generalizing reader with
  | _ most ih =>
      have alike (next : Reader M) (among : next.label <:+ type.fields)
          (fewer : turns next < most) := ih _ fewer among rfl
      obtain ⟨label, message, input⟩ := reader
      rw [returns_iff_yields, returns_iff_yields]
      cases label with
      | cons field later =>
          refine afterField_yields documented suffix fun rest read next among fewer =>
            alike next among ?_
          have shorter : rest.length ≤ input.length := field.read_length read
          simp only [turns] at bound
          omega
      | nil =>
          simp only [turns] at bound
          unfold turn
          dsimp only
          cases tagRead : stream.readTag input with
          | ended => exact Iff.rfl
          | malformed => exact Iff.rfl
          | tag tag rest =>
              have shorter := stream.readTag_length tagRead
              have skipped := @handleUninterpreted_yields _ _ stream type message rest result tag
                fun next among fewer => alike next among (by omega)
              dsimp only
              unfold switchTag
              cases isLabel : fieldsFrom type.fields (tag / 8) with
              | nil => exact skipped
              | cons field later =>
                  have inFields : field :: later <:+ type.fields :=
                    isLabel ▸ fieldsFrom_suffix type.fields (tag / 8)
                  dsimp only
                  by_cases typed : tag % 8 = field.wireType
                  · rw [if_pos typed, if_pos typed]
                    refine alike _ inFields ?_
                    simp only [turns]
                    omega
                  · rw [if_neg typed, if_neg typed]
                    cases packed : field.readPacked with
                    | none => exact skipped
                    | some readPacked =>
                        dsimp only
                        by_cases delimited : tag % 8 = 2
                        · rw [if_pos delimited, if_pos delimited]
                          refine afterField_yields documented inFields
                            fun after read next among fewer => alike next among ?_
                          have less := field.readPacked_length readPacked packed read
                          omega
                        · rw [if_neg delimited, if_neg delimited]
                          exact skipped

/-- What a parser expects changes nothing: on every input it returns what the
one does that reads a tag before every field. -/
theorem mergePartialFromCodedStream_eq_mergePlainly (documented : stream.Documented) (message : M)
    (input : Octets) :
    mergePartialFromCodedStream stream type message input =
      mergePlainly stream type message input := by
  refine (parseWith_eq_iff (jumpExpected_consumes documented)).mpr ?_
  rw [returns_expected_iff documented List.nil_suffix]
  exact (parseWith_eq_iff jumpNowhere_consumes).mp rfl

/-- So both parsers are the same. -/
theorem parseMessage_eq (documented : stream.Documented) (expects : Bool) :
    parseMessage stream type expects = mergePlainly stream type := by
  cases expects with
  | false => rfl
  | true =>
      funext message input
      exact mergePartialFromCodedStream_eq_mergePlainly documented message input

/-! ## What is written is read back -/

/-- The sizes of the values of a field are counted right. -/
def WireField.Counted (field : WireField M) : Prop :=
  ∀ message, ∀ part ∈ field.parts message, part.size = part.bytes.length

variable (stream) in
/-- What is written of a field is read at its label. -/
def WireField.Reads (field : WireField M) (source : M) : Prop :=
  ∀ part ∈ field.parts source, part.bytes.length ≤ stream.limit →
    ∀ (target : M) (rest : Octets),
      field.read target (part.bytes ++ rest) = (part.store target, some rest)

variable (stream type) in
/-- An unknown field that no case of the parser takes. -/
def Uninterpreted (unknown : Unknown) : Prop :=
  ∀ field ∈ type.fields, field.number = stream.unknownTag unknown / 8 →
    stream.unknownTag unknown % 8 ≠ field.wireType ∧
      (field.readPacked = none ∨ stream.unknownTag unknown % 8 ≠ 2)

variable (stream type) in
/-- The parser takes what is written of a message for what it is. -/
structure Readable (source : M) : Prop where
  reads : ∀ field ∈ type.fields, field.Reads stream source
  uninterpreted : ∀ unknown ∈ type.unknownFields.get source, Uninterpreted stream type unknown

/-- `ByteSize` is the number of bytes that are serialised. -/
theorem byteSize_eq_length (documented : stream.Documented)
    (counted : ∀ field ∈ type.fields, field.Counted) (message : M) :
    byteSize stream type message = (serialize stream type message).length := by
  have ofField (field : WireField M) (member : field ∈ type.fields) :
      ((field.parts message).map fun part => 1 + part.size).sum =
        ((field.parts message).flatMap fun part =>
          stream.writeTag field.tag ++ part.bytes).length := by
    obtain ⟨before, later, isFields⟩ := List.append_of_mem member
    have suffix : field :: later <:+ type.fields := ⟨before, isFields.symm⟩
    obtain ⟨-, -, -, small⟩ := field_tag suffix
    rw [List.length_flatMap]
    congr 1
    refine List.map_congr_left fun part among => ?_
    rw [List.length_append, documented.writeTag_length small, counted field member _ _ among]
  unfold byteSize serialize
  rw [List.length_append, List.length_flatMap, List.length_flatMap]
  congr 2
  · exact List.map_congr_left ofField
  · exact List.map_congr_left fun unknown _ => documented.unknownSize_eq unknown

/-- A value of a field is read and stored. -/
theorem returns_part (documented : stream.Documented) (suffix : field :: later <:+ type.fields)
    {part : Part M}
    (reads : field.read message (part.bytes ++ rest) = (part.store message, some rest)) :
    Returns (turn stream type jumpNowhere)
        ⟨[], message, (stream.writeTag field.tag ++ part.bytes) ++ rest⟩ result ↔
      Returns (turn stream type jumpNowhere) ⟨[], part.store message, rest⟩ result := by
  obtain ⟨-, -, positive, small⟩ := field_tag suffix
  have isTag := documented.readTag_writeTag positive (by omega) (part.bytes ++ rest)
  have first : turn stream type jumpNowhere
      ⟨[], message, stream.writeTag field.tag ++ (part.bytes ++ rest)⟩ =
        .next ⟨field :: later, message, part.bytes ++ rest⟩ := by
    simp only [turn, isTag]
    exact switchTag_field suffix
  have second : turn stream type jumpNowhere ⟨field :: later, message, part.bytes ++ rest⟩ =
      .next ⟨[], part.store message, rest⟩ := by
    simp only [turn, reads]
    rfl
  rw [List.append_assoc, returns_next first, returns_next second]

theorem returns_parts (documented : stream.Documented) (suffix : field :: later <:+ type.fields)
    {parts : List (Part M)}
    (reads : ∀ part ∈ parts, ∀ (target : M) (rest : Octets),
      field.read target (part.bytes ++ rest) = (part.store target, some rest)) :
    Returns (turn stream type jumpNowhere)
        ⟨[], message,
          (parts.flatMap fun part => stream.writeTag field.tag ++ part.bytes) ++ rest⟩ result ↔
      Returns (turn stream type jumpNowhere)
        ⟨[], parts.foldl (fun message part => part.store message) message, rest⟩ result := by
  induction parts generalizing message with
  | nil => exact Iff.rfl
  | cons part parts ih =>
      rw [List.flatMap_cons, List.append_assoc,
        returns_part documented suffix (reads part List.mem_cons_self _ _)]
      exact ih fun other among => reads other (List.mem_cons_of_mem _ among)

theorem returns_fields (documented : stream.Documented) {source : M}
    {fields : List (WireField M)} (suffix : fields <:+ type.fields)
    (reads : ∀ field ∈ fields, ∀ part ∈ field.parts source, ∀ (target : M) (rest : Octets),
      field.read target (part.bytes ++ rest) = (part.store target, some rest)) :
    Returns (turn stream type jumpNowhere)
        ⟨[], message, (fields.flatMap fun field => (field.parts source).flatMap fun part =>
          stream.writeTag field.tag ++ part.bytes) ++ rest⟩ result ↔
      Returns (turn stream type jumpNowhere) ⟨[], mergeFields fields message source, rest⟩
        result := by
  induction fields generalizing message with
  | nil => exact Iff.rfl
  | cons field later ih =>
      rw [List.flatMap_cons, List.append_assoc,
        returns_parts documented suffix (reads field List.mem_cons_self)]
      exact ih ((List.suffix_cons field later).trans suffix) fun other among =>
        reads other (List.mem_cons_of_mem _ among)

/-- An unknown field is skipped and kept. -/
theorem returns_unknown (documented : stream.Documented) {unknown : Unknown}
    (uninterpreted : Uninterpreted stream type unknown)
    (fits : (stream.writeUnknown unknown).length ≤ stream.limit) :
    Returns (turn stream type jumpNowhere)
        ⟨[], message, (stream.writeTag (stream.unknownTag unknown) ++
          stream.writeUnknown unknown) ++ rest⟩ result ↔
      Returns (turn stream type jumpNowhere) ⟨[], type.addUnknown message [unknown], rest⟩
        result := by
  have isTag := documented.readTag_writeTag (documented.unknownTag_pos unknown)
    (documented.unknownTag_lt unknown) (stream.writeUnknown unknown ++ rest)
  have handled : handleUninterpreted stream type message (stream.unknownTag unknown)
      (stream.writeUnknown unknown ++ rest) =
        .next ⟨[], type.addUnknown message [unknown], rest⟩ := by
    unfold handleUninterpreted
    rw [if_neg (documented.unknownTag_mod unknown), documented.skipField_write fits]
  have switched : switchTag stream type jumpNowhere message (stream.unknownTag unknown)
      (stream.writeUnknown unknown ++ rest) =
        .next ⟨[], type.addUnknown message [unknown], rest⟩ := by
    unfold switchTag
    cases isLabel : fieldsFrom type.fields (stream.unknownTag unknown / 8) with
    | nil => exact handled
    | cons field later =>
        have member : field ∈ type.fields := (fieldsFrom_suffix type.fields _).subset
          (isLabel ▸ List.mem_cons_self)
        have number : field.number = stream.unknownTag unknown / 8 := by
          have head := List.head?_dropWhile_not
            (fun field : WireField M => field.number != stream.unknownTag unknown / 8) type.fields
          rw [show List.dropWhile _ _ = field :: later from isLabel] at head
          simpa using head
        obtain ⟨otherType, unpacked⟩ := uninterpreted field member number
        dsimp only
        rw [if_neg otherType]
        cases packed : field.readPacked with
        | none => exact handled
        | some readPacked =>
            have notDelimited := unpacked.resolve_left (by rw [packed]; exact Option.some_ne_none _)
            dsimp only
            rw [if_neg notDelimited]
            exact handled
  have first : turn stream type jumpNowhere
      ⟨[], message, stream.writeTag (stream.unknownTag unknown) ++
        (stream.writeUnknown unknown ++ rest)⟩ =
        .next ⟨[], type.addUnknown message [unknown], rest⟩ := by
    simp only [turn, isTag]
    exact switched
  rw [List.append_assoc, returns_next first]

theorem returns_unknowns (documented : stream.Documented) {unknowns : List Unknown}
    (uninterpreted : ∀ unknown ∈ unknowns, Uninterpreted stream type unknown)
    (fit : ∀ unknown ∈ unknowns, (stream.writeUnknown unknown).length ≤ stream.limit) :
    Returns (turn stream type jumpNowhere)
        ⟨[], message, (unknowns.flatMap fun unknown =>
          stream.writeTag (stream.unknownTag unknown) ++ stream.writeUnknown unknown) ++ rest⟩
        result ↔
      Returns (turn stream type jumpNowhere) ⟨[], type.addUnknown message unknowns, rest⟩
        result := by
  induction unknowns generalizing message with
  | nil => rw [type.addUnknown_nil]; exact Iff.rfl
  | cons unknown unknowns ih =>
      rw [List.flatMap_cons, List.append_assoc,
        returns_unknown documented (uninterpreted unknown List.mem_cons_self)
          (fit unknown List.mem_cons_self),
        ih (fun other among => uninterpreted other (List.mem_cons_of_mem _ among))
          fun other among => fit other (List.mem_cons_of_mem _ among),
        ← type.addUnknown_append, List.singleton_append]

/-- In front of any input, a serialised message is read as if it were merged
into the message that the parser has so far. -/
theorem returns_serialize (documented : stream.Documented)
    {source : M} (readable : Readable stream type source)
    (fits : (serialize stream type source).length ≤ stream.limit) :
    Returns (turn stream type jumpNowhere)
        ⟨[], message, serialize stream type source ++ rest⟩ result ↔
      Returns (turn stream type jumpNowhere) ⟨[], mergeFrom type message source, rest⟩
        result := by
  unfold serialize at fits ⊢
  rw [List.length_append] at fits
  have fit : ∀ unknown ∈ type.unknownFields.get source,
      (stream.writeUnknown unknown).length ≤ stream.limit := by
    intro unknown among
    have within := (List.sublist_flatten_of_mem (List.mem_map_of_mem (f := fun unknown =>
      stream.writeTag (stream.unknownTag unknown) ++ stream.writeUnknown unknown) among)).length_le
    rw [← List.flatMap_def, List.length_append] at within
    omega
  have reads : ∀ field ∈ type.fields, ∀ part ∈ field.parts source,
      ∀ (target : M) (rest : Octets),
      field.read target (part.bytes ++ rest) = (part.store target, some rest) := by
    intro field member part among
    refine readable.reads field member part among ?_
    have inField := (List.sublist_flatten_of_mem (List.mem_map_of_mem (f := fun part : Part M =>
      stream.writeTag field.tag ++ part.bytes) among)).length_le
    have inFields := (List.sublist_flatten_of_mem (List.mem_map_of_mem (f := fun field =>
      (WireField.parts field source).flatMap fun part => stream.writeTag field.tag ++ part.bytes)
      member)).length_le
    rw [← List.flatMap_def, List.length_append] at inField
    rw [← List.flatMap_def] at inFields
    omega
  rw [List.append_assoc, returns_fields documented (List.suffix_refl _) reads,
    returns_unknowns documented readable.uninterpreted fit]
  exact Iff.rfl

/-- A parser that has read a serialised message goes on as one that has merged
it. -/
theorem mergePartialFromCodedStream_append (documented : stream.Documented)
    {source : M} (readable : Readable stream type source)
    (fits : (serialize stream type source).length ≤ stream.limit) (message : M) (rest : Octets) :
    mergePartialFromCodedStream stream type message (serialize stream type source ++ rest) =
      mergePartialFromCodedStream stream type (mergeFrom type message source) rest := by
  rw [mergePartialFromCodedStream_eq_mergePlainly documented,
    mergePartialFromCodedStream_eq_mergePlainly documented]
  refine (parseWith_eq_iff jumpNowhere_consumes).mpr ?_
  rw [returns_serialize documented readable fits]
  exact (parseWith_eq_iff jumpNowhere_consumes).mp rfl

theorem mergePartialFromCodedStream_nil (documented : stream.Documented) (message : M) :
    mergePartialFromCodedStream stream type message [] = (message, .consumed) := by
  have ends : turn stream type (jumpExpected stream) ⟨[], message, []⟩ =
      .done (message, .consumed) := by
    simp only [turn, documented.readTag_nil]
  exact (parseWith_eq_iff (jumpExpected_consumes documented)).mpr ((returns_done ends).mpr rfl)

/-- Parsing what was serialised merges the message. -/
theorem mergePartialFromCodedStream_serialize (documented : stream.Documented)
    {source : M} (readable : Readable stream type source)
    (fits : (serialize stream type source).length ≤ stream.limit) (message : M) :
    mergePartialFromCodedStream stream type message (serialize stream type source) =
      (mergeFrom type message source, .consumed) := by
  have parsed := mergePartialFromCodedStream_append documented readable fits message []
  rwa [List.append_nil, mergePartialFromCodedStream_nil documented] at parsed

/-- What was serialised is parsed into the message itself, which is all right if
nothing is missing in it. -/
theorem parseFromString_serialize (documented : stream.Documented)
    {source : M} (readable : Readable stream type source)
    (fits : (serialize stream type source).length ≤ stream.limit) {clear : M}
    (fills : mergeFrom type clear source = source) (isInitialized : M → Bool) :
    parseFromString stream type clear isInitialized (serialize stream type source) =
      (isInitialized source, source) := by
  unfold parseFromString
  rw [mergePartialFromCodedStream_serialize documented readable fits, fills]
  simp

end WireFormat
