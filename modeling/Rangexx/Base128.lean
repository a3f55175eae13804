import Mathlib.Tactic.Ring
import Rangexx.CodedStream

/-!
# Base 128

The wire format itself: numbers in groups of seven bits, of which every one but
the last has the top bit set, and strings behind their lengths.  It is what the
documentation promises of a coded stream.
-/

namespace WireFormat

namespace Base128

/-! ## Varints -/

/-- A number in at most some groups. -/
def writeVarint : Nat → Nat → Octets
  | 0, _ => []
  | groups + 1, value =>
      if value < 128 then [.ofNat value]
      else .ofNat (value % 128 + 128) :: writeVarint groups (value / 128)

/-- A number of at most some groups, and the bytes after it. -/
def readVarint : Nat → Octets → Option (Nat × Octets)
  | 0, _ => none
  | _, [] => none
  | groups + 1, byte :: rest =>
      if byte.toNat < 128 then some (byte.toNat, rest)
      else (readVarint groups rest).map fun found => (byte.toNat % 128 + 128 * found.1, found.2)

/-- One group in front of what the rest of the groups comes to. -/
theorem readVarint_group {groups : Nat} {group : Nat} (small : group < 128) {input rest : Octets}
    {value : Nat} (read : readVarint groups input = some (value, rest)) :
    readVarint (groups + 1) (.ofNat (group + 128) :: input) = some (group + 128 * value, rest) := by
  have byte : (UInt8.ofNat (group + 128)).toNat = group + 128 := by
    rw [UInt8.toNat_ofNat']
    omega
  rw [readVarint, byte, if_neg (by omega), read]
  simp only [Option.map_some, Option.some.injEq, Prod.mk.injEq, and_true]
  omega

theorem readVarint_writeVarint {groups value : Nat} (fits : value < 128 ^ (groups + 1))
    (rest : Octets) :
    readVarint (groups + 1) (writeVarint (groups + 1) value ++ rest) = some (value, rest) := by
  induction groups generalizing value with
  | zero =>
      have byte : (UInt8.ofNat value).toNat = value := by
        rw [UInt8.toNat_ofNat']
        omega
      rw [writeVarint, if_pos (by omega), List.singleton_append, readVarint, byte,
        if_pos (by omega)]
  | succ groups ih =>
      rw [writeVarint]
      by_cases last : value < 128
      · have byte : (UInt8.ofNat value).toNat = value := by
          rw [UInt8.toNat_ofNat']
          omega
        rw [if_pos last, List.singleton_append, readVarint, byte, if_pos last]
      · have fewer : value / 128 < 128 ^ (groups + 1) := by
          rw [Nat.pow_succ] at fits
          omega
        have parts : value % 128 + 128 * (value / 128) = value := Nat.mod_add_div value 128
        rw [if_neg last, List.cons_append, readVarint_group (by omega) (ih fewer), parts]

theorem readVarint_length {groups value : Nat} {input rest : Octets}
    (read : readVarint groups input = some (value, rest)) : rest.length < input.length := by
  induction groups generalizing input value rest with
  | zero => cases read
  | succ groups ih =>
      cases input with
      | nil => cases read
      | cons byte input =>
          rw [readVarint] at read
          split at read
          · cases read
            exact Nat.lt_succ_self _
          · obtain ⟨found, isFound, same⟩ := Option.map_eq_some_iff.mp read
            cases same
            have shorter := ih isFound
            rw [List.length_cons]
            omega

theorem writeVarint_length {groups value : Nat} (small : value < 128) :
    (writeVarint (groups + 1) value).length = 1 := by
  rw [writeVarint, if_pos small]
  rfl

/-! ## Values -/

/-- A type whose values are numbers below `2 ^ 64`. -/
def varint {Value : Type} (ofNat : Nat → Value) (toNat : Value → Nat) : Primitive Value where
  read := fun input => (readVarint 10 input).map fun found => (ofNat found.1, found.2)
  write := fun value => writeVarint 10 (toNat value)
  size := fun value => (writeVarint 10 (toNat value)).length
  read_length := by
    intro input rest value read
    obtain ⟨found, isFound, same⟩ := Option.map_eq_some_iff.mp read
    cases same
    exact Nat.le_of_lt (readVarint_length isFound)

theorem varint_documented {Value : Type} {ofNat : Nat → Value} {toNat : Value → Nat}
    (inverse : ∀ value, ofNat (toNat value) = value) (fits : ∀ value, toNat value < 2 ^ 64) :
    (varint ofNat toNat).Documented where
  read_write := by
    intro value rest
    have small : toNat value < 128 ^ 10 := Nat.lt_trans (fits value) (by decide)
    simp only [varint, readVarint_writeVarint small, Option.map_some, inverse]
  size_eq := fun _ => rfl

/-! ## Lengths -/

/-- A length and as many bytes behind it. -/
def readDelimited (input : Octets) : Option (Octets × Octets) :=
  match readVarint 10 input with
  | none => none
  | some (length, rest) =>
      if length ≤ rest.length then some (rest.take length, rest.drop length) else none

def writeDelimited (text : Octets) : Octets :=
  writeVarint 10 text.length ++ text

theorem readDelimited_write {text : Octets} (fits : text.length < 2 ^ 32) (rest : Octets) :
    readDelimited (writeVarint 10 text.length ++ (text ++ rest)) = some (text, rest) := by
  unfold readDelimited
  rw [readVarint_writeVarint (Nat.lt_trans fits (by decide))]
  simp

theorem readDelimited_length {input text rest : Octets}
    (read : readDelimited input = some (text, rest)) : rest.length ≤ input.length := by
  unfold readDelimited at read
  split at read
  · cases read
  · rename_i length after found
    have shorter := readVarint_length found
    split at read
    · cases read
      rw [List.length_drop]
      omega
    · cases read

/-- The numbers in a packed field. -/
def readAll : Nat → Octets → List UInt64
  | 0, _ => []
  | most + 1, input =>
      match readVarint 10 input with
      | none => []
      | some (value, rest) => .ofNat value :: readAll most rest

/-! ## Tags and unknown fields -/

/-- An unknown field of one of the two wire types that are in use. -/
structure UnknownField where
  number : Nat
  inRange : 0 < number ∧ number < 2 ^ 29
  value : UInt64 ⊕ Octets
  deriving DecidableEq

namespace UnknownField

def tag (field : UnknownField) : Nat :=
  8 * field.number + field.value.elim (fun _ => 0) fun _ => 2

def write (field : UnknownField) : Octets :=
  field.value.elim (fun value => writeVarint 10 value.toNat) writeDelimited

theorem tag_div (field : UnknownField) : field.tag / 8 = field.number := by
  obtain ⟨number, inRange, value | text⟩ := field
  · simp [tag]
  · simp only [tag, Sum.elim_inr]
    omega

end UnknownField

def readTag (input : Octets) : TagRead :=
  match input with
  | [] => .ended
  | _ :: _ =>
      match readVarint 10 input with
      | none => .malformed
      | some (value, rest) => if value % 2 ^ 32 = 0 then .malformed else .tag (value % 2 ^ 32) rest

theorem readTag_write {tag : Nat} (positive : 0 < tag) (small : tag < 2 ^ 32) (rest : Octets) :
    readTag (writeVarint 10 tag ++ rest) = .tag tag rest := by
  have read := readVarint_writeVarint (Nat.lt_trans small (by decide : 2 ^ 32 < 128 ^ 10)) rest
  cases isInput : writeVarint 10 tag ++ rest with
  | nil =>
      rw [isInput] at read
      cases read
  | cons byte input =>
      rw [isInput] at read
      have modulo : tag % 2 ^ 32 = tag := Nat.mod_eq_of_lt small
      simp only [readTag, read, modulo, if_neg (Nat.ne_of_gt positive)]

/-- A tag that is next, as it would be written. -/
def expectTag (tag : Nat) (input : Octets) : Option Octets :=
  let written := writeVarint 10 tag
  if 0 < tag ∧ tag < 2 ^ 32 ∧ input.take written.length = written then
    some (input.drop written.length)
  else none

/-- `SkipField`, and the fields it adds. -/
def skipField (tag : Nat) (input : Octets) : List UnknownField × Option Octets :=
  if inRange : 0 < tag / 8 ∧ tag / 8 < 2 ^ 29 then
    if tag % 8 = 0 then
      match readVarint 10 input with
      | none => ([], none)
      | some (value, rest) => ([⟨tag / 8, inRange, .inl (.ofNat value)⟩], some rest)
    else if tag % 8 = 2 then
      match readDelimited input with
      | none => ([], none)
      | some (text, rest) => ([⟨tag / 8, inRange, .inr text⟩], some rest)
    else ([], none)
  else ([], none)

theorem skipField_write (field : UnknownField) (fits : field.write.length < 2 ^ 32)
    (rest : Octets) :
    skipField field.tag (field.write ++ rest) = ([field], some rest) := by
  obtain ⟨number, inRange, value | text⟩ := field
  · have isNumber : (UnknownField.mk number inRange (.inl value)).tag / 8 = number :=
      UnknownField.tag_div _
    have read := @readVarint_writeVarint 9 value.toNat
      (Nat.lt_trans value.toNat_lt (by decide)) rest
    unfold skipField
    rw [dif_pos (by rw [isNumber]; exact inRange)]
    simp only [isNumber]
    rw [if_pos (by simp [UnknownField.tag])]
    simp [UnknownField.write, read]
  · have isNumber : (UnknownField.mk number inRange (.inr text)).tag / 8 = number :=
      UnknownField.tag_div _
    have isType : (UnknownField.mk number inRange (.inr text)).tag % 8 = 2 := by
      simp [UnknownField.tag]
    have short : text.length < 2 ^ 32 := by
      simp only [UnknownField.write, Sum.elim_inr, writeDelimited, List.length_append] at fits
      omega
    unfold skipField
    rw [dif_pos (by rw [isNumber]; exact inRange)]
    simp only [isNumber, isType]
    simp [UnknownField.write, writeDelimited, readDelimited_write short]

/-- An `int` as the 64 bits that are written. -/
def intToNat (value : Int32) : Nat :=
  value.toInt64.toUInt64.toNat

def intOfNat (value : Nat) : Int32 :=
  (UInt64.ofNat value).toInt64.toInt32

def boolOfNat (value : Nat) : Bool :=
  value ≠ 0

theorem intOfNat_toNat (value : Int32) : intOfNat (intToNat value) = value := by
  simp [intOfNat, intToNat]

theorem boolOfNat_toNat (value : Bool) : boolOfNat value.toNat = value := by
  cases value <;> rfl

/-! ## The stream -/

end Base128

open Base128 in
/-- A stream in base 128, with the limit that is the default. -/
def base128 : CodedStream UnknownField where
  limit := 67108864
  uint32 := varint UInt32.ofNat UInt32.toNat
  uint64 := varint UInt64.ofNat UInt64.toNat
  bool := varint boolOfNat Bool.toNat
  enum := varint intOfNat intToNat
  readTag := readTag
  readTag_length := by
    intro input rest tag read
    unfold readTag at read
    split at read
    · cases read
    · split at read
      · cases read
      · rename_i found
        split at read
        · cases read
        · cases read
          exact readVarint_length found
  expectTag := expectTag
  expectAtEnd := List.isEmpty
  writeTag := writeVarint 10
  readString := fun held input =>
    match readDelimited input with
    | none => (held, none)
    | some (text, rest) => (text, some rest)
  readString_length := by
    intro held input rest read
    split at read
    · cases read
    · rename_i found
      cases read
      exact readDelimited_length found
  writeString := writeDelimited
  stringSize := fun text => (writeDelimited text).length
  readLimited := readDelimited
  readLimited_length := readDelimited_length
  readPacked := fun input =>
    match readDelimited input with
    | none => ([], none)
    | some (text, rest) => (readAll text.length text, some rest)
  readPacked_length := by
    intro input rest read
    split at read
    · cases read
    · rename_i found
      cases read
      exact readDelimited_length found
  skipField := skipField
  skipField_length := by
    intro tag input rest read
    unfold skipField at read
    split at read
    · split at read
      · split at read
        · cases read
        · rename_i found
          cases read
          exact Nat.le_of_lt (readVarint_length found)
      · split at read
        · split at read
          · cases read
          · rename_i found
            cases read
            exact readDelimited_length found
        · cases read
    · cases read
  addVarint := fun number value =>
    if inRange : 0 < number ∧ number < 2 ^ 29 then ⟨number, inRange, .inl value⟩
    else ⟨1, by decide, .inl value⟩
  unknownTag := UnknownField.tag
  writeUnknown := UnknownField.write
  unknownSize := fun field => (writeVarint 10 field.tag ++ field.write).length

open Base128 in
theorem base128_documented : base128.Documented where
  uint32 := varint_documented (fun value => by simp) fun value =>
    Nat.lt_trans value.toNat_lt (by decide)
  uint64 := varint_documented (fun value => by simp) fun value => value.toNat_lt
  bool := varint_documented boolOfNat_toNat fun value =>
    Nat.lt_of_lt_of_le (Bool.toNat_lt value) (by decide)
  enum := varint_documented intOfNat_toNat fun _ => UInt64.toNat_lt _
  readTag_nil := rfl
  readTag_of_expectTag := by
    intro tag input rest expected
    simp only [base128, expectTag] at expected
    split at expected
    · rename_i isNext
      obtain ⟨positive, small, starts⟩ := isNext
      cases expected
      have whole := List.take_append_drop (writeVarint 10 tag).length input
      rw [starts] at whole
      have read := readTag_write positive small (input.drop (writeVarint 10 tag).length)
      rwa [whole] at read
    · cases expected
  readTag_of_expectAtEnd := by
    intro input atEnd
    obtain rfl := List.isEmpty_iff.mp atEnd
    rfl
  readTag_writeTag := readTag_write
  writeTag_length := writeVarint_length
  readString_write := by
    intro text fits held rest
    have read := readDelimited_write (Nat.lt_of_le_of_lt fits (by decide)) rest
    simp only [base128, writeDelimited, List.append_assoc, read]
  length_le_writeString := by
    intro text
    simp only [base128, writeDelimited, List.length_append]
    omega
  stringSize_eq := fun _ => rfl
  readLimited_write := by
    intro message fits rest
    have small : message.length < 2 ^ 32 := Nat.lt_of_le_of_lt fits (by decide)
    have length : (UInt32.ofNat message.length).toNat = message.length := by
      rw [UInt32.toNat_ofNat']
      omega
    simp only [base128, varint, length]
    exact readDelimited_write small rest
  unknownTag_pos := by
    intro field
    have positive := field.inRange.1
    change 0 < field.tag
    unfold UnknownField.tag
    omega
  unknownTag_lt := by
    intro field
    obtain ⟨number, inRange, value | text⟩ := field
    · simp only [base128, UnknownField.tag, Sum.elim_inl]
      omega
    · simp only [base128, UnknownField.tag, Sum.elim_inr]
      omega
  unknownTag_mod := by
    intro field
    obtain ⟨number, inRange, value | text⟩ := field
    · simp only [base128, UnknownField.tag, Sum.elim_inl]
      omega
    · simp only [base128, UnknownField.tag, Sum.elim_inr]
      omega
  skipField_write := by
    intro field fits rest
    exact skipField_write field (Nat.lt_of_le_of_lt fits (by decide)) rest
  unknownSize_eq := fun _ => rfl

end WireFormat
