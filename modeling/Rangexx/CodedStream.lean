import Mathlib.Algebra.Order.Ring.Nat
import Mathlib.Data.List.Basic

/-!
# Coded streams

The functions that generated message code calls to read and write the wire
format, over the bytes that are left up to the current limit.  They belong to a
library of their own, so they are parameters, and `CodedStream.Documented` is
what that library promises of them.
-/

namespace WireFormat

abbrev Octets := List UInt8

/-- The bytes of a text. -/
def octets (text : String) : Octets :=
  text.toByteArray.data.toList

/-- The text of the bytes of a name; names are in UTF-8. -/
def textOf (bytes : Octets) : String :=
  if valid : (ByteArray.mk bytes.toArray).IsValidUTF8 then .ofByteArray _ valid else ""

@[simp]
theorem textOf_octets (text : String) : textOf (octets text) = text := by
  have whole : ByteArray.mk text.toByteArray.data.toList.toArray = text.toByteArray := by
    rw [Array.toArray_toList]
  unfold textOf octets
  rw [dif_pos (by rw [whole]; exact text.isValidUTF8)]

/-- `ReadPrimitive` and the functions that write a value of one type and count
its size. -/
structure Primitive (Value : Type) where
  read : Octets → Option (Value × Octets)
  write : Value → Octets
  size : Value → Nat
  read_length {input rest : Octets} {value : Value} :
    read input = some (value, rest) → rest.length ≤ input.length

structure Primitive.Documented {Value : Type} (primitive : Primitive Value) : Prop where
  read_write (value : Value) (rest : Octets) :
    primitive.read (primitive.write value ++ rest) = some (value, rest)
  size_eq (value : Value) : primitive.size value = (primitive.write value).length

/-- What `ReadTag` finds: the end of the message, something that is no tag, for
which it returns 0 as well, or a tag. -/
inductive TagRead where
  | ended
  | malformed
  | tag (tag : Nat) (rest : Octets)

/-- A coded input stream with a coded output stream.  A function that reads gives
what it has put into its target and, unless it failed, the bytes after it. -/
structure CodedStream (Unknown : Type) where
  /-- How long what is behind a length may be. -/
  limit : Nat
  uint32 : Primitive UInt32
  uint64 : Primitive UInt64
  bool : Primitive Bool
  enum : Primitive Int32
  readTag : Octets → TagRead
  readTag_length {input rest : Octets} {tag : Nat} :
    readTag input = .tag tag rest → rest.length < input.length
  expectTag : Nat → Octets → Option Octets
  expectAtEnd : Octets → Bool
  writeTag : Nat → Octets
  /-- `ReadString` over a string that may hold something. -/
  readString : Octets → Octets → Octets × Option Octets
  readString_length {held input rest : Octets} :
    (readString held input).2 = some rest → rest.length ≤ input.length
  writeString : Octets → Octets
  stringSize : Octets → Nat
  /-- A length, and the bytes that the limit pushed for it leaves to a message. -/
  readLimited : Octets → Option (Octets × Octets)
  readLimited_length {input message rest : Octets} :
    readLimited input = some (message, rest) → rest.length ≤ input.length
  /-- `ReadPackedPrimitive`. -/
  readPacked : Octets → List UInt64 × Option Octets
  readPacked_length {input rest : Octets} :
    (readPacked input).2 = some rest → rest.length ≤ input.length
  /-- `SkipField` with a tag, and the unknown fields it adds. -/
  skipField : Nat → Octets → List Unknown × Option Octets
  skipField_length {tag : Nat} {input rest : Octets} :
    (skipField tag input).2 = some rest → rest.length ≤ input.length
  /-- `AddVarint`. -/
  addVarint : Nat → UInt64 → Unknown
  unknownTag : Unknown → Nat
  /-- An unknown field as it is serialised, behind its tag. -/
  writeUnknown : Unknown → Octets
  unknownSize : Unknown → Nat

namespace CodedStream

variable {Unknown : Type} (stream : CodedStream Unknown)

/-- What the library documents.  An expected tag is one that `ReadTag` would
return, and the end is expected only where no more bytes can be read. -/
structure Documented : Prop where
  uint32 : stream.uint32.Documented
  uint64 : stream.uint64.Documented
  bool : stream.bool.Documented
  enum : stream.enum.Documented
  readTag_nil : stream.readTag [] = .ended
  readTag_of_expectTag {tag : Nat} {input rest : Octets} :
    stream.expectTag tag input = some rest → stream.readTag input = .tag tag rest
  readTag_of_expectAtEnd {input : Octets} :
    stream.expectAtEnd input = true → stream.readTag input = .ended
  readTag_writeTag {tag : Nat} (positive : 0 < tag) (small : tag < 2 ^ 32) (rest : Octets) :
    stream.readTag (stream.writeTag tag ++ rest) = .tag tag rest
  writeTag_length {tag : Nat} (small : tag < 128) : (stream.writeTag tag).length = 1
  readString_write {text : Octets} (fits : text.length ≤ stream.limit) (held rest : Octets) :
    stream.readString held (stream.writeString text ++ rest) = (text, some rest)
  length_le_writeString (text : Octets) : text.length ≤ (stream.writeString text).length
  stringSize_eq (text : Octets) : stream.stringSize text = (stream.writeString text).length
  readLimited_write {message : Octets} (fits : message.length ≤ stream.limit) (rest : Octets) :
    stream.readLimited (stream.uint32.write (.ofNat message.length) ++ (message ++ rest)) =
      some (message, rest)
  unknownTag_pos (unknown : Unknown) : 0 < stream.unknownTag unknown
  unknownTag_lt (unknown : Unknown) : stream.unknownTag unknown < 2 ^ 32
  /-- The wire type is not that of the end of a group. -/
  unknownTag_mod (unknown : Unknown) : stream.unknownTag unknown % 8 ≠ 4
  skipField_write {unknown : Unknown} (fits : (stream.writeUnknown unknown).length ≤ stream.limit)
    (rest : Octets) :
    stream.skipField (stream.unknownTag unknown) (stream.writeUnknown unknown ++ rest) =
      ([unknown], some rest)
  unknownSize_eq (unknown : Unknown) : stream.unknownSize unknown =
    (stream.writeTag (stream.unknownTag unknown) ++ stream.writeUnknown unknown).length

end CodedStream

end WireFormat
