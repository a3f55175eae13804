import Mathlib.Data.List.TakeWhile
import Rangexx.DecimalText
import Rangexx.Instance

/-!
# Record keys

The key under which a record is stored is text: the number of its type, a
separator, a zero, the separator again, and the name.  The type is read back
from what stands before the first separator, and the name is what is left when
a prefix of the length for that type is cut off.
-/

namespace Rangexx

open KeyedTable

/-- The value of a `record_type`, whose underlying type is `uint8_t`.  The
values from 3 to 253 have no names. -/
def RecordType.code : RecordType → UInt8
  | .node => 0
  | .graphMeta => 1
  | .nodeMeta => 2
  | .reserved => 254
  | .unknown => 255

theorem RecordType.code_injective : Function.Injective RecordType.code := by
  intro first second same
  cases first <;> cases second <;> first | rfl | exact absurd same (by decide)

/-- The separator, which the source writes as an escape for the bell. -/
def separator : Char :=
  Char.ofNat 7

/-- What `isspace` holds of in the "C" locale. -/
def isspace (char : Char) : Bool :=
  char.toNat == 32 || (9 ≤ char.toNat && char.toNat ≤ 13)

/-- `std::atoi`; the result for a number that is no `int` is undefined, and is
here the number itself. -/
def atoi (text : List Char) : Int :=
  match text.dropWhile isspace with
  | [] => 0
  | sign :: rest =>
      if sign = '-' then -(DecimalText.value (rest.takeWhile Char.isDigit) : Int)
      else if sign = '+' then DecimalText.value (rest.takeWhile Char.isDigit)
      else DecimalText.value ((sign :: rest).takeWhile Char.isDigit)

/-- `substr` from a position to the end; `none` is `std::out_of_range`. -/
def substr (text : String) (pos : Nat) : Option String :=
  if pos ≤ text.length then some (String.ofList (text.toList.drop pos)) else none

def keyPrefix (type : UInt8) : String :=
  String.ofList (Nat.toDigits 10 type.toNat ++ [separator, '0', separator])

def keyName (type : UInt8) (name : String) : String :=
  keyPrefix type ++ name

def getTypeFromKeyname (fullkey : String) : UInt8 :=
  let typePrefix := fullkey.toList.takeWhile (· ≠ separator)
  if 0 < typePrefix.length then UInt8.ofInt (atoi typePrefix) else RecordType.unknown.code

def unprefix (fullkey : String) : Option String :=
  substr fullkey (keyPrefix (getTypeFromKeyname fullkey)).length

/-! ## The type -/

theorem not_isspace_of_isDigit {char : Char} (isDigit : char.isDigit) : isspace char = false := by
  simp only [Char.isDigit, Bool.and_eq_true, decide_eq_true_eq] at isDigit
  have least : 48 ≤ char.toNat := isDigit.1
  simp [isspace]
  omega

/-- `atoi` reads what was printed. -/
theorem atoi_toDigits (number : Nat) : atoi (Nat.toDigits 10 number) = number := by
  have digits : ∀ digit ∈ Nat.toDigits 10 number, digit.isDigit := fun digit member =>
    Nat.isDigit_of_mem_toDigits (by decide) (by decide) member
  have whole : (Nat.toDigits 10 number).takeWhile Char.isDigit = Nat.toDigits 10 number :=
    List.takeWhile_eq_self_iff.mpr digits
  have printed : DecimalText.value (Nat.toDigits 10 number) = number :=
    Nat.ofDigitChars_ten_toDigits
  unfold atoi
  cases shape : Nat.toDigits 10 number with
  | nil => exact absurd shape Nat.toDigits_ne_nil
  | cons first rest =>
      rw [shape] at digits whole printed
      have isDigit := digits first List.mem_cons_self
      have notMinus : first ≠ '-' := by
        rintro rfl
        exact absurd isDigit (by decide)
      have notPlus : first ≠ '+' := by
        rintro rfl
        exact absurd isDigit (by decide)
      rw [List.dropWhile_cons_of_neg (by simp [not_isspace_of_isDigit isDigit])]
      simp only [notMinus, notPlus, if_false]
      rw [whole, printed]

theorem isDigit_ne_separator {char : Char} (isDigit : char.isDigit) : char ≠ separator := by
  rintro rfl
  exact absurd isDigit (by decide)

/-- The first separator of a key is the one behind the number. -/
theorem takeWhile_keyName (type : UInt8) (name : String) :
    (keyName type name).toList.takeWhile (· ≠ separator) = Nat.toDigits 10 type.toNat := by
  have digits : ∀ digit ∈ Nat.toDigits 10 type.toNat, decide (digit ≠ separator) = true := by
    intro digit member
    exact decide_eq_true (isDigit_ne_separator
      (Nat.isDigit_of_mem_toDigits (by decide) (by decide) member))
  rw [keyName, keyPrefix, String.toList_append, String.toList_ofList, List.append_assoc,
    List.takeWhile_append_of_pos digits, List.cons_append, List.takeWhile_cons_of_neg (by simp),
    List.append_nil]

theorem getTypeFromKeyname_keyName (type : UInt8) (name : String) :
    getTypeFromKeyname (keyName type name) = type := by
  have nonempty : 0 < (Nat.toDigits 10 type.toNat).length :=
    List.length_pos_iff.mpr Nat.toDigits_ne_nil
  unfold getTypeFromKeyname
  rw [takeWhile_keyName]
  dsimp only
  have small := type.toNat_lt
  have same : ((type.toNat : Int) % 2 ^ 8).toNat = type.toNat := by
    omega
  rw [if_pos nonempty, atoi_toDigits, UInt8.ofInt, same, UInt8.ofNat_toNat]

/-! ## The name -/

theorem substr_append (first second : String) :
    substr (first ++ second) first.length = some second := by
  unfold substr
  rw [String.length_append, if_pos (Nat.le_add_right _ _), String.toList_append,
    ← String.length_toList, List.drop_left, String.ofList_toList]

theorem unprefix_keyName (type : UInt8) (name : String) :
    unprefix (keyName type name) = some name := by
  unfold unprefix
  rw [getTypeFromKeyname_keyName, keyName, substr_append]

/-- Records with different types or names have different keys. -/
theorem keyName_inj {type other : UInt8} {name otherName : String}
    (same : keyName type name = keyName other otherName) : type = other ∧ name = otherName := by
  constructor
  · rw [← getTypeFromKeyname_keyName type name, same, getTypeFromKeyname_keyName]
  · apply Option.some.inj
    rw [← unprefix_keyName type name, same, unprefix_keyName]

/-- The full key of a record of a named type. -/
def RecordKey.full (key : RecordKey) : String :=
  keyName key.1.code key.2

theorem RecordKey.full_injective : Function.Injective RecordKey.full := by
  intro first second same
  have ⟨types, names⟩ := keyName_inj same
  exact Prod.ext (RecordType.code_injective types) names

end Rangexx
