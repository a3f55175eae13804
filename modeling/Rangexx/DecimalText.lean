import Mathlib.Algebra.Order.Ring.Nat
import Mathlib.Data.List.Basic

/-!
# Numbers in decimal

The number a list of digits stands for, and numbers written with at least a
given number of digits.
-/

namespace DecimalText

def value (digits : List Char) : Nat :=
  Nat.ofDigitChars 10 digits 0

/-- A number with zeros before it, up to a width. -/
def padded (width number : Nat) : List Char :=
  List.leftpad width '0' (Nat.toDigits 10 number)

theorem value_cons (digit : Char) (rest : List Char) :
    value (digit :: rest) = 10 ^ rest.length * (digit.toNat - '0'.toNat) + value rest := by
  rw [value, Nat.ofDigitChars_cons, Nat.ofDigitChars_eq_ofDigitChars_zero, Nat.mul_zero,
    Nat.zero_add]
  rfl

theorem value_concat (digits : List Char) (digit : Char) :
    value (digits ++ [digit]) = 10 * value digits + (digit.toNat - '0'.toNat) := by
  rw [value, Nat.ofDigitChars_append, Nat.ofDigitChars_cons, Nat.ofDigitChars_nil]
  rfl

theorem digit_le {digit : Char} (isDigit : digit.isDigit) : digit.toNat - '0'.toNat ≤ 9 := by
  simp only [Char.isDigit, Bool.and_eq_true, decide_eq_true_eq] at isDigit
  have above : digit.toNat ≤ 57 := isDigit.2
  have zero : '0'.toNat = 48 := rfl
  omega

theorem value_lt {digits : List Char} (all : ∀ digit ∈ digits, digit.isDigit) :
    value digits < 10 ^ digits.length := by
  induction digits with
  | nil => decide
  | cons digit rest ih =>
      have small := digit_le (all digit List.mem_cons_self)
      have below := ih fun other member => all other (List.mem_cons_of_mem digit member)
      rw [value_cons, List.length_cons, Nat.pow_succ]
      calc 10 ^ rest.length * (digit.toNat - '0'.toNat) + value rest
          < 10 ^ rest.length * (digit.toNat - '0'.toNat) + 10 ^ rest.length := by omega
        _ = 10 ^ rest.length * (digit.toNat - '0'.toNat + 1) := by rw [Nat.mul_add_one]
        _ ≤ 10 ^ rest.length * 10 := Nat.mul_le_mul_left _ (by omega)

theorem value_padded (width number : Nat) : value (padded width number) = number := by
  rw [value, padded, List.leftpad, Nat.ofDigitChars_append, Nat.ofDigitChars_replicate_zero,
    Nat.mul_zero, Nat.ofDigitChars_ten_toDigits]

theorem padded_injective (width : Nat) : Function.Injective (padded width) := by
  intro first second same
  rw [← value_padded width first, same, value_padded]

theorem length_padded {width number : Nat} (positive : 0 < width) (small : number < 10 ^ width) :
    (padded width number).length = width := by
  have short := (Nat.length_toDigits_le_iff (by decide) positive).mpr small
  rw [padded, List.leftpad, List.length_append, List.length_replicate]
  omega

theorem length_padded_le (width : Nat) {number digits : Nat} (positive : 0 < digits)
    (small : number < 10 ^ digits) : (padded width number).length ≤ max width digits := by
  have few := (Nat.length_toDigits_le_iff (by decide) positive).mpr small
  rw [padded, List.leftpad, List.length_append, List.length_replicate]
  omega

theorem isDigit_of_mem_padded {width number : Nat} {digit : Char}
    (member : digit ∈ padded width number) : digit.isDigit := by
  rcases List.mem_append.mp member with zero | digits
  · rw [List.eq_of_mem_replicate zero]
    rfl
  · exact Nat.isDigit_of_mem_toDigits (by decide) (by decide) digits

end DecimalText
