import Mathlib.Data.List.Perm.Subperm
import Mathlib.Data.Nat.Bitwise
import Rangexx.SingleChange
import Rangexx.StoredMessages

/-!
# What the checksum detects

The top bytes of the table's constants are all different, so a step of
`crc32` can be undone: the top byte of the result names the constant that was
taken, and with it the low byte of the state and the byte that was read.
-/

namespace Rangexx.Paxos

/-- The loop body of `crc32`. -/
def crcStep (crc : UInt32) (byte : UInt8) : UInt32 :=
  ((crc >>> 8) &&& 0x00FFFFFF) ^^^ crcTable.getD ((crc ^^^ byte.toUInt32) &&& 0xFF).toNat 0

theorem crc32_eq {block : List UInt8} (nonempty : block ≠ []) :
    crc32 block = block.foldl crcStep 0 ^^^ 0xFFFFFFFF := by
  cases block with
  | nil => exact absurd rfl nonempty
  | cons byte rest => rfl

/-! ## The table -/

/-- The number whose bits at these places are set. -/
def marks (places : List Nat) : Nat :=
  places.foldr (fun place marked => 2 ^ place ||| marked) 0

theorem testBit_marks (places : List Nat) (place : Nat) :
    (marks places).testBit place ↔ place ∈ places := by
  induction places with
  | nil => simp [marks]
  | cons first rest ih =>
      change (2 ^ first ||| marks rest).testBit place = true ↔ _
      rw [Nat.testBit_or, Bool.or_eq_true, ih, Nat.testBit_two_pow, decide_eq_true_eq,
        List.mem_cons]
      exact or_congr_left eq_comm

example : (marks [0, 5, 31]).testBit 5 := by decide +kernel

/-- A list that has every place below its length has each of them once. -/
theorem nodup_of_marks {places : List Nat} (full : marks places = 2 ^ places.length - 1) :
    places.Nodup := by
  have every : List.range places.length ⊆ places := by
    intro place below
    rw [← testBit_marks, full, Nat.testBit_two_pow_sub_one, decide_eq_true_eq]
    exact List.mem_range.mp below
  have perm := (List.subperm_of_subset List.nodup_range every).perm_of_length_le (by simp)
  exact perm.nodup_iff.mp List.nodup_range

theorem crcTable_length : crcTable.length = 256 := by
  decide +kernel

def topByte (entry : UInt32) : UInt32 :=
  entry >>> 24

theorem crcTable_topBytes : (crcTable.map topByte).Nodup := by
  apply List.Nodup.of_map UInt32.toNat
  apply nodup_of_marks
  decide +kernel

/-- A constant is known by its top byte. -/
theorem crcTable_index {first second : Nat} (firstLt : first < 256) (secondLt : second < 256)
    (same : topByte (crcTable.getD first 0) = topByte (crcTable.getD second 0)) : first = second := by
  have firstIn : first < (crcTable.map topByte).length := by
    rw [List.length_map, crcTable_length]
    exact firstLt
  apply (List.getElem?_inj firstIn crcTable_topBytes).mp
  rw [← crcTable_length] at firstLt secondLt
  simpa [List.getD_eq_getElem?_getD, firstLt, secondLt] using same

/-! ## One step -/

/-- The index taken by a step. -/
def crcIndex (crc : UInt32) (byte : UInt8) : UInt32 :=
  (crc ^^^ byte.toUInt32) &&& 0xFF

theorem crcIndex_toNat (crc : UInt32) (byte : UInt8) :
    (crcIndex crc byte).toNat = (crc.toNat % 256) ^^^ byte.toNat := by
  have mask := Nat.and_two_pow_sub_one_eq_mod (crc.toNat ^^^ byte.toNat) 8
  have split := @Nat.xor_mod_two_pow crc.toNat byte.toNat 8
  have small := byte.toNat_lt
  rw [crcIndex, UInt32.toNat_and, UInt32.toNat_xor, UInt8.toNat_toUInt32]
  exact mask.trans (split.trans (by rw [Nat.mod_eq_of_lt small]))

theorem crcIndex_lt (crc : UInt32) (byte : UInt8) : (crcIndex crc byte).toNat < 256 := by
  rw [crcIndex_toNat]
  have low : crc.toNat % 256 < 256 := Nat.mod_lt _ (by decide)
  exact @Nat.xor_lt_two_pow (crc.toNat % 256) byte.toNat 8 low byte.toNat_lt

/-- The mask in the step changes nothing, the shift having cleared the top
byte. -/
theorem shiftRight_masked (crc : UInt32) :
    ((crc >>> 8) &&& 0x00FFFFFF : UInt32) = crc >>> 8 := by
  have small := crc.toNat_lt
  have shift : (crc >>> 8).toNat = crc.toNat / 256 := by
    simp [Nat.shiftRight_eq_div_pow]
  have mask := Nat.and_two_pow_sub_one_eq_mod (crc >>> 8).toNat 24
  apply UInt32.toNat_inj.mp
  rw [UInt32.toNat_and]
  refine mask.trans (Nat.mod_eq_of_lt ?_)
  omega

theorem crcStep_eq (crc : UInt32) (byte : UInt8) :
    crcStep crc byte = (crc >>> 8) ^^^ crcTable.getD (crcIndex crc byte).toNat 0 := by
  rw [crcStep, shiftRight_masked, crcIndex]

/-- The shifted state leaves the top byte of the constant as it is. -/
theorem crcStep_topByte (crc : UInt32) (byte : UInt8) :
    topByte (crcStep crc byte) = topByte (crcTable.getD (crcIndex crc byte).toNat 0) := by
  have cleared : (crc >>> 8) >>> 24 = 0 := by
    apply UInt32.toBitVec_inj.mp
    ext bit bound
    simp
  rw [crcStep_eq, topByte, UInt32.shiftRight_xor, cleared, UInt32.zero_xor, topByte]

/-- Two steps with one result took one constant, and agree in the rest of the
state. -/
theorem crcStep_same {first second : UInt32} {a b : UInt8}
    (same : crcStep first a = crcStep second b) :
    (first.toNat % 256) ^^^ a.toNat = (second.toNat % 256) ^^^ b.toNat ∧
      first.toNat / 256 = second.toNat / 256 := by
  have index : (crcIndex first a).toNat = (crcIndex second b).toNat := by
    apply crcTable_index (crcIndex_lt first a) (crcIndex_lt second b)
    rw [← crcStep_topByte, ← crcStep_topByte, same]
  constructor
  · rw [← crcIndex_toNat, ← crcIndex_toNat, index]
  · rw [crcStep_eq, crcStep_eq, index] at same
    have shifted := congrArg UInt32.toNat ((UInt32.xor_left_inj _).mp same)
    simpa [Nat.shiftRight_eq_div_pow] using shifted

theorem crcStep_injective_state (byte : UInt8) :
    Function.Injective fun crc => crcStep crc byte := by
  intro first second same
  have ⟨index, high⟩ := crcStep_same same
  have low : first.toNat % 256 = second.toNat % 256 := Nat.xor_left_injective index
  apply UInt32.toNat_inj.mp
  omega

theorem crcStep_injective_byte (crc : UInt32) : Function.Injective (crcStep crc) := by
  intro first second same
  have ⟨index, _⟩ := crcStep_same same
  exact UInt8.toNat_inj.mp (Nat.xor_right_injective index)

/-! ## Whole messages -/

theorem crc32_ne_of_changed {sent received : List UInt8}
    (changed : SingleChange.Changed sent received) : crc32 sent ≠ crc32 received := by
  rw [crc32_eq changed.ne_nil, crc32_eq changed.symm.ne_nil]
  intro same
  exact changed.foldl_ne crcStep_injective_state crcStep_injective_byte 0
    ((UInt32.xor_left_inj _).mp same)

/-- Two blocks of one length that differ in one byte have different
checksums. -/
theorem crc32_detects_corrupted_byte {sent received : List UInt8}
    (lengths : sent.length = received.length)
    (corrupted : ∃! pos : Nat, sent[pos]? ≠ received[pos]?) :
    crc32 sent ≠ crc32 received :=
  crc32_ne_of_changed (SingleChange.changed_of_unique lengths corrupted)

theorem crc32_detects_corrupted_byte_hello :
    crc32 [104, 101, 108, 108, 111] ≠ crc32 [104, 101, 108, 80, 111] :=
  crc32_detects_corrupted_byte rfl ⟨3, by decide, by
    intro pos different
    match pos with
    | 0 | 1 | 2 => exact absurd rfl different
    | 3 => rfl
    | 4 => exact absurd rfl different
    | _ + 5 => exact absurd rfl different⟩

end Rangexx.Paxos
