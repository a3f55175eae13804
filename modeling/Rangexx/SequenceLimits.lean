import Rangexx.SequenceExpansion

/-!
# Sequences at the limits of their numbers

The number of the left word is not checked and a smaller number on the right
is raised by it, in 32 bits.  The raised number is not the one that the short
form of a sequence means.
-/

namespace Rangexx

namespace RangeExpandingVisitor

open DecimalText

variable {p a b s right : String}

/-! ## The left number -/

/-- A left number that does not fit is added up beyond `uint32_t`. -/
theorem scanDigits_overflow {digits : List Char} (all : ∀ c ∈ digits, c.isDigit)
    (rest : List Char) {lnum lpad : Nat} (before : lnum < 2 ^ 32)
    (exceeds : 2 ^ 32 ≤ lnum + value digits * 10 ^ lpad) :
    scanDigits (digits.reverse ++ rest) lnum lpad = none := by
  induction digits using List.reverseRecOn generalizing lnum lpad with
  | nil =>
      have zero : value [] = 0 := rfl
      rw [zero, Nat.zero_mul] at exceeds
      omega
  | append_singleton digits c ih =>
      have isDigit : c.isDigit := all c (by simp)
      have others : ∀ other ∈ digits, other.isDigit := fun other member =>
        all other (List.mem_append_left _ member)
      have sum : lnum + value (digits ++ [c]) * 10 ^ lpad =
          lnum + (c.toNat - '0'.toNat) * 10 ^ lpad + value digits * 10 ^ (lpad + 1) := by
        rw [value_concat, Nat.pow_succ]
        ring
      rw [List.reverse_append, List.reverse_singleton, List.singleton_append, List.cons_append,
        scanDigits, if_pos isDigit]
      unfold addPower
      by_cases fits : lpad < 309 ∧ lnum + (c.toNat - '0'.toNat) * 10 ^ lpad < 2 ^ 32
      · rw [if_pos fits]
        rw [sum] at exceeds
        exact ih others fits.2 exceeds
      · rw [if_neg fits]

/-- The left word has a number that the code can hold. -/
def LeftFits (a : String) : Prop :=
  a.length ≤ 309 ∧ value a.toList < 2 ^ 32

/-- A left number that the code cannot hold leaves everything open. -/
theorem expand_unfit (all : ∀ c ∈ a.toList, c.isDigit) (exceeds : ¬ LeftFits a) (p right : String) :
    expandSequence (p ++ a) right = .error .undefined := by
  have scanned : scanDigits (p ++ a).toList.reverse 0 0 = none := by
    rw [String.toList_append, List.reverse_append]
    rcases not_and_or.mp exceeds with many | large
    · apply scanDigits_undefined all _ (by decide)
      rw [String.length_toList]
      omega
    · apply scanDigits_overflow all _ (by decide)
      omega
  unfold expandSequence
  simp only [scanned]

theorem sequenceError_eq (p1ok p2ok : Bool) (lword rword : List Char) :
    ∃ text, sequenceError p1ok p2ok lword rword = .thrown (.invalidRangeExpression text) :=
  ⟨_, rfl⟩

/-- A left word without a number is not expanded. -/
theorem NumberedWords.loop_numberless (words : NumberedWords p "" b s right) :
    ∃ text, sequenceLoop (p ++ "") right =
      .error (.thrown (.invalidRangeExpression text)) := by
  have digits := takeWhile_digits words.rightDigits.2 words.suffix
  have nonemptyRight : b.toList ≠ [] := by simpa using words.rightDigits.1
  have cast := lexicalCast_digits nonemptyRight words.rightDigits.2 words.fits
  have scanned := scanDigits_word words.stem words.leftDigits (by decide) (by decide)
  obtain ⟨text, thrown⟩ := sequenceError_eq false
    (decide (((b.toList ++ s.toList).drop b.toList.length).length ≠
      (b.toList ++ s.toList).length)) p.toList (b.toList ++ s.toList)
  refine ⟨text, ?_⟩
  rw [← thrown]
  unfold sequenceLoop
  simp only [scanned, List.reverse_reverse, words.strippedRight_eq, digits, cast]
  simp

/-! ## What is right at the limits -/

/-- The expansion ends, counts from one number to the other where that is
upwards, adds up without wrapping and prints no sign. -/
structure LimitsRight (p a b s right : String) : Prop where
  ends : (∃ text, expandSequence (p ++ a) right =
      .error (.thrown (.invalidRangeExpression text))) ∨
    ∃ names, expandSequence (p ++ a) right = .ok names
  counts : a ≠ "" → value a.toList ≤ value b.toList →
    expandSequence (p ++ a) right = .ok (sequenceOf p a b s)
  sums : ∀ loop, sequenceLoop (p ++ a) right = .ok loop →
    loop.lnum = value a.toList ∧
      loop.rnum = if value b.toList < value a.toList then value b.toList + value a.toList
        else value b.toList
  printed : ∀ loop, sequenceLoop (p ++ a) right = .ok loop →
    ∀ number, loop.lnum ≤ number → number ≤ loop.rnum → '-' ∉ formatNumber loop.pad number

/-- The numbers that are printed are those of an `int`, and the names from one
number to the other fit into the buffer. -/
def WithinLimits (p a b s : String) : Prop :=
  a = "" ∨ a.length ≤ 309 ∧
    if value b.toList < value a.toList then value a.toList + value b.toList < 2 ^ 31
    else value b.toList < 2 ^ 31 ∧ p.length + max a.length b.length + s.length ≤ 1022 ∧
      Char.ofNat 0 ∉ p.toList ∧ Char.ofNat 0 ∉ s.toList

theorem minus_notMem_padded (width number : Nat) : '-' ∉ padded width number := by
  intro member
  exact absurd (isDigit_of_mem_padded member) (by decide)

theorem minus_notMem_formatNumber {pad number : Nat} :
    '-' ∉ formatNumber pad number ↔ number < 2 ^ 31 := by
  unfold formatNumber
  split
  · rename_i small
    exact iff_of_true (minus_notMem_padded pad number) small
  · rename_i large
    exact iff_of_false (fun absent => absent List.mem_cons_self) large

/-- Counting upwards gives the names of the sequence if and only if they are
whole and have no sign. -/
theorem NumberedWords.counts_iff (words : NumberedWords p a b s right) (someLeft : a ≠ "")
    (fits : LeftFits a) (ordered : value a.toList ≤ value b.toList)
    (small : value b.toList < 2 ^ 31) :
    expandSequence (p ++ a) right = .ok (sequenceOf p a b s) ↔
      p.length + max a.length b.length + s.length ≤ 1022 ∧
        Char.ofNat 0 ∉ p.toList ∧ Char.ofNat 0 ∉ s.toList := by
  have count : value b.toList + 1 - value a.toList = value b.toList - value a.toList + 1 := by
    omega
  have notLast : value b.toList ≠ 2 ^ 32 - 1 := by omega
  rw [words.expand_eq someLeft fits.1 fits.2, raisedNumber, if_neg (Nat.not_lt_of_le ordered),
    sequenceNames, if_neg notLast, count, sequenceOf]
  constructor
  · intro same
    have names := Except.ok.inj same
    have first := (List.map_inj_left.mp names) (value a.toList) (by simp)
    exact (words.name_eq_iff (by omega) ordered).mp first
  · intro whole
    apply congrArg Except.ok
    apply List.map_congr_left
    intro number member
    rw [List.mem_range'_1] at member
    exact (words.name_eq_iff (by omega) (by omega)).mpr whole

theorem NumberedWords.limitsRight_numberless (words : NumberedWords p "" b s right) :
    LimitsRight p "" b s right := by
  obtain ⟨text, thrown⟩ := words.loop_numberless
  refine ⟨Or.inl ⟨text, ?_⟩, fun someLeft => absurd rfl someLeft, ?_, ?_⟩
  · rw [expandSequence_eq, thrown]
    rfl
  · intro loop made
    rw [thrown] at made
    cases made
  · intro loop made
    rw [thrown] at made
    cases made

/-- The names of a loop whose last number is not the largest `uint32_t`. -/
theorem NumberedWords.expand_ok (words : NumberedWords p a b s right) (someLeft : a ≠ "")
    (fits : LeftFits a) (notLast : raisedNumber (value a.toList) (value b.toList) ≠ 2 ^ 32 - 1) :
    ∃ names, expandSequence (p ++ a) right = .ok names := by
  rw [words.expand_eq someLeft fits.1 fits.2, sequenceNames, if_neg notLast]
  exact ⟨_, rfl⟩

/-- A sequence with a left number that fits is right at the limits if and only
if every number of its loop is one of an `int` and the names upwards fit. -/
theorem NumberedWords.limitsRight_fitting_iff (words : NumberedWords p a b s right)
    (someLeft : a ≠ "") (fits : LeftFits a) :
    LimitsRight p a b s right ↔ WithinLimits p a b s := by
  have loopEq := words.loop_eq someLeft fits.1 fits.2
  have leftSmall := fits.2
  have rightSmall := words.fits
  unfold WithinLimits
  constructor
  · intro holds
    refine Or.inr ⟨fits.1, ?_⟩
    obtain ⟨-, sum⟩ := holds.sums _ loopEq
    dsimp only at sum
    have last := holds.printed _ loopEq (raisedNumber (value a.toList) (value b.toList))
    dsimp only at last
    rw [minus_notMem_formatNumber] at last
    by_cases downwards : value b.toList < value a.toList
    · rw [if_pos downwards] at sum ⊢
      have small := last (by omega) (Nat.le_refl _)
      omega
    · rw [if_neg downwards] at sum ⊢
      have small := last (by omega) (Nat.le_refl _)
      rw [sum] at small
      exact ⟨small, (words.counts_iff someLeft fits (Nat.le_of_not_lt downwards) small).mp
        (holds.counts someLeft (Nat.le_of_not_lt downwards))⟩
  · rintro (noLeft | ⟨-, within⟩)
    · exact absurd noLeft someLeft
    by_cases downwards : value b.toList < value a.toList
    · rw [if_pos downwards] at within
      have sum : raisedNumber (value a.toList) (value b.toList) =
          value b.toList + value a.toList := by
        rw [raisedNumber, if_pos downwards, Nat.mod_eq_of_lt (by omega)]
      refine ⟨Or.inr (words.expand_ok someLeft fits (by omega)), ?_, ?_, ?_⟩
      · intro _ ordered
        omega
      · intro loop made
        cases loopEq.symm.trans made
        exact ⟨rfl, by rw [if_pos downwards, sum]⟩
      · intro loop made number _ atMost
        cases loopEq.symm.trans made
        dsimp only at atMost
        rw [minus_notMem_formatNumber]
        omega
    · rw [if_neg downwards] at within
      have same : raisedNumber (value a.toList) (value b.toList) = value b.toList := by
        rw [raisedNumber, if_neg downwards]
      refine ⟨Or.inr (words.expand_ok someLeft fits (by omega)), ?_, ?_, ?_⟩
      · intro _ ordered
        exact (words.counts_iff someLeft fits ordered within.1).mpr within.2
      · intro loop made
        cases loopEq.symm.trans made
        exact ⟨rfl, by rw [if_neg downwards, same]⟩
      · intro loop made number _ atMost
        cases loopEq.symm.trans made
        dsimp only at atMost
        rw [minus_notMem_formatNumber]
        omega

/-- Without a left number the expansion throws.  With one it is right at the
limits if and only if the number fits, every number of the loop is one of an
`int`, and the names upwards fit. -/
theorem limitsRight_iff (words : NumberedWords p a b s right) :
    LimitsRight p a b s right ↔ WithinLimits p a b s := by
  by_cases someLeft : a = ""
  · subst someLeft
    exact iff_of_true words.limitsRight_numberless (Or.inl rfl)
  by_cases fits : LeftFits a
  · exact words.limitsRight_fitting_iff someLeft fits
  · refine iff_of_false (fun holds => ?_) ?_
    · rcases holds.ends with ⟨text, thrown⟩ | ⟨names, expanded⟩
      · rw [expand_unfit words.leftDigits fits] at thrown
        cases thrown
      · rw [expand_unfit words.leftDigits fits] at expanded
        cases expanded
    · rintro (noLeft | ⟨few, within⟩)
      · exact someLeft noLeft
      apply fits
      refine ⟨few, ?_⟩
      split at within <;> omega

theorem numberedWords_largest : NumberedWords "" "4294967290" "4294967295" "" "4294967295" where
  stem := nofun
  leftDigits := List.all_eq_true.mp (by decide)
  rightDigits := ⟨by decide, List.all_eq_true.mp (by decide)⟩
  fits := by decide
  suffix := nofun
  right := Or.inl (by decide)

theorem limitsRight_largest_iff :
    LimitsRight "" "4294967290" "4294967295" "" "4294967295" ↔
      WithinLimits "" "4294967290" "4294967295" "" :=
  limitsRight_iff numberedWords_largest

/-- A sequence up to the largest `uint32_t` has no end. -/
theorem not_limitsRight :
    ¬ ∀ p a b s right : String, NumberedWords p a b s right → LimitsRight p a b s right := by
  intro all
  have ended := (all _ _ _ _ _ numberedWords_largest).ends
  have endless : expandSequence ("" ++ "4294967290") "4294967295" = .error .undefined := by
    rw [numberedWords_largest.expand_eq (by decide) (by decide) (by decide)]
    rfl
  rw [endless] at ended
  rcases ended with ⟨text, thrown⟩ | ⟨names, expanded⟩
  · cases thrown
  · cases expanded

/-! ## The short form -/

/-- `a` with its last digits replaced by `b`. -/
def lastDigitsReplaced (a b : String) : String :=
  String.ofList (a.toList.take (a.length - b.length) ++ b.toList)

/-- The words `p a` and `b`, of which the second is the end of a number that is
not smaller. -/
structure ShortWords (p a b : String) : Prop where
  stem : ∀ c ∈ p.toList.getLast?, ¬ c.isDigit
  leftDigits : ∀ c ∈ a.toList, c.isDigit
  rightDigits : b ≠ "" ∧ ∀ c ∈ b.toList, c.isDigit
  shorter : b.length < a.length
  ordered : value a.toList ≤ value (lastDigitsReplaced a b).toList

/-- The short form and the long one have a result each, and expand to the same
names. -/
structure SameNames (p a b : String) : Prop where
  short : expandSequence (p ++ a) b ≠ .error .undefined
  long : expandSequence (p ++ a) (p ++ lastDigitsReplaced a b) ≠ .error .undefined
  names : ∀ names, expandSequence (p ++ a) b = .ok names ↔
    expandSequence (p ++ a) (p ++ lastDigitsReplaced a b) = .ok names

/-- The left number fits.  Neither form expands, or the loop ends and the digits
that the short form leaves out are zeros, or those that it replaces. -/
def ShortFits (a b : String) : Prop :=
  LeftFits a ∧ (2 ^ 32 ≤ value b.toList ∨
    (value a.toList < 10 ^ b.length ∨ 10 ^ b.length ∣ value a.toList) ∧
      value (lastDigitsReplaced a b).toList < 2 ^ 32 - 1)

theorem value_append (first second : List Char) :
    value (first ++ second) = value first * 10 ^ second.length + value second := by
  induction first with
  | nil =>
      have zero : value [] = 0 := rfl
      rw [List.nil_append, zero, Nat.zero_mul, Nat.zero_add]
  | cons digit rest ih =>
      rw [List.cons_append, value_cons, value_cons, ih, List.length_append]
      ring

/-- The three numbers of a short form. -/
theorem ShortWords.values (words : ShortWords p a b) :
    ∃ high low, value a.toList = high * 10 ^ b.length + low ∧ low < 10 ^ b.length ∧
      value (lastDigitsReplaced a b).toList = high * 10 ^ b.length + value b.toList ∧
      value b.toList < 10 ^ b.length ∧ low ≤ value b.toList := by
  have shorter := words.shorter
  have split := List.take_append_drop (a.length - b.length) a.toList
  have lengthLow : (a.toList.drop (a.length - b.length)).length = b.length := by
    rw [List.length_drop, String.length_toList]
    omega
  have lowDigits : ∀ c ∈ a.toList.drop (a.length - b.length), c.isDigit := fun c member =>
    words.leftDigits c (List.mem_of_mem_drop member)
  have leftValue := value_append (a.toList.take (a.length - b.length))
    (a.toList.drop (a.length - b.length))
  rw [split, lengthLow] at leftValue
  have longValue : value (lastDigitsReplaced a b).toList =
      value (a.toList.take (a.length - b.length)) * 10 ^ b.length + value b.toList := by
    rw [lastDigitsReplaced, String.toList_ofList, value_append, String.length_toList]
  have lowSmall := value_lt lowDigits
  have rightSmall := value_lt words.rightDigits.2
  rw [lengthLow] at lowSmall
  rw [String.length_toList] at rightSmall
  have ordered := words.ordered
  rw [leftValue, longValue] at ordered
  exact ⟨_, _, leftValue, lowSmall, longValue, rightSmall, by omega⟩

theorem not_prefix_of_digits {p b : List Char} (stem : ∀ c ∈ p.getLast?, ¬ c.isDigit)
    (all : ∀ c ∈ b, c.isDigit) (nonempty : p ≠ []) : ¬ p <+: b := by
  intro isPrefix
  have last : p.getLast? = some (p.getLast nonempty) := List.getLast?_eq_some_getLast nonempty
  exact stem _ last (all _ (isPrefix.subset (List.getLast_mem nonempty)))

theorem ShortWords.short (words : ShortWords p a b) (fits : value b.toList < 2 ^ 32) :
    NumberedWords p a b "" b where
  stem := words.stem
  leftDigits := words.leftDigits
  rightDigits := words.rightDigits
  fits := fits
  suffix := nofun
  right := by
    right
    rw [String.append_empty]
    refine ⟨rfl, ?_⟩
    by_cases empty : p = ""
    · exact Or.inl empty
    · exact Or.inr (not_prefix_of_digits words.stem words.rightDigits.2 (by simpa using empty))

theorem ShortWords.replacedDigits (words : ShortWords p a b) :
    ∀ c ∈ (lastDigitsReplaced a b).toList, c.isDigit := by
  intro c member
  rw [lastDigitsReplaced, String.toList_ofList] at member
  rcases List.mem_append.mp member with left | right
  · exact words.leftDigits c (List.mem_of_mem_take left)
  · exact words.rightDigits.2 c right

theorem ShortWords.length_replaced (words : ShortWords p a b) :
    (lastDigitsReplaced a b).length = a.length := by
  have shorter := words.shorter
  rw [lastDigitsReplaced, String.length_ofList, List.length_append, List.length_take,
    String.length_toList, String.length_toList]
  omega

theorem ShortWords.replaced_ne (words : ShortWords p a b) : lastDigitsReplaced a b ≠ "" := by
  intro empty
  have shorter := words.shorter
  have length := words.length_replaced
  rw [empty, String.length_empty] at length
  omega

theorem ShortWords.long (words : ShortWords p a b)
    (fits : value (lastDigitsReplaced a b).toList < 2 ^ 32) :
    NumberedWords p a (lastDigitsReplaced a b) "" (p ++ lastDigitsReplaced a b) where
  stem := words.stem
  leftDigits := words.leftDigits
  rightDigits := ⟨words.replaced_ne, words.replacedDigits⟩
  fits := fits
  suffix := nofun
  right := Or.inl (by rw [String.append_empty])

/-- A right word whose digits are no `uint32_t` is not expanded. -/
theorem expand_of_uncast {left right : String} {number pad : Nat} {rest : List Char}
    (scanned : scanDigits left.toList.reverse 0 0 = some (number, pad, rest))
    (uncast : lexicalCast ((strippedRight rest.reverse right.toList).takeWhile
      fun c => !c.isAlpha) = none) :
    ∃ text, expandSequence left right = .error (.thrown (.invalidRangeExpression text)) := by
  unfold expandSequence
  simp only [scanned, uncast]
  obtain ⟨text, thrown⟩ := sequenceError_eq
    (decide (rest.reverse.length ≠ left.toList.length)) false left.toList
    (strippedRight rest.reverse right.toList)
  exact ⟨text, congrArg Except.error thrown⟩

theorem lexicalCast_overflow {b : List Char} (all : ∀ c ∈ b, c.isDigit)
    (large : 2 ^ 32 ≤ value b) : lexicalCast b = none := by
  have cast : castDigits b = none := if_neg fun small => Nat.not_lt_of_le large small.2.2
  unfold lexicalCast
  split
  · exact absurd (all '-' List.mem_cons_self) (by decide)
  · exact absurd (all '+' List.mem_cons_self) (by decide)
  · exact cast

theorem takeWhile_all_digits {b : List Char} (all : ∀ c ∈ b, c.isDigit) :
    b.takeWhile (fun c => !c.isAlpha) = b := by
  have whole := @takeWhile_digits b [] all nofun
  rwa [List.append_nil] at whole

theorem ShortWords.expand_short (words : ShortWords p a b) (fits : LeftFits a)
    (large : 2 ^ 32 ≤ value b.toList) :
    ∃ text, expandSequence (p ++ a) b = .error (.thrown (.invalidRangeExpression text)) := by
  apply expand_of_uncast (scanDigits_word words.stem words.leftDigits fits.1 fits.2)
  have stripped : strippedRight p.toList b.toList = b.toList := by
    have apart : p.toList = [] ∨ ¬ p.toList <+: b.toList ++ [] := by
      by_cases empty : p.toList = []
      · exact Or.inl empty
      · rw [List.append_nil]
        exact Or.inr (not_prefix_of_digits words.stem words.rightDigits.2 empty)
    rw [strippedRight_eq (Or.inr ⟨(List.append_nil _).symm, apart⟩), List.append_nil]
  rw [List.reverse_reverse, stripped, takeWhile_all_digits words.rightDigits.2]
  exact lexicalCast_overflow words.rightDigits.2 large

theorem ShortWords.expand_long (words : ShortWords p a b) (fits : LeftFits a)
    (large : 2 ^ 32 ≤ value (lastDigitsReplaced a b).toList) :
    ∃ text, expandSequence (p ++ a) (p ++ lastDigitsReplaced a b) =
      .error (.thrown (.invalidRangeExpression text)) := by
  apply expand_of_uncast (scanDigits_word words.stem words.leftDigits fits.1 fits.2)
  have stripped : strippedRight p.toList (p ++ lastDigitsReplaced a b).toList =
      (lastDigitsReplaced a b).toList := by
    rw [strippedRight_eq (Or.inl (by rw [String.toList_append, List.append_nil])),
      List.append_nil]
  rw [List.reverse_reverse, stripped, takeWhile_all_digits words.replacedDigits]
  exact lexicalCast_overflow words.replacedDigits large

theorem sequenceNames_defined_iff {lprefixChars rsuffix : List Char} {pad lnum rnum : Nat} :
    sequenceNames lprefixChars rsuffix pad lnum rnum ≠ .error .undefined ↔ rnum ≠ 2 ^ 32 - 1 := by
  unfold sequenceNames
  split
  · rename_i endless
    exact iff_of_false (fun defined => defined rfl) (not_not.mpr endless)
  · rename_i ends
    exact iff_of_true nofun ends

/-- Two loops from one number end and give the same names if and only if they
have the same end, which is not the largest `uint32_t`. -/
theorem sequenceNames_same_iff {lprefixChars rsuffix : List Char} {pad lnum first last : Nat}
    (ordered : lnum ≤ last) :
    (sequenceNames lprefixChars rsuffix pad lnum first ≠ .error .undefined ∧
      sequenceNames lprefixChars rsuffix pad lnum last ≠ .error .undefined ∧
      ∀ names, sequenceNames lprefixChars rsuffix pad lnum first = .ok names ↔
        sequenceNames lprefixChars rsuffix pad lnum last = .ok names) ↔
      first = last ∧ last ≠ 2 ^ 32 - 1 := by
  rw [sequenceNames_defined_iff, sequenceNames_defined_iff]
  constructor
  · rintro ⟨firstEnds, lastEnds, same⟩
    unfold sequenceNames at same
    rw [if_neg firstEnds, if_neg lastEnds] at same
    have names := Except.ok.inj ((same _).mp rfl)
    have lengths := congrArg List.length names
    rw [List.length_map, List.length_map, List.length_range', List.length_range'] at lengths
    exact ⟨by omega, lastEnds⟩
  · rintro ⟨rfl, ends⟩
    exact ⟨ends, ends, fun names => Iff.rfl⟩

/-- The raised number is the long one if and only if the digits that the short
form leaves out are zeros, or those that it replaces. -/
theorem ShortWords.raisedNumber_eq_iff (words : ShortWords p a b)
    (long : value (lastDigitsReplaced a b).toList < 2 ^ 32) :
    raisedNumber (value a.toList) (value b.toList) = value (lastDigitsReplaced a b).toList ↔
      value a.toList < 10 ^ b.length ∨ 10 ^ b.length ∣ value a.toList := by
  obtain ⟨high, low, leftValue, lowSmall, longValue, rightSmall, atMost⟩ := words.values
  have divides : 10 ^ b.length ∣ high * 10 ^ b.length + low ↔ low = 0 := by
    rw [Nat.dvd_iff_mod_eq_zero, Nat.mul_add_mod_self_right, Nat.mod_eq_of_lt lowSmall]
  rw [leftValue, divides]
  rw [longValue] at long ⊢
  unfold raisedNumber
  rcases Nat.eq_zero_or_pos high with rfl | positive
  · rw [Nat.zero_mul, Nat.zero_add, Nat.zero_add, if_neg (Nat.not_lt_of_le atMost)]
    exact iff_of_true rfl (Or.inl lowSmall)
  · have least : 10 ^ b.length ≤ high * 10 ^ b.length := Nat.le_mul_of_pos_left _ positive
    generalize high * 10 ^ b.length = rounded at *
    rw [if_pos (by omega)]
    constructor
    · intro same
      right
      omega
    · rintro (small | rfl)
      · omega
      · rw [Nat.mod_eq_of_lt (by omega)]
        omega

/-- When the long number does not fit, the short form wraps to no names. -/
theorem ShortWords.expand_wrapped (words : ShortWords p a b) (fits : LeftFits a)
    (rightFits : value b.toList < 2 ^ 32)
    (large : 2 ^ 32 ≤ value (lastDigitsReplaced a b).toList) :
    ∃ names, expandSequence (p ++ a) b = .ok names := by
  obtain ⟨high, low, leftValue, lowSmall, longValue, rightSmall, atMost⟩ := words.values
  have someLeft : a ≠ "" := by
    rintro rfl
    exact absurd words.shorter (by rw [String.length_empty]; omega)
  apply (words.short rightFits).expand_ok someLeft fits
  have leftSmall := fits.2
  rw [leftValue] at leftSmall ⊢
  rw [longValue] at large
  unfold raisedNumber
  rcases Nat.eq_zero_or_pos high with rfl | positive
  · omega
  · have least : 10 ^ b.length ≤ high * 10 ^ b.length := Nat.le_mul_of_pos_left _ positive
    generalize high * 10 ^ b.length = rounded at *
    rw [if_pos (by omega)]
    omega

/-- Where both numbers fit, the short form gives the names of the long one if and
only if raising the number is the same as replacing its digits. -/
theorem ShortWords.sameNames_fitting_iff (words : ShortWords p a b) (fits : LeftFits a)
    (rightFits : value b.toList < 2 ^ 32)
    (long : value (lastDigitsReplaced a b).toList < 2 ^ 32) :
    SameNames p a b ↔ (value a.toList < 10 ^ b.length ∨ 10 ^ b.length ∣ value a.toList) ∧
      value (lastDigitsReplaced a b).toList < 2 ^ 32 - 1 := by
  have someLeft : a ≠ "" := by
    rintro rfl
    exact absurd words.shorter (by rw [String.length_empty]; omega)
  have ordered := words.ordered
  have pads : max a.length (lastDigitsReplaced a b).length = max a.length b.length := by
    have shorter := words.shorter
    rw [words.length_replaced]
    omega
  have upwards : raisedNumber (value a.toList) (value (lastDigitsReplaced a b).toList) =
      value (lastDigitsReplaced a b).toList := if_neg (Nat.not_lt_of_le ordered)
  have parts : SameNames p a b ↔ expandSequence (p ++ a) b ≠ .error .undefined ∧
      expandSequence (p ++ a) (p ++ lastDigitsReplaced a b) ≠ .error .undefined ∧
      ∀ names, expandSequence (p ++ a) b = .ok names ↔
        expandSequence (p ++ a) (p ++ lastDigitsReplaced a b) = .ok names :=
    ⟨fun same => ⟨same.short, same.long, same.names⟩, fun ⟨short, long, names⟩ =>
      ⟨short, long, names⟩⟩
  rw [parts, (words.short rightFits).expand_eq someLeft fits.1 fits.2,
    (words.long long).expand_eq someLeft fits.1 fits.2, pads, upwards,
    sequenceNames_same_iff ordered, words.raisedNumber_eq_iff long]
  exact and_congr_right fun _ => by omega

/-- The short form of a sequence gives the names of the long one if and only if
neither expands or raising the number is the same as replacing its digits. -/
theorem sameNames_iff (words : ShortWords p a b) : SameNames p a b ↔ ShortFits a b := by
  unfold ShortFits
  by_cases fits : LeftFits a
  · rw [and_iff_right fits]
    by_cases rightFits : value b.toList < 2 ^ 32
    · rw [or_iff_right (Nat.not_le_of_lt rightFits)]
      by_cases long : value (lastDigitsReplaced a b).toList < 2 ^ 32
      · exact words.sameNames_fitting_iff fits rightFits long
      · refine iff_of_false (fun same => ?_) (fun short => long (by omega))
        obtain ⟨names, expanded⟩ := words.expand_wrapped fits rightFits (Nat.le_of_not_lt long)
        obtain ⟨text, thrown⟩ := words.expand_long fits (Nat.le_of_not_lt long)
        cases thrown.symm.trans ((same.names names).mp expanded)
    · have large := Nat.le_of_not_lt rightFits
      obtain ⟨high, low, -, -, longValue, -, -⟩ := words.values
      obtain ⟨text, thrown⟩ := words.expand_short fits large
      obtain ⟨longText, longThrown⟩ := words.expand_long fits (by omega)
      refine iff_of_true ⟨?_, ?_, fun names => ?_⟩ (Or.inl large)
      · rw [thrown]
        exact nofun
      · rw [longThrown]
        exact nofun
      · rw [thrown, longThrown]
        exact iff_of_false nofun nofun
  · exact iff_of_false (fun same => same.short (expand_unfit words.leftDigits fits p b))
      fun short => fits short.1

/-! ## Suffixes with a dot -/

theorem castDigits_dotted {text : List Char} (dot : '.' ∈ text) : castDigits text = none := by
  refine if_neg fun cast => ?_
  have isDigit := List.all_eq_true.mp cast.2.1 '.' dot
  exact absurd isDigit (by decide)

theorem lexicalCast_dotted {text : List Char} (dot : '.' ∈ text) : lexicalCast text = none := by
  unfold lexicalCast
  split
  · rw [castDigits_dotted (List.mem_of_ne_of_mem (by decide) dot)]
    rfl
  · exact castDigits_dotted (List.mem_of_ne_of_mem (by decide) dot)
  · exact castDigits_dotted dot

/-- A dot before the first letter is taken for a part of the number. -/
theorem not_expand_dotted (stem : ∀ c ∈ p.toList.getLast?, ¬ c.isDigit)
    (leftDigits : ∀ c ∈ a.toList, c.isDigit) (rightDigits : ∀ c ∈ b.toList, c.isDigit)
    (dotted : s.toList.head? = some '.') (names : List String) :
    expandSequence (p ++ a) (p ++ b ++ s) ≠ .ok names := by
  by_cases fits : LeftFits a
  · have stripped : strippedRight p.toList (p ++ b ++ s).toList = b.toList ++ s.toList :=
      strippedRight_eq (Or.inl (by simp))
    obtain ⟨rest, suffix⟩ := List.head?_eq_some_iff.mp dotted
    have digits : (b.toList ++ '.' :: rest).takeWhile (fun c => !c.isAlpha) =
        b.toList ++ '.' :: rest.takeWhile fun c => !c.isAlpha := by
      rw [List.takeWhile_append_of_pos]
      · rfl
      · intro c member
        simp [not_isAlpha_of_isDigit (rightDigits c member)]
    have uncast : lexicalCast ((strippedRight p.toList.reverse.reverse
        (p ++ b ++ s).toList).takeWhile fun c => !c.isAlpha) = none := by
      rw [List.reverse_reverse, stripped, suffix, digits]
      exact lexicalCast_dotted (by simp)
    obtain ⟨text, thrown⟩ :=
      expand_of_uncast (scanDigits_word stem leftDigits fits.1 fits.2) uncast
    rw [thrown]
    exact nofun
  · rw [expand_unfit leftDigits fits]
    exact nofun

/-- The short form is right if and only if raising the number replaces its last
digits, and no suffix with a dot is ever taken. -/
theorem shortForm_iff (p a b : String) (stem : ∀ c ∈ p.toList.getLast?, ¬ c.isDigit)
    (leftDigits : ∀ c ∈ a.toList, c.isDigit) (rightDigits : ∀ c ∈ b.toList, c.isDigit) :
    (ShortWords p a b → (SameNames p a b ↔ ShortFits a b)) ∧
      ∀ s : String, s.toList.head? = some '.' →
        ∀ names, expandSequence (p ++ a) (p ++ b ++ s) ≠ .ok names :=
  ⟨sameNames_iff, fun _ dotted => not_expand_dotted stem leftDigits rightDigits dotted⟩

theorem shortWords_odd : ShortWords "node" "1001" "03" where
  stem := by
    intro c last
    obtain rfl : 'e' = c := Option.some.inj last
    decide
  leftDigits := List.all_eq_true.mp (by decide)
  rightDigits := ⟨by decide, List.all_eq_true.mp (by decide)⟩
  shorter := by decide
  ordered := by decide

theorem shortForm_odd :
    (SameNames "node" "1001" "03" ↔ ShortFits "1001" "03") ∧
      expandSequence ("node" ++ "1001") ("node" ++ "03" ++ ".com") ≠ .ok [] := by
  have both := shortForm_iff "node" "1001" "03" shortWords_odd.stem shortWords_odd.leftDigits
    shortWords_odd.rightDigits.2
  exact ⟨both.1 shortWords_odd, both.2 ".com" (by decide) []⟩

/-- `node1001..03` ends with `node1004`, and `node1..node3.com` is thrown out. -/
theorem not_shortForm :
    ¬ ((∀ p a b : String, ShortWords p a b → SameNames p a b) ∧
      ∀ p a b s : String, (∀ c ∈ p.toList.getLast?, ¬ c.isDigit) →
        (∀ c ∈ a.toList, c.isDigit) → (∀ c ∈ b.toList, c.isDigit) →
          s.toList.head? = some '.' →
            ∃ names, expandSequence (p ++ a) (p ++ b ++ s) = .ok names) := by
  rintro ⟨shorts, -⟩
  have fits := (sameNames_iff shortWords_odd).mp (shorts _ _ _ shortWords_odd)
  unfold ShortFits LeftFits at fits
  exact absurd fits (by decide)

end RangeExpandingVisitor

end Rangexx
