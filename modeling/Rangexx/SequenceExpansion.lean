import Mathlib.Data.List.TakeWhile
import Mathlib.Tactic.Ring
import Rangexx.DecimalText
import Rangexx.NearestKey

/-!
# Sequences of names

`RangeExpandingVisitor::operator()(ASTSequence&)`.  A character of a string
stands for a byte; those outside ASCII are neither digits nor letters.
-/

namespace Rangexx

open DecimalText

/-- How the expansion of an expression can fail. -/
inductive ExpansionError where
  | thrown (error : CompilerError)
  | badGet
  /-- The language does not say what happens. -/
  | undefined
  deriving DecidableEq, Repr

namespace RangeExpandingVisitor

/-- `lnum += (c - '0') * std::pow(10, p)`.  The power is infinite from 309 on,
and neither it nor a sum beyond `uint32_t` can be converted back. -/
def addPower (lnum digit p : Nat) : Option Nat :=
  if p < 309 ∧ lnum + digit * 10 ^ p < 2 ^ 32 then some (lnum + digit * 10 ^ p) else none

/-- The `find_if` over the reversed left word: `lnum`, `lpad`, and what is left
of the word.  `p` is always equal to `lpad`. -/
def scanDigits : List Char → Nat → Nat → Option (Nat × Nat × List Char)
  | [], lnum, lpad => some (lnum, lpad, [])
  | c :: rest, lnum, lpad =>
      if c.isDigit then
        match addPower lnum (c.toNat - '0'.toNat) lpad with
        | none => none
        | some lnum => scanDigits rest lnum (lpad + 1)
      else some (lnum, lpad, c :: rest)

/-- A `uint32_t` from digits. -/
def castDigits (text : List Char) : Option Nat :=
  if text ≠ [] ∧ text.all Char.isDigit ∧ value text < 2 ^ 32 then some (value text) else none

/-- `boost::lexical_cast<uint32_t>`, which takes a sign. -/
def lexicalCast : List Char → Option Nat
  | '-' :: digits => (castDigits digits).map fun number => (2 ^ 32 - number) % 2 ^ 32
  | '+' :: digits => castDigits digits
  | digits => castDigits digits

/-- The text of the exception. -/
def sequenceError (p1ok p2ok : Bool) (lword rword : List Char) : ExpansionError :=
  let er := if p1ok then "" else "left "
  let er := if p2ok then er else (if er = "" then er else er ++ "and ") ++ "right "
  .thrown (.invalidRangeExpression
    ("invalid " ++ er ++ "portion of sequence: " ++ String.ofList lword ++ ".." ++
      String.ofList rword))

/-- The bytes up to the first zero. -/
def cString (text : List Char) : List Char :=
  text.takeWhile fun c => c ≠ Char.ofNat 0

/-- `"%0*d"` for a `uint32_t`. -/
def formatNumber (pad number : Nat) : List Char :=
  if number < 2 ^ 31 then padded pad number else '-' :: padded (pad - 1) (2 ^ 32 - number)

/-- One name, as `snprintf` leaves it in the buffer. -/
def sequenceName (lprefixChars rsuffix : List Char) (pad number : Nat) : String :=
  String.ofList
    ((cString lprefixChars ++ formatNumber pad number ++ cString rsuffix).take 1022)

/-- The loop over the numbers, which has no end if the last one is the largest
`uint32_t`. -/
def sequenceNames (lprefixChars rsuffix : List Char) (pad lnum rnum : Nat) :
    Except ExpansionError (List String) :=
  if rnum = 2 ^ 32 - 1 then .error .undefined
  else .ok ((List.range' lnum (rnum + 1 - lnum)).map (sequenceName lprefixChars rsuffix pad))

/-- The right word without the prefix of the left one. -/
def strippedRight (lprefixChars rword : List Char) : List Char :=
  if rword.take lprefixChars.length = lprefixChars then rword.drop lprefixChars.length else rword

def expandSequence (left right : String) : Except ExpansionError (List String) :=
  let lword := left.toList
  match scanDigits lword.reverse 0 0 with
  | none => .error .undefined
  | some (lnum, lpad, rest) =>
      let lprefixChars := rest.reverse
      let p1ok := decide (lprefixChars.length ≠ lword.length)
      let rword := strippedRight lprefixChars right.toList
      let digits := rword.takeWhile fun c => !c.isAlpha
      let rsuffix := rword.drop digits.length
      let rpad := digits.length
      match lexicalCast digits with
      | none => .error (sequenceError p1ok false lword rword)
      | some rnum =>
          let p2ok := decide (rsuffix.length ≠ rword.length)
          if !p1ok || !p2ok then .error (sequenceError p1ok p2ok lword rword)
          else
            let rnum := if rnum < lnum then (rnum + lnum) % 2 ^ 32 else rnum
            sequenceNames lprefixChars rsuffix (max lpad rpad) lnum rnum

/-- What the loop over the numbers works on. -/
structure SequenceLoop where
  lprefixChars : List Char
  rsuffix : List Char
  pad : Nat
  lnum : Nat
  rnum : Nat

/-- `if (rnum < lnum) rnum += lnum;` -/
def raisedNumber (lnum rnum : Nat) : Nat :=
  if rnum < lnum then (rnum + lnum) % 2 ^ 32 else rnum

/-- The expansion up to its loop. -/
def sequenceLoop (left right : String) : Except ExpansionError SequenceLoop :=
  let lword := left.toList
  match scanDigits lword.reverse 0 0 with
  | none => .error .undefined
  | some (lnum, lpad, rest) =>
      let lprefixChars := rest.reverse
      let p1ok := decide (lprefixChars.length ≠ lword.length)
      let rword := strippedRight lprefixChars right.toList
      let digits := rword.takeWhile fun c => !c.isAlpha
      let rsuffix := rword.drop digits.length
      match lexicalCast digits with
      | none => .error (sequenceError p1ok false lword rword)
      | some rnum =>
          let p2ok := decide (rsuffix.length ≠ rword.length)
          if !p1ok || !p2ok then .error (sequenceError p1ok p2ok lword rword)
          else
            .ok ⟨lprefixChars, rsuffix, max lpad digits.length, lnum, raisedNumber lnum rnum⟩

theorem expandSequence_eq (left right : String) :
    expandSequence left right = (sequenceLoop left right).bind fun loop =>
      sequenceNames loop.lprefixChars loop.rsuffix loop.pad loop.lnum loop.rnum := by
  unfold expandSequence sequenceLoop raisedNumber
  dsimp only
  cases scanDigits left.toList.reverse 0 0 with
  | none => rfl
  | some found =>
      obtain ⟨lnum, lpad, rest⟩ := found
      dsimp only
      cases lexicalCast ((strippedRight rest.reverse right.toList).takeWhile
          fun c => !c.isAlpha) with
      | none => rfl
      | some rnum =>
          dsimp only
          split <;> rfl

/-! ## What a sequence stands for -/

/-- The words `p a` and `b s` or `p b s` of a sequence. -/
structure SequenceWords (p a b s right : String) : Prop where
  stem : ∀ c ∈ p.toList.getLast?, ¬ c.isDigit
  leftDigits : a ≠ "" ∧ ∀ c ∈ a.toList, c.isDigit
  rightDigits : b ≠ "" ∧ ∀ c ∈ b.toList, c.isDigit
  ordered : value a.toList ≤ value b.toList
  small : value b.toList < 2 ^ 31
  suffix : ∀ c ∈ s.toList.head?, c.isAlpha
  short : p.length + max a.length b.length + s.length < 1023
  right : right = p ++ b ++ s ∨
    right = b ++ s ∧ (p = "" ∨ ¬ p.toList <+: (b ++ s).toList)

/-- The words `p a` and `b s` or `p b s`, of which the second has a number that
fits. -/
structure NumberedWords (p a b s right : String) : Prop where
  stem : ∀ c ∈ p.toList.getLast?, ¬ c.isDigit
  leftDigits : ∀ c ∈ a.toList, c.isDigit
  rightDigits : b ≠ "" ∧ ∀ c ∈ b.toList, c.isDigit
  fits : value b.toList < 2 ^ 32
  suffix : ∀ c ∈ s.toList.head?, c.isAlpha
  right : right = p ++ b ++ s ∨
    right = b ++ s ∧ (p = "" ∨ ¬ p.toList <+: (b ++ s).toList)

theorem SequenceWords.numbered {p a b s right : String} (words : SequenceWords p a b s right) :
    NumberedWords p a b s right where
  stem := words.stem
  leftDigits := words.leftDigits.2
  rightDigits := words.rightDigits
  fits := Nat.lt_trans words.small (by decide)
  suffix := words.suffix
  right := words.right

/-- The names from `p a s` to `p b s`. -/
def sequenceOf (p a b s : String) : List String :=
  (List.range' (value a.toList) (value b.toList - value a.toList + 1)).map fun number =>
    p ++ String.ofList (padded (max a.length b.length) number) ++ s

theorem sequenceOf_nodup (p a b s : String) : (sequenceOf p a b s).Nodup := by
  apply List.Nodup.map _ List.nodup_range'
  intro first second same
  have lists := congrArg String.toList same
  simp only [String.toList_append, String.toList_ofList, List.append_assoc,
    List.append_cancel_left_eq, List.append_cancel_right_eq] at lists
  exact padded_injective _ lists

/-! ## The left word -/

/-- The digits of the left word are added up, the last one first. -/
theorem scanDigits_append {digits rest : List Char} (all : ∀ c ∈ digits, c.isDigit)
    (stem : ∀ c ∈ rest.head?, ¬ c.isDigit) {lnum lpad : Nat}
    (few : lpad + digits.length ≤ 309) (fits : lnum + value digits * 10 ^ lpad < 2 ^ 32) :
    scanDigits (digits.reverse ++ rest) lnum lpad =
      some (lnum + value digits * 10 ^ lpad, lpad + digits.length, rest) := by
  induction digits using List.reverseRecOn generalizing lnum lpad with
  | nil =>
      cases rest with
      | nil => simp [scanDigits, value]
      | cons c rest =>
          have notDigit := stem c rfl
          simp [scanDigits, value, notDigit]
  | append_singleton digits c ih =>
      have isDigit : c.isDigit := all c (by simp)
      have others : ∀ other ∈ digits, other.isDigit := fun other member =>
        all other (List.mem_append_left _ member)
      rw [List.length_append, List.length_singleton] at few
      have sum : lnum + value (digits ++ [c]) * 10 ^ lpad =
          lnum + (c.toNat - '0'.toNat) * 10 ^ lpad + value digits * 10 ^ (lpad + 1) := by
        rw [value_concat, Nat.pow_succ]
        ring
      rw [sum] at fits
      have added : addPower lnum (c.toNat - '0'.toNat) lpad =
          some (lnum + (c.toNat - '0'.toNat) * 10 ^ lpad) :=
        if_pos ⟨by omega, by omega⟩
      rw [List.reverse_append, List.reverse_singleton, List.singleton_append, List.cons_append,
        scanDigits, if_pos isDigit, added]
      dsimp only
      rw [ih others (by omega) fits, sum, List.length_append, List.length_singleton,
        Nat.add_right_comm lpad 1, Nat.add_assoc lpad]

/-- The scan of the left word `p a`. -/
theorem scanDigits_word {p a : String} (stem : ∀ c ∈ p.toList.getLast?, ¬ c.isDigit)
    (all : ∀ c ∈ a.toList, c.isDigit) (few : a.length ≤ 309) (small : value a.toList < 2 ^ 32) :
    scanDigits (p ++ a).toList.reverse 0 0 =
      some (value a.toList, a.length, p.toList.reverse) := by
  rw [String.toList_append, List.reverse_append, scanDigits_append all]
  · simp [String.length_toList]
  · intro c member
    exact stem c (by simpa using member)
  · rw [String.length_toList]
    omega
  · omega

/-- With 310 digits or more, an infinite power is added. -/
theorem scanDigits_undefined {digits : List Char} (all : ∀ c ∈ digits, c.isDigit)
    (rest : List Char) {lnum lpad : Nat} (within : lpad ≤ 309)
    (many : 309 < lpad + digits.length) :
    scanDigits (digits.reverse ++ rest) lnum lpad = none := by
  induction digits using List.reverseRecOn generalizing lnum lpad with
  | nil =>
      rw [List.length_nil] at many
      omega
  | append_singleton digits c ih =>
      have isDigit : c.isDigit := all c (by simp)
      have others : ∀ other ∈ digits, other.isDigit := fun other member =>
        all other (List.mem_append_left _ member)
      rw [List.length_append, List.length_singleton] at many
      rw [List.reverse_append, List.reverse_singleton, List.singleton_append, List.cons_append,
        scanDigits, if_pos isDigit]
      unfold addPower
      by_cases fits : lpad < 309 ∧ lnum + (c.toNat - '0'.toNat) * 10 ^ lpad < 2 ^ 32
      · rw [if_pos fits]
        exact ih others fits.1 (by omega)
      · rw [if_neg fits]

/-! ## The right word -/

theorem strippedRight_eq {p b s right : List Char}
    (isRight : right = p ++ b ++ s ∨ right = b ++ s ∧ (p = [] ∨ ¬ p <+: b ++ s)) :
    strippedRight p right = b ++ s := by
  unfold strippedRight
  rcases isRight with rfl | ⟨rfl, rfl | apart⟩
  · rw [List.append_assoc, List.take_left, if_pos rfl, List.drop_left]
  · rfl
  · rw [if_neg]
    intro same
    exact apart (List.prefix_iff_eq_take.mpr same.symm)

theorem not_isAlpha_of_isDigit {c : Char} (isDigit : c.isDigit) : c.isAlpha = false := by
  have atMost : c.val ≤ '9'.val := of_decide_eq_true (Bool.and_eq_true_iff.mp isDigit).2
  have below : c.val.toNat ≤ 57 := atMost
  have notUpper : c.isUpper = false := by
    refine decide_eq_false fun upper => ?_
    have least : 65 ≤ c.val.toNat := upper.1
    omega
  have notLower : c.isLower = false := by
    refine Bool.eq_false_iff.mpr fun lower => ?_
    have atLeast : 'a'.val ≤ c.val := of_decide_eq_true (Bool.and_eq_true_iff.mp lower).1
    have least : 97 ≤ c.val.toNat := atLeast
    omega
  exact Bool.or_eq_false_iff.mpr ⟨notUpper, notLower⟩

theorem takeWhile_digits {b s : List Char} (all : ∀ c ∈ b, c.isDigit)
    (suffix : ∀ c ∈ s.head?, c.isAlpha) : (b ++ s).takeWhile (fun c => !c.isAlpha) = b := by
  rw [List.takeWhile_append_of_pos]
  · cases s with
    | nil => simp
    | cons c rest => simp [suffix c rfl]
  · intro c member
    simp [not_isAlpha_of_isDigit (all c member)]

theorem lexicalCast_digits {b : List Char} (nonempty : b ≠ []) (all : ∀ c ∈ b, c.isDigit)
    (small : value b < 2 ^ 32) : lexicalCast b = some (value b) := by
  have cast : castDigits b = some (value b) := if_pos ⟨nonempty, by simpa using all, small⟩
  unfold lexicalCast
  split
  · exact absurd (all '-' List.mem_cons_self) (by decide)
  · exact absurd (all '+' List.mem_cons_self) (by decide)
  · exact cast

/-! ## The names -/

theorem cString_eq {text : List Char} (noZero : Char.ofNat 0 ∉ text) : cString text = text := by
  unfold cString
  rw [List.takeWhile_eq_self_iff]
  intro c member
  simp only [ne_eq, decide_not, Bool.not_eq_true', decide_eq_false_iff_not]
  rintro rfl
  exact noZero member

theorem length_cString_lt {text : List Char} (zero : Char.ofNat 0 ∈ text) :
    (cString text).length < text.length := by
  have part : cString text <+: text := List.takeWhile_prefix _
  apply Nat.lt_of_le_of_ne part.length_le
  intro same
  have whole := part.eq_of_length same
  have kept := List.takeWhile_eq_self_iff.mp whole _ zero
  simp at kept

theorem length_cString_le (text : List Char) : (cString text).length ≤ text.length :=
  (List.takeWhile_prefix _).length_le

/-! ## Repeats -/

theorem length_scanDigits {text rest : List Char} {lnum lpad number pad : Nat}
    (scanned : scanDigits text lnum lpad = some (number, pad, rest)) :
    pad + rest.length = lpad + text.length := by
  fun_induction scanDigits text lnum lpad with
  | case1 lnum lpad =>
      cases scanned
      rfl
  | case2 => cases scanned
  | case3 lnum lpad c text isDigit sum added ih =>
      rw [ih scanned, List.length_cons]
      omega
  | case4 lnum lpad c text notDigit =>
      cases scanned
      rfl

theorem length_strippedRight_le (lprefixChars rword : List Char) :
    (strippedRight lprefixChars rword).length ≤ rword.length := by
  unfold strippedRight
  split
  · rw [List.length_drop]
    omega
  · exact Nat.le_refl _

theorem castDigits_lt {text : List Char} {number : Nat} (cast : castDigits text = some number) :
    number < 2 ^ 32 := by
  unfold castDigits at cast
  split at cast
  · cases cast
    omega
  · cases cast

theorem lexicalCast_lt {text : List Char} {number : Nat}
    (cast : lexicalCast text = some number) : number < 2 ^ 32 := by
  unfold lexicalCast at cast
  split at cast
  · obtain ⟨digits, -, rfl⟩ := Option.map_eq_some_iff.mp cast
    exact Nat.mod_lt _ (by decide)
  · exact castDigits_lt cast
  · exact castDigits_lt cast

theorem formatNumber_injective {pad first second : Nat} (firstSmall : first < 2 ^ 32)
    (secondSmall : second < 2 ^ 32)
    (same : formatNumber pad first = formatNumber pad second) : first = second := by
  have noSign : ∀ width number digits, padded width number ≠ '-' :: digits := by
    intro width number digits signed
    have isDigit : '-'.isDigit :=
      @isDigit_of_mem_padded width number '-' (by simp [signed])
    exact absurd isDigit (by decide)
  unfold formatNumber at same
  split at same <;> split at same
  · exact padded_injective pad same
  · exact absurd same (noSign _ _ _)
  · exact absurd same.symm (noSign _ _ _)
  · have digits := padded_injective _ (List.tail_eq_of_cons_eq same)
    omega

theorem length_formatNumber_le {pad number : Nat} (small : number < 2 ^ 32) :
    (formatNumber pad number).length ≤ max pad 11 := by
  unfold formatNumber
  split
  · have length := @length_padded_le pad number 10 (by decide) (by omega)
    omega
  · have length := @length_padded_le (pad - 1) (2 ^ 32 - number) 10 (by decide) (by omega)
    rw [List.length_cons]
    omega

/-- Names that the buffer does not cut are apart. -/
theorem sequenceName_injective {lprefixChars rsuffix : List Char} {pad first second : Nat}
    (short : lprefixChars.length + max pad 11 + rsuffix.length ≤ 1022)
    (firstSmall : first < 2 ^ 32) (secondSmall : second < 2 ^ 32)
    (same : sequenceName lprefixChars rsuffix pad first =
      sequenceName lprefixChars rsuffix pad second) : first = second := by
  have uncut : ∀ number, number < 2 ^ 32 →
      (sequenceName lprefixChars rsuffix pad number).toList =
        cString lprefixChars ++ formatNumber pad number ++ cString rsuffix := by
    intro number small
    have length := @length_formatNumber_le pad number small
    have stem := length_cString_le lprefixChars
    have suffix := length_cString_le rsuffix
    rw [sequenceName, String.toList_ofList, List.take_of_length_le]
    rw [List.length_append, List.length_append]
    omega
  have lists := congrArg String.toList same
  rw [uncut first firstSmall, uncut second secondSmall, List.append_cancel_right_eq,
    List.append_cancel_left_eq] at lists
  exact formatNumber_injective firstSmall secondSmall lists

theorem sequenceNames_nodup {lprefixChars rsuffix : List Char} {pad lnum rnum : Nat}
    {names : List String} (short : lprefixChars.length + max pad 11 + rsuffix.length ≤ 1022)
    (small : rnum < 2 ^ 32)
    (named : sequenceNames lprefixChars rsuffix pad lnum rnum = .ok names) : names.Nodup := by
  unfold sequenceNames at named
  split at named
  · cases named
  · cases named
    apply List.Nodup.map_on _ List.nodup_range'
    intro first isFirst second isSecond same
    rw [List.mem_range'_1] at isFirst isSecond
    exact sequenceName_injective short (by omega) (by omega) same

/-- Words that fit into the buffer together name nothing twice. -/
theorem expandSequence_nodup {left right : String} {names : List String}
    (short : left.length + right.length ≤ 1011)
    (expanded : expandSequence left right = .ok names) : names.Nodup := by
  unfold expandSequence at expanded
  dsimp only at expanded
  split at expanded
  · cases expanded
  · rename_i lnum lpad rest scanned
    have leftLength := length_scanDigits scanned
    rw [List.length_reverse, String.length_toList, Nat.zero_add] at leftLength
    have rightLength := length_strippedRight_le rest.reverse right.toList
    rw [String.length_toList] at rightLength
    split at expanded
    · cases expanded
    · rename_i rnum cast
      have rnumSmall := lexicalCast_lt cast
      split at expanded
      · cases expanded
      · have digitsLength :=
          (@List.takeWhile_prefix _ (strippedRight rest.reverse right.toList)
            fun c => !c.isAlpha).length_le
        refine sequenceNames_nodup ?_ ?_ expanded
        · rw [List.length_reverse, List.length_drop]
          omega
        · split
          · exact Nat.mod_lt _ (by decide)
          · exact rnumSmall

/-! ## The expansion -/

variable {p a b s right : String}

/-- The right word without its prefix is its number and its suffix. -/
theorem NumberedWords.strippedRight_eq (words : NumberedWords p a b s right) :
    strippedRight p.toList right.toList = b.toList ++ s.toList := by
  apply RangeExpandingVisitor.strippedRight_eq
  rcases words.right with rfl | ⟨rfl, empty | apart⟩
  · left
    simp
  · right
    exact ⟨by simp, Or.inl (by simp [empty])⟩
  · right
    exact ⟨by simp, Or.inr (by simpa using apart)⟩

/-- The loop of two numbers that fit. -/
theorem NumberedWords.loop_eq (words : NumberedWords p a b s right) (someLeft : a ≠ "")
    (few : a.length ≤ 309) (small : value a.toList < 2 ^ 32) :
    sequenceLoop (p ++ a) right =
      .ok ⟨p.toList, s.toList, max a.length b.length, value a.toList,
        raisedNumber (value a.toList) (value b.toList)⟩ := by
  obtain ⟨someRight, rightDigits⟩ := words.rightDigits
  have nonemptyLeft : a.toList ≠ [] := by simpa using someLeft
  have nonemptyRight : b.toList ≠ [] := by simpa using someRight
  have scanned := scanDigits_word words.stem words.leftDigits few small
  have digits := takeWhile_digits rightDigits words.suffix
  have cast := lexicalCast_digits nonemptyRight rightDigits words.fits
  have lengthRight : b.toList.length = b.length := String.length_toList
  have p1ok : p.toList.length ≠ (p ++ a).toList.length := by
    have := List.length_pos_iff.mpr nonemptyLeft
    rw [String.toList_append, List.length_append]
    omega
  have p2ok : s.toList.length ≠ (b.toList ++ s.toList).length := by
    have := List.length_pos_iff.mpr nonemptyRight
    rw [List.length_append]
    omega
  have dropped : (b.toList ++ s.toList).drop b.length = s.toList := List.drop_left' lengthRight
  unfold sequenceLoop
  simp only [scanned, List.reverse_reverse, words.strippedRight_eq, digits, cast, lengthRight,
    dropped]
  simp only [p1ok, p2ok, ne_eq, not_false_eq_true, decide_true, Bool.not_true, Bool.or_self,
    Bool.false_eq_true, if_false]

theorem NumberedWords.expand_eq (words : NumberedWords p a b s right) (someLeft : a ≠ "")
    (few : a.length ≤ 309) (small : value a.toList < 2 ^ 32) :
    expandSequence (p ++ a) right =
      sequenceNames p.toList s.toList (max a.length b.length) (value a.toList)
        (raisedNumber (value a.toList) (value b.toList)) := by
  rw [expandSequence_eq, words.loop_eq someLeft few small]
  rfl

/-- With at most 309 digits on the left, the expansion is a name for every
number. -/
theorem SequenceWords.expand_eq (words : SequenceWords p a b s right) (few : a.length ≤ 309) :
    expandSequence (p ++ a) right =
      .ok ((List.range' (value a.toList) (value b.toList - value a.toList + 1)).map
        (sequenceName p.toList s.toList (max a.length b.length))) := by
  have ordered := words.ordered
  have small := words.small
  have count : value b.toList + 1 - value a.toList = value b.toList - value a.toList + 1 := by
    omega
  have notLast : value b.toList ≠ 2 ^ 32 - 1 := by omega
  rw [words.numbered.expand_eq words.leftDigits.1 few (by omega), raisedNumber,
    if_neg (Nat.not_lt_of_le ordered), sequenceNames, if_neg notLast, count]

/-- A number of the right word takes no more digits than the words have. -/
theorem NumberedWords.length_padded (words : NumberedWords p a b s right) {number : Nat}
    (atMost : number ≤ value b.toList) :
    (padded (max a.length b.length) number).length = max a.length b.length := by
  have nonempty : b.length ≠ 0 := fun zero => words.rightDigits.1 (String.length_eq_zero_iff.mp zero)
  apply DecimalText.length_padded (by omega)
  calc number ≤ value b.toList := atMost
    _ < 10 ^ b.toList.length := value_lt words.rightDigits.2
    _ ≤ 10 ^ max a.length b.length := by
        rw [String.length_toList]
        exact Nat.pow_le_pow_right (by decide) (Nat.le_max_right ..)

/-- A name is whole if and only if the buffer holds it and no zero byte cuts
it. -/
theorem NumberedWords.name_eq_iff (words : NumberedWords p a b s right) {number : Nat}
    (small : number < 2 ^ 31) (atMost : number ≤ value b.toList) :
    sequenceName p.toList s.toList (max a.length b.length) number =
        p ++ String.ofList (padded (max a.length b.length) number) ++ s ↔
      p.length + max a.length b.length + s.length ≤ 1022 ∧
        Char.ofNat 0 ∉ p.toList ∧ Char.ofNat 0 ∉ s.toList := by
  have digits := words.length_padded atMost
  constructor
  · intro same
    have lengths := congrArg (fun name => name.toList.length) same
    simp only [sequenceName, formatNumber, if_pos small, String.toList_ofList,
      String.toList_append, List.length_append, List.length_take, digits] at lengths
    have shortStem := length_cString_le p.toList
    have shortSuffix := length_cString_le s.toList
    rw [String.length_toList] at shortStem shortSuffix
    simp only [String.length_toList] at lengths
    refine ⟨by omega, fun zero => ?_, fun zero => ?_⟩
    · have := length_cString_lt zero
      rw [String.length_toList] at this
      omega
    · have := length_cString_lt zero
      rw [String.length_toList] at this
      omega
  · rintro ⟨short, stem, suffix⟩
    rw [sequenceName, cString_eq stem, cString_eq suffix, formatNumber, if_pos small,
      List.take_of_length_le]
    · simp [String.ofList_append, String.append_assoc]
    · rw [List.length_append, List.length_append, digits, String.length_toList,
        String.length_toList]
      omega

theorem SequenceWords.expand_undefined (words : SequenceWords p a b s right)
    (many : 309 < a.length) : expandSequence (p ++ a) right = .error .undefined := by
  have scanned : scanDigits (p ++ a).toList.reverse 0 0 = none := by
    rw [String.toList_append, List.reverse_append]
    apply scanDigits_undefined words.leftDigits.2 _ (by decide)
    rwa [Nat.zero_add, String.length_toList]
  unfold expandSequence
  simp only [scanned]

/-- The sequence expands to its names, all different, if and only if the left
number has at most 309 digits and no name has a zero byte. -/
theorem expandSequence_iff (words : SequenceWords p a b s right) :
    (expandSequence (p ++ a) right = .ok (sequenceOf p a b s) ∧ (sequenceOf p a b s).Nodup) ↔
      a.length ≤ 309 ∧ Char.ofNat 0 ∉ p.toList ∧ Char.ofNat 0 ∉ s.toList := by
  have ordered := words.ordered
  constructor
  · rintro ⟨expanded, -⟩
    have few : a.length ≤ 309 := by
      by_contra many
      rw [words.expand_undefined (Nat.lt_of_not_le many)] at expanded
      simp at expanded
    refine ⟨few, ?_⟩
    rw [words.expand_eq few, sequenceOf] at expanded
    have names := Except.ok.inj expanded
    have first := (List.map_inj_left.mp names) (value a.toList) (by simp)
    have small := words.small
    exact ((words.numbered.name_eq_iff (by omega) ordered).mp first).2
  · rintro ⟨few, stem, suffix⟩
    refine ⟨?_, sequenceOf_nodup p a b s⟩
    rw [words.expand_eq few, sequenceOf]
    apply congrArg Except.ok
    apply List.map_congr_left
    intro number member
    rw [List.mem_range'_1] at member
    have small := words.small
    have short := words.short
    exact (words.numbered.name_eq_iff (by omega) (by omega)).mpr ⟨by omega, stem, suffix⟩

theorem sequenceWords_padding : SequenceWords "asdf" "1" "0020" "foo" "asdf0020foo" where
  stem := by
    intro c last
    obtain rfl : 'f' = c := Option.some.inj last
    decide
  leftDigits := ⟨by decide, List.all_eq_true.mp (by decide)⟩
  rightDigits := ⟨by decide, List.all_eq_true.mp (by decide)⟩
  ordered := by decide
  small := by decide
  suffix := by
    intro c first
    obtain rfl : 'f' = c := Option.some.inj first
    decide
  short := by decide
  right := Or.inl (by decide)

theorem expandSequence_padding :
    (expandSequence ("asdf" ++ "1") "asdf0020foo" = .ok (sequenceOf "asdf" "1" "0020" "foo") ∧
      (sequenceOf "asdf" "1" "0020" "foo").Nodup) ↔
      "1".length ≤ 309 ∧ Char.ofNat 0 ∉ "asdf".toList ∧ Char.ofNat 0 ∉ "foo".toList :=
  expandSequence_iff sequenceWords_padding

/-- The number three, with zeros before it. -/
def paddedThree (count : Nat) : String :=
  String.ofList (List.replicate count '0' ++ ['3'])

theorem length_paddedThree (count : Nat) : (paddedThree count).length = count + 1 := by
  rw [paddedThree, String.length_ofList, List.length_append, List.length_replicate]
  rfl

theorem value_paddedThree (count : Nat) : value (paddedThree count).toList = 3 := by
  have zeros : value (List.replicate count '0') = 0 := by
    rw [value, Nat.ofDigitChars_replicate_zero, Nat.mul_zero]
  rw [paddedThree, String.toList_ofList, value_concat, zeros]
  rfl

theorem sequenceWords_paddedThree {count : Nat} (few : count < 1022) :
    SequenceWords "" (paddedThree count) "5" "" "5" where
  stem := nofun
  leftDigits := by
    constructor
    · intro empty
      have length := length_paddedThree count
      rw [empty, String.length_empty] at length
      omega
    · intro c member
      rw [paddedThree, String.toList_ofList] at member
      rcases List.mem_append.mp member with zero | three
      · rw [List.eq_of_mem_replicate zero]
        rfl
      · rw [List.mem_singleton.mp three]
        rfl
  rightDigits := ⟨by decide, List.all_eq_true.mp (by decide)⟩
  ordered := by
    rw [value_paddedThree]
    decide
  small := by decide
  suffix := nofun
  short := by
    rw [length_paddedThree, String.length_empty, show "5".length = 1 from rfl]
    omega
  right := Or.inl (by decide)

/-- In a left word of 310 digits the first one is multiplied by infinity. -/
theorem expandSequence_paddedThree :
    ¬ ∀ p a b s right : String, SequenceWords p a b s right →
      expandSequence (p ++ a) right = .ok (sequenceOf p a b s) ∧ (sequenceOf p a b s).Nodup := by
  intro all
  have words := @sequenceWords_paddedThree 309 (by decide)
  have expanded := (all _ _ _ _ _ words).1
  rw [words.expand_undefined (by rw [length_paddedThree]; decide)] at expanded
  cases expanded

end RangeExpandingVisitor

end Rangexx
