import Mathlib.Data.List.Basic
import Rangexx.Scanner

/-!
# The turns of the scanner

What one turn of `lex__` does in each start condition, and that the turns come
to an end.
-/

namespace Rangexx

namespace RangeScanner

open OutputRun

/-- The three ways of quoting. -/
inductive Quote where
  | single
  | double
  | slash
  deriving DecidableEq, Repr

namespace Quote

def char : Quote → Char
  | .single => '\''
  | .double => '"'
  | .slash => '/'

def startCondition : Quote → StartCondition
  | .single => .squotedstring
  | .double => .dquotedstring
  | .slash => .regex

def kind : Quote → TokenKind
  | .single => .singlequoted
  | .double => .doublequoted
  | .slash => .regex

end Quote

variable {functions : SymbolTable} {startCondition : StartCondition}
  {statestack : List StartCondition} {matched input : List Char}
  {final : Option FinalData} {state next rule : Nat} {ch : Char}

/-! ## Ranges -/

/-- The ranges with one character, and its code. -/
def singleRanges : List (Nat × Nat) :=
  [(1, 9), (2, 10), (4, 13), (6, 32), (8, 34), (12, 38), (13, 39), (16, 44), (17, 45), (18, 46),
    (19, 47), (25, 92)]

theorem ranges_length : ranges.length = 256 := by
  decide +kernel

theorem ranges_table : ∀ entry ∈ ranges.zipIdx, entry.1 < 35 ∧ (entry.1 = 0 ↔ entry.2 ≤ 8) ∧
    (0x80 ≤ entry.2 → entry.1 = 34) ∧
      ∀ pair ∈ singleRanges, entry.1 = pair.1 → entry.2 = pair.2 := by
  decide +kernel

theorem mem_ranges {code : Nat} (byte : code < 256) :
    (ranges.getD code 34, code) ∈ ranges.zipIdx := by
  rw [← ranges_length] at byte
  rw [List.mk_mem_zipIdx_iff_getElem?, List.getD_eq_getElem?_getD,
    List.getElem?_eq_getElem byte, Option.getD_some]

theorem getRange_beyond (beyond : 256 ≤ ch.toNat) : getRange (some ch) = 34 := by
  have length := ranges_length
  change ranges.getD ch.toNat 34 = 34
  rw [List.getD_eq_getElem?_getD, List.getElem?_eq_none (by omega)]
  rfl

example : getRange (some 'λ') = 34 := by decide +kernel

/-- The characters that are not put back have one range. -/
theorem getRange_high (high : 0x80 ≤ ch.toNat) : getRange (some ch) = 34 := by
  by_cases byte : ch.toNat < 256
  · exact (ranges_table _ (mem_ranges byte)).2.2.1 high
  · exact getRange_beyond (Nat.le_of_not_lt byte)

theorem getRange_some_lt (ch : Char) : getRange (some ch) < 35 := by
  by_cases byte : ch.toNat < 256
  · exact (ranges_table _ (mem_ranges byte)).1
  · rw [getRange_beyond (Nat.le_of_not_lt byte)]
    decide

theorem getRange_lt (ch : Option Char) : getRange ch < 36 := by
  cases ch with
  | none => decide
  | some ch => exact Nat.lt_trans (getRange_some_lt ch) (by decide)

/-- A range of one character stands for it. -/
theorem eq_of_getRange {ch other : Char} (same : getRange (some ch) = getRange (some other))
    (single : (getRange (some other), other.toNat) ∈ singleRanges) : ch = other := by
  have notLast : ∀ pair ∈ singleRanges, pair.1 ≠ 34 := by decide
  apply Char.ext
  apply UInt32.toNat_inj.mp
  by_cases byte : ch.toNat < 256
  · exact (ranges_table _ (mem_ranges byte)).2.2.2 _ single same
  · exact absurd (same.symm.trans (getRange_beyond (Nat.le_of_not_lt byte))) (notLast _ single)

/-! ## The states -/

/-- The states, beyond the first of each start condition, that no character
continues. -/
def lastStates : List (StartCondition × Nat) :=
  [(.initial, 2), (.initial, 3), (.initial, 4), (.initial, 5), (.initial, 6), (.initial, 8),
    (.initial, 9), (.squotedstring, 1), (.squotedstring, 2), (.squotedstring, 3),
    (.dquotedstring, 1), (.dquotedstring, 2), (.dquotedstring, 3), (.regex, 1), (.regex, 2),
    (.regex, 3), (.escape, 1), (.setoperation, 1), (.setoperation, 2), (.setoperation, 3),
    (.bareword, 1), (.bareword, 2), (.bareword, 4), (.bareword, 5)]

theorem lastStates_table :
    lastStates.all (fun pair => (List.range 36).all fun range =>
      entry pair.1 pair.2 range = none) = true := by
  decide +kernel

theorem entry_last (last : (startCondition, state) ∈ lastStates) (ch : Option Char) :
    entry startCondition state (getRange ch) = none := by
  have rows := List.all_eq_true.mp lastStates_table _ last
  exact of_decide_eq_true
    (List.all_eq_true.mp rows _ (List.mem_range.mpr (getRange_lt ch)))

example : entry .regex 3 (getRange (some 'a')) = none := by decide +kernel

theorem initial_table :
    (∀ range ∈ [9, 20, 23, 28, 30], entry .initial 0 range = some 4) ∧
      (∀ range ∈ [7, 11, 12, 14, 17, 21, 27, 31, 33], entry .initial 0 range = some 2) ∧
        (∀ range ∈ [1, 2, 4, 6], entry .initial 0 range = some 1 ∧
          entry .initial 1 range = some 1) ∧
          (∀ range < 36, range ∉ [1, 2, 4, 6] → entry .initial 1 range = none) ∧
            ∀ range < 36, range ≠ 18 → entry .initial 7 range = none := by
  decide +kernel

theorem escape_table : ∀ range < 35, range ∉ [0, 2] → entry .escape 0 range = some 1 := by
  decide +kernel

theorem setoperation_table :
    ∀ range < 35, range ∉ [0, 2, 17, 12] → entry .setoperation 0 range = some 1 := by
  decide +kernel

example : entry .setoperation 0 (getRange (some '"')) = some 1 := by decide +kernel

theorem bareword_table :
    (∀ range ∈ [9, 17, 20, 23, 28, 30], entry .bareword 0 range = some 2) ∧
      (∀ range < 35, range ∉ [0, 2, 18] → range ∉ [9, 17, 20, 23, 28, 30] →
        entry .bareword 0 range = some 1) ∧
        ∀ range < 36, range ≠ 18 → entry .bareword 3 range = none := by
  decide +kernel

/-- The ranges that no rule of a start condition begins with. -/
theorem stuck_table :
    (∀ range < 36, range ∉ [1, 2, 4, 6, 9, 20, 23, 28, 30, 7, 11, 12, 14, 17, 21, 27, 31, 33] →
      range ∉ [8, 13, 16, 18, 19] → entry .initial 0 range = none) ∧
      (∀ range ∈ [0, 2, 35], entry .squotedstring 0 range = none ∧
        entry .dquotedstring 0 range = none ∧ entry .regex 0 range = none ∧
          entry .escape 0 range = none ∧ entry .setoperation 0 range = none) ∧
        ∀ range ∈ [0, 2], entry .bareword 0 range = none := by
  decide +kernel

theorem quote_table (quote : Quote) :
    ∀ range < 35, range ∉ [0, 2, getRange (some quote.char), 25] →
      entry quote.startCondition 0 range = some 1 := by
  cases quote <;> decide +kernel

/-! ## Reading -/

theorem reReadCh_head (input : List Char) : reReadCh input.head? input.tail = input := by
  cases input <;> rfl

/-- The scanner stops reading at what has no continuation. -/
theorem readOn_stop
    (stops : entry startCondition state (getRange input.head?) = none) :
    readOn startCondition state matched final input =
      ⟨actionType startCondition state (getRange input.head?) matched
          (updateFinals startCondition state matched final),
        input.head?, matched, updateFinals startCondition state matched final, input.tail⟩ := by
  have notOn : ∀ nextState,
      actionType startCondition state (getRange input.head?) matched
        (updateFinals startCondition state matched final) ≠ .advance nextState := by
    intro nextState
    unfold actionType
    rw [stops]
    dsimp only
    split
    · exact nofun
    · split
      · exact nofun
      · split <;> exact nofun
  cases input with
  | nil =>
      rw [readOn]
      dsimp only [List.head?_nil] at notOn ⊢
      split
      · rename_i nextState same
        exact absurd same (notOn nextState)
      · rfl
  | cons ch input =>
      rw [readOn]
      dsimp only [List.head?_cons] at notOn ⊢
      split
      · rename_i nextState same
        exact absurd same (notOn nextState)
      · rfl

theorem readOn_advance (goesOn : entry startCondition state (getRange (some ch)) = some next) :
    readOn startCondition state matched final (ch :: input) =
      readOn startCondition next (matched ++ [ch])
        (updateFinals startCondition state matched final) input := by
  have action : actionType startCondition state (getRange (some ch)) matched
      (updateFinals startCondition state matched final) = .advance next := by
    unfold actionType
    rw [goesOn]
  rw [readOn, action]

theorem updateFinals_of_rule (isFinal : ruleAt startCondition state = some rule) :
    updateFinals startCondition state matched final = some ⟨rule, matched.length⟩ := by
  unfold updateFinals
  rw [isFinal]

theorem updateFinals_of_none (noFinal : ruleAt startCondition state = none) :
    updateFinals startCondition state matched final = final := by
  unfold updateFinals
  rw [noFinal]

theorem ruleAt_zero (startCondition : StartCondition) : ruleAt startCondition 0 = none := by
  cases startCondition <;> decide

/-- When the scanner stops in a state with a rule, it executes the action of the
rule on all that it has matched. -/
theorem lexTurn_of_readOn {text : List Char} {scanner : Scanner}
    (reads : readOn scanner.startCondition 0 scanner.matched none scanner.input =
      readOn scanner.startCondition state text final input)
    (isFinal : ruleAt scanner.startCondition state = some rule)
    (stops : entry scanner.startCondition state (getRange input.head?) = none) :
    lexTurn functions scanner =
      (executeAction functions { scanner with matched := text, input := input } rule).turn := by
  have action : actionType scanner.startCondition state (getRange input.head?) text
      (some ⟨rule, text.length⟩) = .matched := by
    unfold actionType
    rw [stops]
    rfl
  unfold lexTurn
  rw [reads, readOn_stop stops, updateFinals_of_rule isFinal]
  dsimp only
  rw [action]
  dsimp only [Option.getD_some]
  rw [List.take_length, List.drop_length, reReadCh_head]
  rfl

/-- A character that has a rule of its own. -/
theorem lexTurn_rule (next rule : Nat)
    (first : entry startCondition 0 (getRange (some ch)) = some next)
    (isFinal : ruleAt startCondition next = some rule)
    (stops : entry startCondition next (getRange input.head?) = none) :
    lexTurn functions ⟨startCondition, statestack, matched, ch :: input⟩ =
      (executeAction functions ⟨startCondition, statestack, matched ++ [ch], input⟩ rule).turn := by
  apply @lexTurn_of_readOn functions input none next rule (matched ++ [ch])
    ⟨startCondition, statestack, matched, ch :: input⟩ _ isFinal stops
  rw [readOn_advance first, updateFinals_of_none (ruleAt_zero startCondition)]

/-- With nothing to go on with, the first character matched before is dropped,
and the others are read again. -/
theorem lexTurn_echoFirst (stops : entry startCondition 0 (getRange input.head?) = none)
    (some : matched ≠ []) :
    lexTurn functions ⟨startCondition, statestack, matched, input⟩ =
      .quiet ⟨startCondition, statestack, [], reRead matched.tail input⟩ := by
  unfold lexTurn
  dsimp only
  rw [readOn_stop stops, updateFinals_of_none (ruleAt_zero startCondition)]
  unfold actionType
  rw [stops]
  simp only [Option.isSome_none, Bool.false_eq_true, if_false, ne_eq, some, not_false_eq_true,
    if_true, reReadCh_head, List.drop_one]

/-- With nothing matched before, the next character is dropped. -/
theorem lexTurn_echoCh (stops : entry startCondition 0 (getRange (some ch)) = none) :
    lexTurn functions ⟨startCondition, statestack, [], ch :: input⟩ =
      .quiet ⟨startCondition, statestack, [], input⟩ := by
  have notEof : getRange (some ch) ≠ rangeOfEof := Nat.ne_of_lt (getRange_some_lt ch)
  unfold lexTurn
  dsimp only
  rw [@readOn_stop startCondition [] (ch :: input) none 0 stops,
    updateFinals_of_none (ruleAt_zero startCondition)]
  unfold actionType
  dsimp only [List.head?_cons]
  rw [stops]
  simp [notEof]

theorem lexTurn_leave (stops : entry startCondition 0 (getRange none) = none) :
    lexTurn functions ⟨startCondition, statestack, [], []⟩ = .finish := by
  unfold lexTurn
  dsimp only
  rw [@readOn_stop startCondition [] [] none 0 stops,
    updateFinals_of_none (ruleAt_zero startCondition)]
  unfold actionType
  dsimp only [List.head?_nil]
  rw [stops]
  simp [getRange]

/-! ## Characters -/

/-- `[\ \t\n\r]`. -/
def Space (ch : Char) : Prop :=
  ch = ' ' ∨ ch = '\t' ∨ ch = '\n' ∨ ch = '\r'

instance (ch : Char) : Decidable (Space ch) :=
  inferInstanceAs (Decidable (_ ∨ _))

/-- `[a-zA-Z0-9_#]`. -/
def WordStart (ch : Char) : Prop :=
  getRange (some ch) ∈ [9, 20, 23, 28, 30]

/-- `[a-zA-Z0-9_\-#]`. -/
def WordChar (ch : Char) : Prop :=
  getRange (some ch) ∈ [9, 17, 20, 23, 28, 30]

/-- `[!\-&^;:*%(){}]`. -/
def Operator (ch : Char) : Prop :=
  getRange (some ch) ∈ [7, 11, 12, 14, 17, 21, 27, 31, 33]

/-- The characters from 0 to 8 belong to no rule. -/
def Control (ch : Char) : Prop :=
  ch.toNat ≤ 8

instance (ch : Char) : Decidable (Control ch) :=
  inferInstanceAs (Decidable (_ ≤ _))

theorem getRange_newline : getRange (some '\n') = 2 := by decide

theorem getRange_eq_two_iff : getRange (some ch) = 2 ↔ ch = '\n' := by
  constructor
  · intro range
    exact eq_of_getRange (range.trans getRange_newline.symm) (by decide)
  · rintro rfl
    exact getRange_newline

theorem getRange_eq_zero_iff : getRange (some ch) = 0 ↔ Control ch := by
  unfold Control
  by_cases byte : ch.toNat < 256
  · exact (ranges_table _ (mem_ranges byte)).2.1
  · rw [getRange_beyond (Nat.le_of_not_lt byte)]
    omega

theorem space_iff : Space ch ↔ getRange (some ch) ∈ [1, 2, 4, 6] := by
  constructor
  · rintro (rfl | rfl | rfl | rfl) <;> decide
  · intro range
    simp only [List.mem_cons, List.not_mem_nil, or_false] at range
    rcases range with range | range | range | range
    · exact Or.inr (Or.inl (eq_of_getRange (range.trans (by decide)) (by decide)))
    · exact Or.inr (Or.inr (Or.inl (getRange_eq_two_iff.mp range)))
    · exact Or.inr (Or.inr (Or.inr (eq_of_getRange (range.trans (by decide)) (by decide))))
    · exact Or.inl (eq_of_getRange (range.trans (by decide)) (by decide))

theorem dot_iff : ch = '.' ↔ getRange (some ch) = 18 := by
  constructor
  · rintro rfl
    decide
  · intro range
    exact eq_of_getRange (range.trans (by decide)) (by decide)

/-! ## The initial state -/

theorem entry_one (ch : Option Char) (notSpace : ∀ c ∈ ch, ¬ Space c) :
    entry .initial 1 (getRange ch) = none := by
  apply initial_table.2.2.2.1 _ (getRange_lt ch)
  cases ch with
  | none => decide
  | some c => exact fun range => notSpace c rfl (space_iff.mpr range)

theorem readOn_spaces {spaces : List Char} (all : ∀ c ∈ spaces, Space c)
    (matched input : List Char) (final : Option FinalData) :
    ∃ last, readOn .initial 1 matched final (spaces ++ input) =
      readOn .initial 1 (matched ++ spaces) last input := by
  induction spaces generalizing matched final with
  | nil => exact ⟨final, by rw [List.append_nil, List.nil_append]⟩
  | cons c spaces ih =>
      have goesOn := (initial_table.2.2.1 _ (space_iff.mp (all c List.mem_cons_self))).2
      obtain ⟨last, reads⟩ := ih (fun other member => all other (List.mem_cons_of_mem c member))
        (matched ++ [c]) (updateFinals .initial 1 matched final)
      refine ⟨last, ?_⟩
      rw [List.cons_append, readOn_advance goesOn, reads, List.append_assoc,
        List.singleton_append]

/-- A run of whitespace is skipped. -/
theorem lexTurn_spaces {spaces : List Char} (all : ∀ c ∈ spaces, Space c) (some : spaces ≠ [])
    (stop : ∀ c ∈ input.head?, ¬ Space c) :
    lexTurn functions ⟨.initial, statestack, matched, spaces ++ input⟩ =
      .quiet ⟨.initial, statestack, [], input⟩ := by
  obtain ⟨c, spaces, rfl⟩ := List.exists_cons_of_ne_nil some
  have goesOn := (initial_table.2.2.1 _ (space_iff.mp (all c List.mem_cons_self))).1
  obtain ⟨last, reads⟩ := readOn_spaces
    (fun other member => all other (List.mem_cons_of_mem c member)) (matched ++ [c]) input
    (updateFinals .initial 0 matched none)
  have isFinal : ruleAt .initial 1 = .some 0 := by decide
  rw [@lexTurn_of_readOn functions input last 1 0 _
    ⟨.initial, statestack, matched, (c :: spaces) ++ input⟩
    (by rw [List.cons_append, readOn_advance goesOn, reads]) isFinal (entry_one _ stop)]
  rfl

theorem lexTurn_open (quote : Quote) :
    lexTurn functions ⟨.initial, statestack, matched, quote.char :: input⟩ =
      .quiet ⟨quote.startCondition, statestack, [], input⟩ := by
  cases quote with
  | single =>
      have first : entry .initial 0 (getRange (some Quote.single.char)) = some 5 := by decide
      exact lexTurn_rule 5 10 first (by decide) (entry_last (by decide) _)
  | double =>
      have first : entry .initial 0 (getRange (some Quote.double.char)) = some 3 := by decide
      exact lexTurn_rule 3 6 first (by decide) (entry_last (by decide) _)
  | slash =>
      have first : entry .initial 0 (getRange (some Quote.slash.char)) = some 8 := by decide
      exact lexTurn_rule 8 2 first (by decide) (entry_last (by decide) _)

theorem lexTurn_comma :
    lexTurn functions ⟨.initial, statestack, matched, ',' :: input⟩ =
      .quiet ⟨.setoperation, statestack, [], input⟩ := by
  have first : entry .initial 0 (getRange (some ',')) = some 6 := by decide
  exact lexTurn_rule 6 14 first (by decide) (entry_last (by decide) _)

theorem lexTurn_wordStart (start : WordStart ch) :
    lexTurn functions ⟨.initial, statestack, matched, ch :: input⟩ =
      .quiet ⟨.bareword, statestack, matched ++ [ch], input⟩ := by
  exact lexTurn_rule 4 19 (initial_table.1 _ start) (by decide) (entry_last (by decide) _)

theorem lexTurn_operator (operator : Operator ch) :
    lexTurn functions ⟨.initial, statestack, matched, ch :: input⟩ =
      .emit ⟨.char ((matched ++ [ch]).headD (Char.ofNat 0)), matched ++ [ch]⟩
        ⟨.initial, statestack, [], input⟩ := by
  exact lexTurn_rule 2 25 (initial_table.2.1 _ operator) (by decide) (entry_last (by decide) _)

theorem lexTurn_dots :
    lexTurn functions ⟨.initial, statestack, matched, '.' :: '.' :: input⟩ =
      .emit ⟨.sequence, matched ++ ['.', '.']⟩ ⟨.initial, statestack, [], input⟩ := by
  have first : entry .initial 0 (getRange (some '.')) = some 7 := by decide
  have second : entry .initial 7 (getRange (some '.')) = some 9 := by decide
  have last : (.initial, 9) ∈ lastStates := by decide
  have isFinal : ruleAt .initial 9 = some 18 := by decide
  rw [@lexTurn_of_readOn functions input none 9 18 (matched ++ ['.', '.'])
    ⟨.initial, statestack, matched, '.' :: '.' :: input⟩ _ isFinal (entry_last last _)]
  · rfl
  · rw [readOn_advance first, readOn_advance second, List.append_assoc,
      updateFinals_of_none (ruleAt_zero .initial)]
    rfl

/-- One dot alone stands for nothing. -/
theorem lexTurn_dot (alone : input.head? ≠ some '.') :
    lexTurn functions ⟨.initial, statestack, matched, '.' :: input⟩ =
      .quiet ⟨.initial, statestack, [], reRead (matched ++ ['.']).tail input⟩ := by
  have first : entry .initial 0 (getRange (some '.')) = some 7 := by decide
  have stops : entry .initial 7 (getRange input.head?) = none := by
    apply initial_table.2.2.2.2 _ (getRange_lt _)
    intro range
    cases next : input.head? with
    | none =>
        rw [next] at range
        exact absurd range (by decide)
    | some c =>
        rw [next] at range alone
        exact alone (congrArg some (dot_iff.mpr range))
  have noFinal : ruleAt .initial 7 = none := by decide
  unfold lexTurn
  dsimp only
  rw [readOn_advance first, readOn_stop stops, updateFinals_of_none noFinal,
    updateFinals_of_none (ruleAt_zero .initial)]
  unfold actionType
  rw [stops]
  simp [reReadCh_head]

/-! ## The other states -/

theorem lexTurn_escape (notControl : ¬ Control ch) (notNewline : ch ≠ '\n') :
    lexTurn functions ⟨.escape, statestack, matched, ch :: input⟩ =
      .quiet ⟨statestack.headD .initial, statestack.tail, matched ++ [ch], input⟩ := by
  have first := escape_table _ (getRange_some_lt ch) (by
    simp [mt getRange_eq_zero_iff.mp notControl, mt getRange_eq_two_iff.mp notNewline])
  exact lexTurn_rule 1 1 first (by decide) (entry_last (by decide) _)

/-- The action that sets the last character aside leaves what was before it. -/
theorem take_concat (ch : Char) :
    (matched ++ [ch]).take ((matched ++ [ch]).length - 1) = matched := by
  rw [List.length_append, List.length_singleton, Nat.add_sub_cancel, List.take_left]

theorem drop_concat (ch : Char) :
    (matched ++ [ch]).drop ((matched ++ [ch]).length - 1) = [ch] := by
  rw [List.length_append, List.length_singleton, Nat.add_sub_cancel, List.drop_left]

theorem lexTurn_close (quote : Quote) :
    lexTurn functions ⟨quote.startCondition, statestack, matched, quote.char :: input⟩ =
      .emit ⟨quote.kind, matched⟩ ⟨.initial, statestack, matched, input⟩ := by
  have first : entry quote.startCondition 0 (getRange (some quote.char)) = some 2 := by
    cases quote <;> decide
  cases quote with
  | single =>
      rw [lexTurn_rule 2 12 first (by decide) (entry_last (by decide) _)]
      simp only [executeAction, Acted.turn, Acted.reset, Scanner.begin, Scanner.discard,
        take_concat, if_true, Quote.kind]
  | double =>
      rw [lexTurn_rule 2 8 first (by decide) (entry_last (by decide) _)]
      simp only [executeAction, Acted.turn, Acted.reset, Scanner.begin, Scanner.discard,
        take_concat, if_true, Quote.kind]
  | slash =>
      rw [lexTurn_rule 2 4 first (by decide) (entry_last (by decide) _)]
      simp only [executeAction, Acted.turn, Acted.reset, Scanner.begin, Scanner.discard,
        take_concat, if_true, Quote.kind]

theorem lexTurn_backslash (quote : Quote) :
    lexTurn functions ⟨quote.startCondition, statestack, matched, '\\' :: input⟩ =
      .quiet ⟨.escape, quote.startCondition :: statestack, matched, input⟩ := by
  have first : entry quote.startCondition 0 (getRange (some '\\')) = some 3 := by
    cases quote <;> decide
  cases quote with
  | single =>
      rw [lexTurn_rule 3 11 first (by decide) (entry_last (by decide) _)]
      simp only [executeAction, Acted.turn, Acted.reset, Scanner.begin, Scanner.push,
        Scanner.discard, take_concat, if_true, Quote.startCondition]
  | double =>
      rw [lexTurn_rule 3 7 first (by decide) (entry_last (by decide) _)]
      simp only [executeAction, Acted.turn, Acted.reset, Scanner.begin, Scanner.push,
        Scanner.discard, take_concat, if_true, Quote.startCondition]
  | slash =>
      rw [lexTurn_rule 3 3 first (by decide) (entry_last (by decide) _)]
      simp only [executeAction, Acted.turn, Acted.reset, Scanner.begin, Scanner.push,
        Scanner.discard, take_concat, if_true, Quote.startCondition]

theorem lexTurn_quoted (quote : Quote) (notControl : ¬ Control ch) (notNewline : ch ≠ '\n')
    (notQuote : ch ≠ quote.char) (notBackslash : ch ≠ '\\') :
    lexTurn functions ⟨quote.startCondition, statestack, matched, ch :: input⟩ =
      .quiet ⟨quote.startCondition, statestack, matched ++ [ch], input⟩ := by
  have apart : getRange (some ch) ≠ getRange (some quote.char) := by
    intro same
    apply notQuote
    cases quote <;> exact eq_of_getRange same (by decide)
  have escapes : getRange (some ch) ≠ 25 := by
    intro same
    exact notBackslash (eq_of_getRange (same.trans (by decide)) (by decide))
  have first := quote_table quote _ (getRange_some_lt ch) (by
    simp [mt getRange_eq_zero_iff.mp notControl, mt getRange_eq_two_iff.mp notNewline, apart,
      escapes])
  cases quote with
  | single => exact lexTurn_rule 1 13 first (by decide) (entry_last (by decide) _)
  | double => exact lexTurn_rule 1 9 first (by decide) (entry_last (by decide) _)
  | slash => exact lexTurn_rule 1 5 first (by decide) (entry_last (by decide) _)

theorem lexTurn_minus :
    lexTurn functions ⟨.setoperation, statestack, matched, '-' :: input⟩ =
      .emit ⟨.char '-', matched ++ ['-']⟩ ⟨.initial, statestack, [], input⟩ := by
  have first : entry .setoperation 0 (getRange (some '-')) = some 3 := by decide
  exact lexTurn_rule 3 15 first (by decide) (entry_last (by decide) _)

theorem lexTurn_ampersand :
    lexTurn functions ⟨.setoperation, statestack, matched, '&' :: input⟩ =
      .emit ⟨.char '&', matched ++ ['&']⟩ ⟨.initial, statestack, [], input⟩ := by
  have first : entry .setoperation 0 (getRange (some '&')) = some 2 := by decide
  exact lexTurn_rule 2 16 first (by decide) (entry_last (by decide) _)

/-- Any other character ends a comma and is read again. -/
theorem lexTurn_operand (notControl : ¬ Control ch) (notNewline : ch ≠ '\n')
    (notMinus : ch ≠ '-') (notAmpersand : ch ≠ '&') :
    lexTurn functions ⟨.setoperation, statestack, matched, ch :: input⟩ =
      .emit ⟨.char ',', matched⟩ ⟨.initial, statestack, [], reRead [ch] input⟩ := by
  have minus : getRange (some ch) ≠ 17 := by
    intro same
    exact notMinus (eq_of_getRange (same.trans (by decide)) (by decide))
  have ampersand : getRange (some ch) ≠ 12 := by
    intro same
    exact notAmpersand (eq_of_getRange (same.trans (by decide)) (by decide))
  have first := setoperation_table _ (getRange_some_lt ch) (by
    simp [mt getRange_eq_zero_iff.mp notControl, mt getRange_eq_two_iff.mp notNewline, minus,
      ampersand])
  rw [lexTurn_rule 1 17 first (by decide) (entry_last (by decide) _)]
  simp only [executeAction, Acted.turn, Acted.reset, Scanner.begin, Scanner.redo, take_concat,
    drop_concat, Bool.false_eq_true, if_false]

theorem lexTurn_wordChar (inWord : WordChar ch) :
    lexTurn functions ⟨.bareword, statestack, matched, ch :: input⟩ =
      .quiet ⟨.bareword, statestack, matched ++ [ch], input⟩ := by
  exact lexTurn_rule 2 20 (bareword_table.1 _ inWord) (by decide) (entry_last (by decide) _)

theorem lexTurn_wordDot (alone : input.head? ≠ some '.') :
    lexTurn functions ⟨.bareword, statestack, matched, '.' :: input⟩ =
      .quiet ⟨.bareword, statestack, matched ++ ['.'], input⟩ := by
  have first : entry .bareword 0 (getRange (some '.')) = some 3 := by decide
  have stops : entry .bareword 3 (getRange input.head?) = none := by
    apply bareword_table.2.2 _ (getRange_lt _)
    intro range
    cases next : input.head? with
    | none =>
        rw [next] at range
        exact absurd range (by decide)
    | some c =>
        rw [next] at range alone
        exact alone (congrArg some (dot_iff.mpr range))
  exact lexTurn_rule 3 22 first (by decide) stops

/-- Two dots end a word and are read again. -/
theorem lexTurn_wordDots :
    lexTurn functions ⟨.bareword, statestack, matched, '.' :: '.' :: input⟩ =
      .emit ⟨wordKind functions matched, matched⟩
        ⟨.initial, statestack, [], '.' :: '.' :: input⟩ := by
  have first : entry .bareword 0 (getRange (some '.')) = some 3 := by decide
  have second : entry .bareword 3 (getRange (some '.')) = some 5 := by decide
  have last : (.bareword, 5) ∈ lastStates := by decide
  have isFinal : ruleAt .bareword 5 = some 21 := by decide
  have isDot : ruleAt .bareword 3 = some 22 := by decide
  rw [@lexTurn_of_readOn functions input (some ⟨22, (matched ++ ['.']).length⟩) 5 21
    (matched ++ ['.', '.']) ⟨.bareword, statestack, matched, '.' :: '.' :: input⟩ _ isFinal
    (entry_last last _)]
  · have length : (matched ++ ['.', '.']).length - 2 = matched.length := by
      rw [List.length_append, List.length_cons, List.length_singleton]
      omega
    simp only [executeAction, Acted.turn, Acted.reset, Scanner.begin, Scanner.redo, length,
      List.take_left, List.drop_left, Bool.false_eq_true, if_false]
    rfl
  · rw [readOn_advance first, readOn_advance second, List.append_assoc,
      updateFinals_of_rule isDot]
    rfl

/-- Any other character ends a word and is read again. -/
theorem lexTurn_wordEnd (notControl : ¬ Control ch) (notNewline : ch ≠ '\n')
    (notWord : ¬ WordChar ch) (notDot : ch ≠ '.') :
    lexTurn functions ⟨.bareword, statestack, matched, ch :: input⟩ =
      .emit ⟨wordKind functions matched, matched⟩
        ⟨.initial, statestack, [], reRead [ch] input⟩ := by
  have first := bareword_table.2.1 _ (getRange_some_lt ch) (by
    simp [mt getRange_eq_zero_iff.mp notControl, mt getRange_eq_two_iff.mp notNewline,
      mt dot_iff.mpr notDot]) notWord
  rw [lexTurn_rule 1 23 first (by decide) (entry_last (by decide) _)]
  simp only [executeAction, Acted.turn, Acted.reset, Scanner.begin, Scanner.redo, take_concat,
    drop_concat, Bool.false_eq_true, if_false]

/-- So does the end of the input. -/
theorem lexTurn_wordEof :
    lexTurn functions ⟨.bareword, statestack, matched, []⟩ =
      .emit ⟨wordKind functions matched, matched⟩ ⟨.initial, statestack, [], []⟩ := by
  have first : entry .bareword 0 (getRange none) = some 4 := by decide
  have isFinal : ruleAt .bareword 4 = some 24 := by decide
  have stops : entry .bareword 4 (getRange none) = none := by decide
  have action : actionType .bareword 0 (getRange none) matched
      (updateFinals .bareword 0 matched none) = .advance 4 := by
    unfold actionType
    rw [first]
  have last : actionType .bareword 4 (getRange none) matched
      (some ⟨24, matched.length⟩) = .matched := by
    unfold actionType
    rw [stops]
    rfl
  unfold lexTurn
  dsimp only
  rw [readOn, action]
  dsimp only
  rw [updateFinals_of_rule isFinal, last]
  dsimp only [Option.getD_some]
  rw [List.take_length, List.drop_length]
  rfl

end RangeScanner

end Rangexx
