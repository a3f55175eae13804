import Rangexx.ScannerTurns

/-!
# The tokens of a text

Every turn of the scanner is one of a few kinds, and each kind brings the end
nearer, so that the scanner gives out a list of tokens.
-/

namespace Rangexx

namespace RangeScanner

open OutputRun

/-! ## What a turn can do -/

/-- No rule of the start condition begins with the character. -/
def Stuck (startCondition : StartCondition) (ch : Option Char) : Prop :=
  entry startCondition 0 (getRange ch) = none

inductive LexTurn (functions : SymbolTable) : Scanner → Turn Scanner Token → Prop
  | spaces {statestack matched input spaces} (all : ∀ c ∈ spaces, Space c) (some : spaces ≠ [])
      (stop : ∀ c ∈ input.head?, ¬ Space c) :
      LexTurn functions ⟨.initial, statestack, matched, spaces ++ input⟩
        (.quiet ⟨.initial, statestack, [], input⟩)
  | opened {statestack matched input} (quote : Quote) :
      LexTurn functions ⟨.initial, statestack, matched, quote.char :: input⟩
        (.quiet ⟨quote.startCondition, statestack, [], input⟩)
  | comma {statestack matched input} :
      LexTurn functions ⟨.initial, statestack, matched, ',' :: input⟩
        (.quiet ⟨.setoperation, statestack, [], input⟩)
  | wordStart {statestack matched input ch} (start : WordStart ch) :
      LexTurn functions ⟨.initial, statestack, matched, ch :: input⟩
        (.quiet ⟨.bareword, statestack, matched ++ [ch], input⟩)
  | operator {statestack matched input ch} (operator : Operator ch) :
      LexTurn functions ⟨.initial, statestack, matched, ch :: input⟩
        (.emit ⟨.char ((matched ++ [ch]).headD (Char.ofNat 0)), matched ++ [ch]⟩
          ⟨.initial, statestack, [], input⟩)
  | dots {statestack matched input} :
      LexTurn functions ⟨.initial, statestack, matched, '.' :: '.' :: input⟩
        (.emit ⟨.sequence, matched ++ ['.', '.']⟩ ⟨.initial, statestack, [], input⟩)
  | dot {statestack matched input} (alone : input.head? ≠ some '.') :
      LexTurn functions ⟨.initial, statestack, matched, '.' :: input⟩
        (.quiet ⟨.initial, statestack, [], reRead (matched ++ ['.']).tail input⟩)
  | escaped {statestack matched input ch} (notControl : ¬ Control ch) (notNewline : ch ≠ '\n') :
      LexTurn functions ⟨.escape, statestack, matched, ch :: input⟩
        (.quiet ⟨statestack.headD .initial, statestack.tail, matched ++ [ch], input⟩)
  | quoted {statestack matched input ch} (quote : Quote) (notControl : ¬ Control ch)
      (notNewline : ch ≠ '\n') (notQuote : ch ≠ quote.char) (notBackslash : ch ≠ '\\') :
      LexTurn functions ⟨quote.startCondition, statestack, matched, ch :: input⟩
        (.quiet ⟨quote.startCondition, statestack, matched ++ [ch], input⟩)
  | closed {statestack matched input} (quote : Quote) :
      LexTurn functions ⟨quote.startCondition, statestack, matched, quote.char :: input⟩
        (.emit ⟨quote.kind, matched⟩ ⟨.initial, statestack, matched, input⟩)
  | backslash {statestack matched input} (quote : Quote) :
      LexTurn functions ⟨quote.startCondition, statestack, matched, '\\' :: input⟩
        (.quiet ⟨.escape, quote.startCondition :: statestack, matched, input⟩)
  | minus {statestack matched input} :
      LexTurn functions ⟨.setoperation, statestack, matched, '-' :: input⟩
        (.emit ⟨.char '-', matched ++ ['-']⟩ ⟨.initial, statestack, [], input⟩)
  | ampersand {statestack matched input} :
      LexTurn functions ⟨.setoperation, statestack, matched, '&' :: input⟩
        (.emit ⟨.char '&', matched ++ ['&']⟩ ⟨.initial, statestack, [], input⟩)
  | operand {statestack matched input ch} (notControl : ¬ Control ch) (notNewline : ch ≠ '\n')
      (notMinus : ch ≠ '-') (notAmpersand : ch ≠ '&') :
      LexTurn functions ⟨.setoperation, statestack, matched, ch :: input⟩
        (.emit ⟨.char ',', matched⟩ ⟨.initial, statestack, [], reRead [ch] input⟩)
  | wordChar {statestack matched input ch} (inWord : WordChar ch) :
      LexTurn functions ⟨.bareword, statestack, matched, ch :: input⟩
        (.quiet ⟨.bareword, statestack, matched ++ [ch], input⟩)
  | wordDot {statestack matched input} (alone : input.head? ≠ some '.') :
      LexTurn functions ⟨.bareword, statestack, matched, '.' :: input⟩
        (.quiet ⟨.bareword, statestack, matched ++ ['.'], input⟩)
  | wordDots {statestack matched input} :
      LexTurn functions ⟨.bareword, statestack, matched, '.' :: '.' :: input⟩
        (.emit ⟨wordKind functions matched, matched⟩
          ⟨.initial, statestack, [], '.' :: '.' :: input⟩)
  | wordEnd {statestack matched input ch} (notControl : ¬ Control ch) (notNewline : ch ≠ '\n')
      (notWord : ¬ WordChar ch) (notDot : ch ≠ '.') :
      LexTurn functions ⟨.bareword, statestack, matched, ch :: input⟩
        (.emit ⟨wordKind functions matched, matched⟩
          ⟨.initial, statestack, [], reRead [ch] input⟩)
  | wordEof {statestack matched} :
      LexTurn functions ⟨.bareword, statestack, matched, []⟩
        (.emit ⟨wordKind functions matched, matched⟩ ⟨.initial, statestack, [], []⟩)
  | echoFirst {startCondition statestack matched input}
      (stuck : Stuck startCondition input.head?) (some : matched ≠ []) :
      LexTurn functions ⟨startCondition, statestack, matched, input⟩
        (.quiet ⟨startCondition, statestack, [], reRead matched.tail input⟩)
  | echoCh {startCondition statestack input ch} (stuck : Stuck startCondition (some ch)) :
      LexTurn functions ⟨startCondition, statestack, [], ch :: input⟩
        (.quiet ⟨startCondition, statestack, [], input⟩)
  | leave {startCondition statestack} (stuck : Stuck startCondition none) :
      LexTurn functions ⟨startCondition, statestack, [], []⟩ .finish

variable {functions : SymbolTable} {startCondition : StartCondition}
  {statestack : List StartCondition} {matched input : List Char} {ch : Char}

theorem lexTurn_stuck (stuck : Stuck startCondition input.head?) :
    LexTurn functions ⟨startCondition, statestack, matched, input⟩
      (lexTurn functions ⟨startCondition, statestack, matched, input⟩) := by
  by_cases empty : matched = []
  · subst empty
    cases input with
    | nil =>
        rw [lexTurn_leave stuck]
        exact .leave stuck
    | cons ch input =>
        rw [lexTurn_echoCh stuck]
        exact .echoCh stuck
  · rw [lexTurn_echoFirst stuck empty]
    exact .echoFirst stuck empty

/-- A text is a run of whitespace and a rest that does not go on with it. -/
theorem exists_spaces (input : List Char) :
    ∃ spaces rest, input = spaces ++ rest ∧ (∀ c ∈ spaces, Space c) ∧
      ∀ c ∈ rest.head?, ¬ Space c := by
  induction input with
  | nil => exact ⟨[], [], rfl, nofun, nofun⟩
  | cons ch input ih =>
      by_cases space : Space ch
      · obtain ⟨spaces, rest, rfl, all, stop⟩ := ih
        exact ⟨ch :: spaces, rest, rfl, List.forall_mem_cons.mpr ⟨space, all⟩, stop⟩
      · refine ⟨[], ch :: input, rfl, nofun, ?_⟩
        rintro c ⟨⟩
        exact space

/-- The characters with no rule in the initial state. -/
theorem stuck_initial (space : ¬ Space ch) (quotes : ¬ ∃ quote : Quote, ch = quote.char)
    (comma : ch ≠ ',') (start : ¬ WordStart ch) (operator : ¬ Operator ch) (dot : ch ≠ '.') :
    Stuck .initial (some ch) := by
  apply stuck_table.1 _ (getRange_lt _)
  · intro range
    rw [space_iff] at space
    unfold WordStart at start
    unfold Operator at operator
    simp only [List.mem_cons, List.not_mem_nil, or_false] at range space start operator
    omega
  · intro range
    simp only [List.mem_cons, List.not_mem_nil, or_false] at range
    rcases range with range | range | range | range | range
    · exact quotes ⟨.double, eq_of_getRange range (by decide)⟩
    · exact quotes ⟨.single, eq_of_getRange range (by decide)⟩
    · exact comma (eq_of_getRange range (by decide))
    · exact dot (dot_iff.mpr range)
    · exact quotes ⟨.slash, eq_of_getRange range (by decide)⟩

theorem lexTurn_initial :
    LexTurn functions ⟨.initial, statestack, matched, input⟩
      (lexTurn functions ⟨.initial, statestack, matched, input⟩) := by
  cases input with
  | nil => exact lexTurn_stuck (by unfold Stuck; decide)
  | cons ch input =>
      by_cases space : Space ch
      · obtain ⟨spaces, rest, split, all, stop⟩ := exists_spaces (ch :: input)
        have some : spaces ≠ [] := by
          rintro rfl
          rw [List.nil_append] at split
          subst split
          exact stop ch rfl space
        rw [split, lexTurn_spaces all some stop]
        exact .spaces all some stop
      by_cases quotes : ∃ quote : Quote, ch = quote.char
      · obtain ⟨quote, rfl⟩ := quotes
        rw [lexTurn_open]
        exact .opened quote
      by_cases comma : ch = ','
      · subst comma
        rw [lexTurn_comma]
        exact .comma
      by_cases start : WordStart ch
      · rw [lexTurn_wordStart start]
        exact .wordStart start
      by_cases operator : Operator ch
      · rw [lexTurn_operator operator]
        exact .operator operator
      by_cases dot : ch = '.'
      · subst dot
        by_cases alone : input.head? = some '.'
        · obtain ⟨input, rfl⟩ := List.head?_eq_some_iff.mp alone
          rw [lexTurn_dots]
          exact .dots
        · rw [lexTurn_dot alone]
          exact .dot alone
      exact lexTurn_stuck (stuck_initial space quotes comma start operator dot)

theorem stuck_control (control : ch = '\n' ∨ Control ch) (notInitial : startCondition ≠ .initial) :
    Stuck startCondition (some ch) := by
  have range : getRange (some ch) ∈ [0, 2] := by
    rcases control with rfl | control
    · decide
    · rw [getRange_eq_zero_iff.mpr control]
      decide
  have others := stuck_table.2.1 _ (List.mem_append_left [35] range)
  unfold Stuck
  cases startCondition with
  | initial => exact absurd rfl notInitial
  | squotedstring => exact others.1
  | dquotedstring => exact others.2.1
  | regex => exact others.2.2.1
  | escape => exact others.2.2.2.1
  | setoperation => exact others.2.2.2.2
  | bareword => exact stuck_table.2.2 _ range

theorem lexTurn_inQuotes (quote : Quote) :
    LexTurn functions ⟨quote.startCondition, statestack, matched, input⟩
      (lexTurn functions ⟨quote.startCondition, statestack, matched, input⟩) := by
  cases input with
  | nil => exact lexTurn_stuck (by unfold Stuck; cases quote <;> decide)
  | cons ch input =>
      by_cases control : ch = '\n' ∨ Control ch
      · exact lexTurn_stuck (stuck_control control (by cases quote <;> decide))
      by_cases isQuote : ch = quote.char
      · subst isQuote
        rw [lexTurn_close]
        exact .closed quote
      by_cases backslash : ch = '\\'
      · subst backslash
        rw [lexTurn_backslash]
        exact .backslash quote
      rw [not_or] at control
      rw [lexTurn_quoted quote control.2 control.1 isQuote backslash]
      exact .quoted quote control.2 control.1 isQuote backslash

theorem lexTurn_escaped :
    LexTurn functions ⟨.escape, statestack, matched, input⟩
      (lexTurn functions ⟨.escape, statestack, matched, input⟩) := by
  cases input with
  | nil => exact lexTurn_stuck (by unfold Stuck; decide)
  | cons ch input =>
      by_cases control : ch = '\n' ∨ Control ch
      · exact lexTurn_stuck (stuck_control control (by decide))
      rw [not_or] at control
      rw [lexTurn_escape control.2 control.1]
      exact .escaped control.2 control.1

theorem lexTurn_setoperation :
    LexTurn functions ⟨.setoperation, statestack, matched, input⟩
      (lexTurn functions ⟨.setoperation, statestack, matched, input⟩) := by
  cases input with
  | nil => exact lexTurn_stuck (by unfold Stuck; decide)
  | cons ch input =>
      by_cases control : ch = '\n' ∨ Control ch
      · exact lexTurn_stuck (stuck_control control (by decide))
      by_cases minus : ch = '-'
      · subst minus
        rw [lexTurn_minus]
        exact .minus
      by_cases ampersand : ch = '&'
      · subst ampersand
        rw [lexTurn_ampersand]
        exact .ampersand
      rw [not_or] at control
      rw [lexTurn_operand control.2 control.1 minus ampersand]
      exact .operand control.2 control.1 minus ampersand

theorem lexTurn_bareword :
    LexTurn functions ⟨.bareword, statestack, matched, input⟩
      (lexTurn functions ⟨.bareword, statestack, matched, input⟩) := by
  cases input with
  | nil =>
      rw [lexTurn_wordEof]
      exact .wordEof
  | cons ch input =>
      by_cases control : ch = '\n' ∨ Control ch
      · exact lexTurn_stuck (stuck_control control (by decide))
      by_cases inWord : WordChar ch
      · rw [lexTurn_wordChar inWord]
        exact .wordChar inWord
      by_cases dot : ch = '.'
      · subst dot
        by_cases alone : input.head? = some '.'
        · obtain ⟨input, rfl⟩ := List.head?_eq_some_iff.mp alone
          rw [lexTurn_wordDots]
          exact .wordDots
        · rw [lexTurn_wordDot alone]
          exact .wordDot alone
      rw [not_or] at control
      rw [lexTurn_wordEnd control.2 control.1 inWord dot]
      exact .wordEnd control.2 control.1 inWord dot

/-- Every turn of the scanner is of one of the kinds. -/
theorem lexTurn_case (functions : SymbolTable) (scanner : Scanner) :
    LexTurn functions scanner (lexTurn functions scanner) := by
  obtain ⟨startCondition, statestack, matched, input⟩ := scanner
  cases startCondition with
  | initial => exact lexTurn_initial
  | squotedstring => exact lexTurn_inQuotes .single
  | dquotedstring => exact lexTurn_inQuotes .double
  | regex => exact lexTurn_inQuotes .slash
  | escape => exact lexTurn_escaped
  | setoperation => exact lexTurn_setoperation
  | bareword => exact lexTurn_bareword

/-! ## The end -/

namespace Scanner

/-- The characters that are matched or to be read. -/
def total (scanner : Scanner) : Nat :=
  scanner.matched.length + scanner.input.length

/-- A turn drops characters, or it matches some, or it goes back to the initial
state. -/
def measure (scanner : Scanner) : Nat :=
  2 * (scanner.total * (scanner.total + 1) + scanner.input.length) +
    if scanner.startCondition = .initial then 0 else 1

theorem measure_lt_of_total {first second : Scanner} (fewer : first.total < second.total) :
    first.measure < second.measure := by
  have input : first.input.length ≤ first.total := Nat.le_add_left _ _
  have squares : (first.total + 1) * (first.total + 1 + 1) ≤ second.total * (second.total + 1) :=
    Nat.mul_le_mul fewer (Nat.succ_le_succ fewer)
  have expand : (first.total + 1) * (first.total + 1 + 1) =
      first.total * (first.total + 1) + 2 * (first.total + 1) := by
    rw [Nat.mul_add_one, Nat.add_one_mul]
    omega
  unfold measure
  split <;> split <;> omega

theorem measure_lt_of_input {first second : Scanner} (total : first.total ≤ second.total)
    (fewer : first.input.length < second.input.length) : first.measure < second.measure := by
  have squares : first.total * (first.total + 1) ≤ second.total * (second.total + 1) :=
    Nat.mul_le_mul total (Nat.succ_le_succ total)
  unfold measure
  split <;> split <;> omega

theorem measure_lt_of_initial {first second : Scanner} (total : first.total ≤ second.total)
    (input : first.input.length ≤ second.input.length) (initial : first.startCondition = .initial)
    (notInitial : second.startCondition ≠ .initial) : first.measure < second.measure := by
  have squares : first.total * (first.total + 1) ≤ second.total * (second.total + 1) :=
    Nat.mul_le_mul total (Nat.succ_le_succ total)
  unfold measure
  rw [if_pos initial, if_neg notInitial]
  omega

end Scanner

theorem length_reRead_le (text input : List Char) :
    (reRead text input).length ≤ text.length + input.length := by
  unfold reRead
  rw [List.length_append]
  exact Nat.add_le_add_right (List.length_filter_le _ _) _

/-- Every turn brings the end nearer. -/
theorem LexTurn.smaller {scanner next : Scanner} {turn : Turn Scanner Token}
    (lexed : LexTurn functions scanner turn) (after : next ∈ turn.next) :
    next.measure < scanner.measure := by
  cases lexed with
  | @spaces statestack matched input spaces all some stop =>
      cases after
      have length := List.length_pos_iff.mpr some
      apply Scanner.measure_lt_of_total
      simp only [Scanner.total, List.length_append, List.length_nil]
      omega
  | opened | comma | operator | dots | minus | ampersand =>
      cases after
      apply Scanner.measure_lt_of_total
      simp only [Scanner.total, List.length_cons, List.length_nil]
      omega
  | closed | backslash | echoCh =>
      cases after
      apply Scanner.measure_lt_of_total
      simp only [Scanner.total, List.length_cons]
      omega
  | wordStart | escaped | quoted | wordChar | wordDot =>
      cases after
      apply Scanner.measure_lt_of_input
      · simp only [Scanner.total, List.length_append, List.length_cons, List.length_nil]
        omega
      · exact Nat.lt_succ_self _
  | @dot statestack matched input alone =>
      cases after
      have length := length_reRead_le (matched ++ ['.']).tail input
      rw [List.length_tail, List.length_append, List.length_singleton] at length
      apply Scanner.measure_lt_of_total
      simp only [Scanner.total, List.length_cons, List.length_nil]
      omega
  | @echoFirst startCondition statestack matched input stuck some =>
      cases after
      have length := length_reRead_le matched.tail input
      have positive := List.length_pos_iff.mpr some
      rw [List.length_tail] at length
      apply Scanner.measure_lt_of_total
      simp only [Scanner.total, List.length_nil]
      omega
  | @operand statestack matched input ch | @wordEnd statestack matched input ch =>
      cases after
      have length := length_reRead_le [ch] input
      rw [List.length_singleton] at length
      apply Scanner.measure_lt_of_initial
      · simp only [Scanner.total, List.length_cons, List.length_nil]
        omega
      · simp only [List.length_cons]
        omega
      · rfl
      · exact nofun
  | wordDots | wordEof =>
      cases after
      apply Scanner.measure_lt_of_initial
      · simp only [Scanner.total, List.length_nil]
        omega
      · exact Nat.le_refl _
      · rfl
      · exact nofun
  | leave => cases after

/-- The calls of `lex` until the one that returns 0. -/
def lexer (functions : SymbolTable) : Machine Scanner Token where
  turn := lexTurn functions
  measure := Scanner.measure
  smaller scanner _ after := (lexTurn_case functions scanner).smaller after

/-- The tokens that a scanner returns, each with its `matched()`. -/
def tokens (functions : SymbolTable) (scanner : Scanner) : List Token :=
  (lexer functions).run scanner

end RangeScanner

end Rangexx
