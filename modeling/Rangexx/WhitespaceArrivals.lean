import Rangexx.QuotedTokens

/-!
# Getting to whitespace

What the scanner does before a run of whitespace does not depend on the run: it
gets to every run, with the same tokens and in the same state.
-/

namespace Rangexx

namespace RangeScanner

open OutputRun

variable {functions : SymbolTable} {startCondition : StartCondition}
  {statestack : List StartCondition} {matched input : List Char} {ch : Char}

/-! ## Getting to a run -/

/-- The text does not end with whitespace. -/
def Ended (text : List Char) : Prop :=
  ∀ ch ∈ text.getLast?, ¬ Space ch

/-- The text begins with whitespace. -/
def SpaceFirst (text : List Char) : Prop :=
  ∃ ch ∈ text.head?, Space ch

/-- The turns of a scanner up to the first at which some text is all that is
left to read. -/
inductive Reaches (functions : SymbolTable) (rest : List Char) :
    Scanner → List Token → Scanner → Prop
  | here {scanner : Scanner} (there : scanner.input = rest) :
      Reaches functions rest scanner [] scanner
  | quiet {scanner next last : Scanner} {before : List Token} (more : scanner.input ≠ rest)
      (turn : lexTurn functions scanner = .quiet next)
      (others : Reaches functions rest next before last) :
      Reaches functions rest scanner before last
  | emit {scanner next last : Scanner} {token : Token} {before : List Token}
      (more : scanner.input ≠ rest) (turn : lexTurn functions scanner = .emit token next)
      (others : Reaches functions rest next before last) :
      Reaches functions rest scanner (token :: before) last

theorem Reaches.tokens_eq {rest : List Char} {scanner last : Scanner} {before : List Token}
    (reaches : Reaches functions rest scanner before last) :
    tokens functions scanner = before ++ tokens functions last := by
  induction reaches with
  | here => rfl
  | quiet _ turn _ ih => rw [tokens_quiet turn, ih]
  | emit _ turn _ ih => rw [tokens_emit turn, ih, List.cons_append]

theorem Reaches.unique {rest : List Char} {scanner first second : Scanner}
    {before others : List Token} (reaches : Reaches functions rest scanner before first)
    (also : Reaches functions rest scanner others second) :
    before = others ∧ first = second := by
  induction reaches generalizing others with
  | here there =>
      cases also with
      | here => exact ⟨rfl, rfl⟩
      | quiet more => exact absurd there more
      | emit more => exact absurd there more
  | quiet more turn _ ih =>
      cases also with
      | here there => exact absurd there more
      | quiet _ again rest =>
          cases turn.symm.trans again
          exact ih rest
      | emit _ again => cases turn.symm.trans again
  | emit more turn _ ih =>
      cases also with
      | here there => exact absurd there more
      | quiet _ again => cases turn.symm.trans again
      | emit _ again rest =>
          cases turn.symm.trans again
          obtain ⟨same, last⟩ := ih rest
          exact ⟨by rw [same], last⟩

theorem Ended.tail {text : List Char} (ended : Ended (ch :: text)) : Ended text := by
  cases text with
  | nil => exact nofun
  | cons other text => exact fun c last => ended c (by rwa [List.getLast?_cons_cons])

theorem Ended.append {text : List Char} (ended : Ended text) (some : text ≠ [])
    (front : List Char) : Ended (front ++ text) := by
  intro c last
  rw [List.getLast?_append_of_ne_nil _ some] at last
  exact ended c last

/-- Whitespace does not go on with a text that does not end with it. -/
theorem split_spaces {spaces input text rest : List Char} (all : ∀ c ∈ spaces, Space c)
    (ended : Ended text) (some : text ≠ []) (split : spaces ++ input = text ++ rest) :
    ∃ others, text = spaces ++ others ∧ input = others ++ rest ∧ others ≠ [] := by
  rcases List.append_eq_append_iff.mp split with ⟨others, isText, isInput⟩ | ⟨others, isSpaces, -⟩
  · refine ⟨others, isText, isInput, ?_⟩
    rintro rfl
    rw [List.append_nil] at isText
    subst isText
    exact ended _ (List.getLast?_eq_some_getLast some) (all _ (List.getLast_mem some))
  · refine absurd (all (text.getLast some) ?_) (ended _ (List.getLast?_eq_some_getLast some))
    rw [isSpaces]
    exact List.mem_append_left _ (List.getLast_mem some)

/-- A scanner with more to read. -/
def Scanner.extend (scanner : Scanner) (rest : List Char) : Scanner :=
  { scanner with input := scanner.input ++ rest }

def turnTo : Option Token → Scanner → Turn Scanner Token
  | none, next => .quiet next
  | some token, next => .emit token next

theorem head?_append_of_ne_nil {first : List Char} (some : first ≠ []) (second : List Char) :
    (first ++ second).head? = first.head? := by
  cases first with
  | nil => exact absurd rfl some
  | cons ch first => rfl

theorem not_dot_of_spaceFirst {rest : List Char} (spaces : SpaceFirst rest) :
    rest.head? ≠ some '.' := by
  obtain ⟨ch, first, space⟩ := spaces
  rw [Option.mem_def.mp first]
  rintro ⟨⟩
  exact absurd space (by decide)

/-- A single dot before whitespace is single whatever the whitespace. -/
theorem alone_of_alone {text rest : List Char} (spaces : SpaceFirst rest)
    (alone : (text ++ [' ']).head? ≠ some '.') : (text ++ rest).head? ≠ some '.' := by
  cases text with
  | nil => exact not_dot_of_spaceFirst spaces
  | cons ch text => exact alone

theorem Ended.of_append {front text : List Char} (ended : Ended (front ++ text))
    (some : text ≠ []) : Ended text := by
  intro c last
  rw [← List.getLast?_append_of_ne_nil front some] at last
  exact ended c last

theorem extend_reRead (scanner : Scanner) (text input rest : List Char) :
    Scanner.extend { scanner with input := reRead text input } rest =
      { scanner with input := reRead text (input ++ rest) } :=
  congrArg (fun input => { scanner with input }) (List.append_assoc _ _ _)

/-- A character that is put back ends what it ended, if it is put back at all. -/
theorem Ended.reRead {text : List Char} (ended : Ended (ch :: text)) : Ended (reRead [ch] text) := by
  unfold RangeScanner.reRead
  rw [List.filter_cons]
  split
  · exact ended
  · exact ended.tail

/-- A dot that ends what is matched ends what is put back. -/
theorem Ended.reRead_dot {text : List Char} (ended : Ended text) (matched : List Char) :
    Ended (RangeScanner.reRead (matched ++ ['.']).tail text) := by
  by_cases some : text = []
  · subst some
    unfold RangeScanner.reRead
    rw [List.append_nil]
    cases matched with
    | nil => exact nofun
    | cons first matched =>
        rw [List.cons_append, List.tail_cons, List.filter_append]
        refine Ended.append ?_ (List.cons_ne_nil '.' []) _
        rintro c ⟨⟩
        decide
  · exact ended.append some _

/-- The turns before a run of whitespace do not depend on it. -/
theorem LexTurn.before_run {scanner : Scanner} {turn : Turn Scanner Token}
    (lexed : LexTurn functions scanner turn) {text : List Char} (someText : text ≠ [])
    (ended : Ended text) (split : scanner.input = text ++ [' ']) :
    ∃ (token : Option Token) (next : Scanner), Ended next.input ∧
      turn = turnTo token (next.extend [' ']) ∧
        ∀ rest, SpaceFirst rest → lexTurn functions { scanner with input := text ++ rest } =
          turnTo token (next.extend rest) := by
  obtain ⟨first, text, rfl⟩ := List.exists_cons_of_ne_nil someText
  cases lexed with
  | @spaces statestack matched input spaces all someSpaces stop =>
      obtain ⟨others, isText, rfl, someOthers⟩ := split_spaces all ended someText split
      rw [isText] at ended
      refine ⟨none, ⟨.initial, statestack, [], others⟩, ended.of_append someOthers, rfl,
        fun rest _ => ?_⟩
      have stopRest : ∀ c ∈ (others ++ rest).head?, ¬ Space c := by
        rw [head?_append_of_ne_nil someOthers] at stop ⊢
        exact stop
      rw [isText, List.append_assoc]
      exact lexTurn_spaces all someSpaces stopRest
  | @opened statestack matched input quote =>
      obtain ⟨rfl, rfl⟩ := List.cons.inj split
      exact ⟨none, ⟨quote.startCondition, statestack, [], text⟩, ended.tail, rfl,
        fun rest _ => lexTurn_open quote⟩
  | @comma statestack matched input =>
      obtain ⟨rfl, rfl⟩ := List.cons.inj split
      exact ⟨none, ⟨.setoperation, statestack, [], text⟩, ended.tail, rfl,
        fun rest _ => lexTurn_comma⟩
  | @wordStart statestack matched input ch start =>
      obtain ⟨rfl, rfl⟩ := List.cons.inj split
      exact ⟨none, ⟨.bareword, statestack, matched ++ [ch], text⟩, ended.tail, rfl,
        fun rest _ => lexTurn_wordStart start⟩
  | @operator statestack matched input ch operator =>
      obtain ⟨rfl, rfl⟩ := List.cons.inj split
      exact ⟨some ⟨.char ((matched ++ [ch]).headD (Char.ofNat 0)), matched ++ [ch]⟩,
        ⟨.initial, statestack, [], text⟩, ended.tail, rfl, fun rest _ => lexTurn_operator operator⟩
  | @dots statestack matched input =>
      obtain ⟨rfl, others⟩ := List.cons.inj split
      cases text with
      | nil => cases others
      | cons second text =>
          obtain ⟨rfl, rfl⟩ := List.cons.inj others
          exact ⟨some ⟨.sequence, matched ++ ['.', '.']⟩, ⟨.initial, statestack, [], text⟩,
            ended.tail.tail, rfl, fun rest _ => lexTurn_dots⟩
  | @dot statestack matched input alone =>
      obtain ⟨rfl, rfl⟩ := List.cons.inj split
      refine ⟨none, ⟨.initial, statestack, [], reRead (matched ++ ['.']).tail text⟩,
        ended.tail.reRead_dot matched, ?_, fun rest spaces => ?_⟩
      · rw [extend_reRead ⟨.initial, statestack, [], []⟩]
        rfl
      · rw [List.cons_append, lexTurn_dot (alone_of_alone spaces alone),
          extend_reRead ⟨.initial, statestack, [], []⟩]
        rfl
  | @escaped statestack matched input ch notControl notNewline =>
      obtain ⟨rfl, rfl⟩ := List.cons.inj split
      exact ⟨none, ⟨statestack.headD .initial, statestack.tail, matched ++ [ch], text⟩,
        ended.tail, rfl, fun rest _ => lexTurn_escape notControl notNewline⟩
  | @quoted statestack matched input ch quote notControl notNewline notQuote notBackslash =>
      obtain ⟨rfl, rfl⟩ := List.cons.inj split
      exact ⟨none, ⟨quote.startCondition, statestack, matched ++ [ch], text⟩, ended.tail, rfl,
        fun rest _ => lexTurn_quoted quote notControl notNewline notQuote notBackslash⟩
  | @closed statestack matched input quote =>
      obtain ⟨rfl, rfl⟩ := List.cons.inj split
      exact ⟨some ⟨quote.kind, matched⟩, ⟨.initial, statestack, matched, text⟩, ended.tail, rfl,
        fun rest _ => lexTurn_close quote⟩
  | @backslash statestack matched input quote =>
      obtain ⟨rfl, rfl⟩ := List.cons.inj split
      exact ⟨none, ⟨.escape, quote.startCondition :: statestack, matched, text⟩, ended.tail, rfl,
        fun rest _ => lexTurn_backslash quote⟩
  | @minus statestack matched input =>
      obtain ⟨rfl, rfl⟩ := List.cons.inj split
      exact ⟨some ⟨.char '-', matched ++ ['-']⟩, ⟨.initial, statestack, [], text⟩, ended.tail, rfl,
        fun rest _ => lexTurn_minus⟩
  | @ampersand statestack matched input =>
      obtain ⟨rfl, rfl⟩ := List.cons.inj split
      exact ⟨some ⟨.char '&', matched ++ ['&']⟩, ⟨.initial, statestack, [], text⟩, ended.tail, rfl,
        fun rest _ => lexTurn_ampersand⟩
  | @operand statestack matched input ch notControl notNewline notMinus notAmpersand =>
      obtain ⟨rfl, rfl⟩ := List.cons.inj split
      refine ⟨some ⟨.char ',', matched⟩, ⟨.initial, statestack, [], reRead [ch] text⟩, ended.reRead,
        ?_, fun rest _ => ?_⟩
      · rw [extend_reRead ⟨.initial, statestack, [], []⟩]
        rfl
      · rw [List.cons_append, lexTurn_operand notControl notNewline notMinus notAmpersand,
          extend_reRead ⟨.initial, statestack, [], []⟩]
        rfl
  | @wordChar statestack matched input ch inWord =>
      obtain ⟨rfl, rfl⟩ := List.cons.inj split
      exact ⟨none, ⟨.bareword, statestack, matched ++ [ch], text⟩, ended.tail, rfl,
        fun rest _ => lexTurn_wordChar inWord⟩
  | @wordDot statestack matched input alone =>
      obtain ⟨rfl, rfl⟩ := List.cons.inj split
      exact ⟨none, ⟨.bareword, statestack, matched ++ ['.'], text⟩, ended.tail, rfl,
        fun rest spaces => lexTurn_wordDot (alone_of_alone spaces alone)⟩
  | @wordDots statestack matched input =>
      obtain ⟨rfl, others⟩ := List.cons.inj split
      cases text with
      | nil => cases others
      | cons second text =>
          obtain ⟨rfl, rfl⟩ := List.cons.inj others
          exact ⟨some ⟨wordKind functions matched, matched⟩,
            ⟨.initial, statestack, [], '.' :: '.' :: text⟩, ended, rfl,
            fun rest _ => lexTurn_wordDots⟩
  | @wordEnd statestack matched input ch notControl notNewline notWord notDot =>
      obtain ⟨rfl, rfl⟩ := List.cons.inj split
      refine ⟨some ⟨wordKind functions matched, matched⟩,
        ⟨.initial, statestack, [], reRead [ch] text⟩, ended.reRead, ?_, fun rest _ => ?_⟩
      · rw [extend_reRead ⟨.initial, statestack, [], []⟩]
        rfl
      · rw [List.cons_append, lexTurn_wordEnd notControl notNewline notWord notDot,
          extend_reRead ⟨.initial, statestack, [], []⟩]
        rfl
  | wordEof => cases split
  | @echoFirst startCondition statestack matched input stuck someMatched =>
      subst split
      refine ⟨none, ⟨startCondition, statestack, [], reRead matched.tail (first :: text)⟩,
        ended.append someText _, ?_, fun rest _ => ?_⟩
      · rw [extend_reRead ⟨startCondition, statestack, [], []⟩]
        rfl
      · have again : Stuck startCondition (first :: text ++ rest).head? := stuck
        rw [lexTurn_echoFirst again someMatched, extend_reRead ⟨startCondition, statestack, [], []⟩]
        rfl
  | @echoCh startCondition statestack input ch stuck =>
      obtain ⟨rfl, rfl⟩ := List.cons.inj split
      exact ⟨none, ⟨startCondition, statestack, [], text⟩, ended.tail, rfl,
        fun rest _ => lexTurn_echoCh stuck⟩
  | leave => cases split

theorem turnTo_next (token : Option Token) (next : Scanner) :
    (turnTo token next).next = some next := by
  cases token <;> rfl

/-- The scanner gets to every run of whitespace, in a state that does not
depend on the run. -/
theorem exists_reaches (functions : SymbolTable) (scanner : Scanner) (ended : Ended scanner.input) :
    ∃ (before : List Token) (last : Scanner), last.input = [] ∧ ∀ rest, SpaceFirst rest →
      Reaches functions rest (scanner.extend rest) before (last.extend rest) := by
  induction bound : (scanner.extend [' ']).measure using Nat.strongRecOn generalizing scanner with
  | _ bound ih =>
      by_cases empty : scanner.input = []
      · refine ⟨[], scanner, empty, fun rest _ => .here ?_⟩
        unfold Scanner.extend
        rw [empty, List.nil_append]
      · obtain ⟨token, next, endedNext, turn, turns⟩ :=
          (lexTurn_case functions (scanner.extend [' '])).before_run empty ended rfl
        have less := (lexTurn_case functions (scanner.extend [' '])).smaller
          (by rw [turn, turnTo_next]; exact rfl : next.extend [' '] ∈ _)
        obtain ⟨before, last, there, reaches⟩ := ih _ (bound ▸ less) next endedNext rfl
        have more (rest : List Char) : (scanner.extend rest).input ≠ rest := by
          intro same
          exact empty (List.append_left_eq_self.mp same)
        cases token with
        | none =>
            exact ⟨before, last, there, fun rest spaces =>
              .quiet (more rest) (turns rest spaces) (reaches rest spaces)⟩
        | some token =>
            exact ⟨token :: before, last, there, fun rest spaces =>
              .emit (more rest) (turns rest spaces) (reaches rest spaces)⟩

/-! ## The scanner at a run -/

/-- What every scanner on a text keeps to. -/
structure Sound (scanner : Scanner) : Prop where
  setoperation : scanner.startCondition = .setoperation → scanner.matched = []
  stack : ∀ condition ∈ scanner.statestack, ∃ quote : Quote, condition = quote.startCondition
  written : ∀ c ∈ scanner.matched, Written c

theorem quote_ne_setoperation (quote : Quote) : quote.startCondition ≠ .setoperation := by
  cases quote <;> decide

theorem LexTurn.sound {scanner next : Scanner} {turn : Turn Scanner Token}
    (lexed : LexTurn functions scanner turn) (sound : Sound scanner) (after : next ∈ turn.next) :
    Sound next := by
  have written := (lexed.written sound.written).1 next after
  refine ⟨?_, ?_, written⟩
  · cases lexed with
    | spaces | comma | operator | dots | dot | minus | ampersand | operand | wordDots | wordEnd
    | wordEof | echoFirst | echoCh =>
        cases after
        exact fun _ => rfl
    | wordStart | closed | backslash | wordChar | wordDot =>
        cases after
        exact nofun
    | opened quote | quoted quote =>
        cases after
        exact fun same => absurd same (quote_ne_setoperation quote)
    | @escaped statestack =>
        cases after
        have stack := sound.stack
        cases statestack with
        | nil => exact nofun
        | cons top statestack =>
            obtain ⟨quote, rfl⟩ := stack top List.mem_cons_self
            exact fun same => absurd same (quote_ne_setoperation quote)
    | leave => cases after
  · have stack := sound.stack
    cases lexed with
    | backslash quote =>
        cases after
        exact List.forall_mem_cons.mpr ⟨⟨quote, rfl⟩, stack⟩
    | escaped =>
        cases after
        exact fun condition member => stack condition (List.mem_of_mem_tail member)
    | leave => cases after
    | _ =>
        cases after
        exact stack

theorem Reaches.sound {rest : List Char} {scanner last : Scanner} {before : List Token}
    (reaches : Reaches functions rest scanner before last) (sound : Sound scanner) : Sound last := by
  induction reaches with
  | here => exact sound
  | quiet _ turn _ ih =>
      exact ih ((lexTurn_case functions _).sound sound (by rw [turn]; rfl))
  | emit _ turn _ ih =>
      exact ih ((lexTurn_case functions _).sound sound (by rw [turn]; rfl))

/-- A run of whitespace. -/
def Whitespace (spaces : List Char) : Prop :=
  spaces ≠ [] ∧ ∀ c ∈ spaces, Space c

theorem Whitespace.spaceFirst {spaces : List Char} (run : Whitespace spaces) (post : List Char) :
    SpaceFirst (spaces ++ post) := by
  obtain ⟨first, others, rfl⟩ := List.exists_cons_of_ne_nil run.1
  exact ⟨first, rfl, run.2 first List.mem_cons_self⟩

/-- Another run gives other tokens only from the state at the run on. -/
theorem Reaches.same_iff {spaces others post pre : List Char} {scanner : Scanner}
    {before : List Token} (ended : Ended pre) (run : Whitespace spaces) (other : Whitespace others)
    (reaches : Reaches functions (spaces ++ post) (scannerOn (pre ++ (spaces ++ post))) before
      scanner) :
    tokens functions (scannerOn (pre ++ (spaces ++ post))) =
        tokens functions (scannerOn (pre ++ (others ++ post))) ↔
      tokens functions { scanner with input := spaces ++ post } =
        tokens functions { scanner with input := others ++ post } := by
  obtain ⟨first, last, there, all⟩ := exists_reaches functions (scannerOn pre) ended
  obtain ⟨rfl, rfl⟩ := reaches.unique (all _ (run.spaceFirst post))
  have second := all _ (other.spaceFirst post)
  have input (rest : List Char) : last.extend rest = { last with input := rest } := by
    unfold Scanner.extend
    rw [there, List.nil_append]
  rw [reaches.tokens_eq]
  rw [show scannerOn (pre ++ (others ++ post)) = (scannerOn pre).extend (others ++ post) from rfl,
    second.tokens_eq, input, input, List.append_cancel_left_eq]

end RangeScanner

end Rangexx
