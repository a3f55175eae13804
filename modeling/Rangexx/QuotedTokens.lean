import Rangexx.ScannerTokens

/-!
# Quoted texts

A text between quotes comes out as one token.  The characters of the token are
still there when the next call of `lex__` begins, and what follows decides
whether they get into another token.
-/

namespace Rangexx

namespace RangeScanner

open OutputRun

variable {functions : SymbolTable} {startCondition : StartCondition}
  {statestack : List StartCondition} {matched input : List Char} {ch : Char}

/-! ## Turns of the lexer -/

theorem tokens_quiet {scanner next : Scanner} (turn : lexTurn functions scanner = .quiet next) :
    tokens functions scanner = tokens functions next :=
  (@Machine.run_quiet _ _ (lexer functions) _ _ turn :)

theorem tokens_emit {scanner next : Scanner} {token : Token}
    (turn : lexTurn functions scanner = .emit token next) :
    tokens functions scanner = token :: tokens functions next :=
  (@Machine.run_emit _ _ (lexer functions) _ _ _ turn :)

theorem tokens_finish {scanner : Scanner} (turn : lexTurn functions scanner = .finish) :
    tokens functions scanner = [] :=
  (@Machine.run_finish _ _ (lexer functions) _ turn :)

/-! ## What is written between quotes -/

/-- A character, with a backslash before the quote and the backslash. -/
def escapeChar (quote : Quote) (ch : Char) : List Char :=
  if ch = quote.char ∨ ch = '\\' then ['\\', ch] else [ch]

def escaped (quote : Quote) (text : List Char) : List Char :=
  text.flatMap (escapeChar quote)

def quotedText (quote : Quote) (text : List Char) : List Char :=
  quote.char :: escaped quote text ++ [quote.char]

/-- The characters that quotes can hold. -/
def Plain (text : List Char) : Prop :=
  ∀ ch ∈ text, ¬ Control ch

theorem tokens_escapeChar (quote : Quote) (notControl : ¬ Control ch) (notNewline : ch ≠ '\n') :
    tokens functions ⟨quote.startCondition, statestack, matched, escapeChar quote ch ++ input⟩ =
      tokens functions ⟨quote.startCondition, statestack, matched ++ [ch], input⟩ := by
  unfold escapeChar
  split
  · rw [List.cons_append, List.singleton_append, tokens_quiet (lexTurn_backslash quote),
      tokens_quiet (lexTurn_escape notControl notNewline)]
    rfl
  · rename_i other
    rw [not_or] at other
    rw [List.singleton_append,
      tokens_quiet (lexTurn_quoted quote notControl notNewline other.1 other.2)]

theorem tokens_escaped (quote : Quote) {text : List Char} (plain : Plain text)
    (noNewline : '\n' ∉ text) (matched input : List Char) :
    tokens functions ⟨quote.startCondition, statestack, matched, escaped quote text ++ input⟩ =
      tokens functions ⟨quote.startCondition, statestack, matched ++ text, input⟩ := by
  induction text generalizing matched with
  | nil => rw [List.append_nil]; rfl
  | cons ch text ih =>
      have first : ch ≠ '\n' := fun same => noNewline (same ▸ List.mem_cons_self)
      have rest : escaped quote (ch :: text) ++ input =
          escapeChar quote ch ++ (escaped quote text ++ input) := by
        rw [escaped, List.flatMap_cons, List.append_assoc]
        rfl
      rw [rest, tokens_escapeChar quote (plain ch List.mem_cons_self) first,
        ih (fun other member => plain other (List.mem_cons_of_mem ch member))
          (fun member => noNewline (List.mem_cons_of_mem ch member)),
        List.append_assoc, List.singleton_append]

/-- The token of a quoted text, and the text left behind for what follows. -/
theorem tokens_quotedText (quote : Quote) {text : List Char} (plain : Plain text)
    (noNewline : '\n' ∉ text) (rest : List Char) :
    tokens functions (scannerOn (quotedText quote text ++ rest)) =
      ⟨quote.kind, text⟩ :: tokens functions ⟨.initial, [], text, rest⟩ := by
  unfold scannerOn quotedText
  rw [List.cons_append, List.cons_append, List.append_assoc, List.singleton_append,
    tokens_quiet (lexTurn_open quote), tokens_escaped quote plain noNewline,
    tokens_emit (lexTurn_close quote)]
  rfl

/-- The quoted text comes back, and what follows is scanned as if it were
alone. -/
def RoundTrips (functions : SymbolTable) (quote : Quote) (text rest : List Char) : Prop :=
  tokens functions (scannerOn (quotedText quote text ++ rest)) =
    ⟨quote.kind, text⟩ :: tokens functions (scannerOn rest)

/-! ## Characters of tokens -/

/-- A character that some rule has outside the initial state. -/
def Written (ch : Char) : Prop :=
  ¬ Control ch ∧ ch ≠ '\n'

theorem written_append {first : List Char} (before : ∀ c ∈ first, Written c) (now : Written ch) :
    ∀ c ∈ first ++ [ch], Written c :=
  List.forall_mem_append.mpr ⟨before, List.forall_mem_singleton.mpr now⟩

theorem written_of_range {allowed : List Nat} (member : getRange (some ch) ∈ allowed)
    (others : 0 ∉ allowed ∧ 2 ∉ allowed) : Written ch := by
  constructor
  · intro control
    rw [getRange_eq_zero_iff.mpr control] at member
    exact others.1 member
  · rintro rfl
    exact others.2 member

/-- A turn keeps the matched characters free of those that no rule has. -/
theorem LexTurn.written {scanner : Scanner} {turn : Turn Scanner Token}
    (lexed : LexTurn functions scanner turn) (before : ∀ c ∈ scanner.matched, Written c) :
    (∀ next ∈ turn.next, ∀ c ∈ next.matched, Written c) ∧
      ∀ token next, turn = .emit token next → ∀ c ∈ token.text, Written c := by
  have nil : ∀ c ∈ ([] : List Char), Written c := nofun
  cases lexed with
  | spaces | opened | comma | dot | echoFirst | echoCh =>
      refine ⟨?_, nofun⟩
      rintro next ⟨⟩
      exact nil
  | wordStart start =>
      refine ⟨?_, nofun⟩
      rintro next ⟨⟩
      exact written_append before (written_of_range start (by decide))
  | wordChar inWord =>
      refine ⟨?_, nofun⟩
      rintro next ⟨⟩
      exact written_append before (written_of_range inWord (by decide))
  | wordDot =>
      refine ⟨?_, nofun⟩
      rintro next ⟨⟩
      exact written_append before ⟨by decide, by decide⟩
  | escaped notControl notNewline =>
      refine ⟨?_, nofun⟩
      rintro next ⟨⟩
      exact written_append before ⟨notControl, notNewline⟩
  | quoted quote notControl notNewline =>
      refine ⟨?_, nofun⟩
      rintro next ⟨⟩
      exact written_append before ⟨notControl, notNewline⟩
  | backslash =>
      refine ⟨?_, nofun⟩
      rintro next ⟨⟩
      exact before
  | closed =>
      constructor
      · rintro next ⟨⟩
        exact before
      · rintro token next ⟨⟩
        exact before
  | operator operator =>
      constructor
      · rintro next ⟨⟩
        exact nil
      · rintro token next ⟨⟩
        exact written_append before (written_of_range operator (by decide))
  | dots =>
      constructor
      · rintro next ⟨⟩
        exact nil
      · rintro token next ⟨⟩
        refine List.forall_mem_append.mpr ⟨before, ?_⟩
        rintro c member
        rw [List.mem_pair] at member
        rcases member with rfl | rfl <;> exact ⟨by decide, by decide⟩
  | minus | ampersand =>
      constructor
      · rintro next ⟨⟩
        exact nil
      · rintro token next ⟨⟩
        exact written_append before ⟨by decide, by decide⟩
  | operand | wordDots | wordEnd | wordEof =>
      constructor
      · rintro next ⟨⟩
        exact nil
      · rintro token next ⟨⟩
        exact before
  | leave => exact ⟨nofun, nofun⟩

theorem written_of_mem_tokens {scanner : Scanner} (before : ∀ c ∈ scanner.matched, Written c)
    {token : Token} (member : token ∈ tokens functions scanner) : ∀ c ∈ token.text, Written c :=
  @Machine.forall_mem_run _ _ (lexer functions) scanner
    (fun scanner => ∀ c ∈ scanner.matched, Written c) (fun token => ∀ c ∈ token.text, Written c)
    (fun scanner before => ((lexTurn_case functions scanner).written before).1)
    (fun scanner token next before => ((lexTurn_case functions scanner).written before).2 token next)
    before token member

/-! ## Runs of whitespace and of words -/

/-- A space at the start of the initial state makes no difference. -/
theorem tokens_space (space : Space ch) (matched input : List Char) :
    tokens functions ⟨.initial, statestack, matched, ch :: input⟩ =
      tokens functions ⟨.initial, statestack, [], input⟩ := by
  obtain ⟨spaces, rest, rfl, all, stop⟩ := exists_spaces input
  have longer := @lexTurn_spaces functions statestack matched rest (ch :: spaces)
    (List.forall_mem_cons.mpr ⟨space, all⟩) (List.cons_ne_nil ch spaces) stop
  rw [List.cons_append] at longer
  rw [tokens_quiet longer]
  by_cases empty : spaces = []
  · rw [empty, List.nil_append]
  · rw [tokens_quiet (lexTurn_spaces all empty stop)]

/-- What follows ends a word, or cuts it off. -/
def WordStops (rest : List Char) : Prop :=
  (∀ ch ∈ rest.head?, ¬ WordChar ch) ∧ (rest.head? = some '.' → rest.tail.head? = some '.')

/-- A newline or a character of no rule follows, at which a word is dropped. -/
def CutsWord (rest : List Char) : Prop :=
  ∃ ch ∈ rest.head?, ch = '\n' ∨ Control ch

/-- The characters of a word, up to what stops it. -/
inductive WordRun : List Char → List Char → Prop
  | nil {rest : List Char} (stops : WordStops rest) : WordRun [] rest
  | char {ch : Char} {word rest : List Char} (inWord : WordChar ch) (others : WordRun word rest) :
      WordRun (ch :: word) rest
  | dot {word rest : List Char} (alone : (word ++ rest).head? ≠ some '.')
      (others : WordRun word rest) : WordRun ('.' :: word) rest

theorem exists_wordRun (input : List Char) :
    ∃ word rest, input = word ++ rest ∧ WordRun word rest := by
  induction input with
  | nil => exact ⟨[], [], rfl, .nil ⟨nofun, nofun⟩⟩
  | cons ch input ih =>
      obtain ⟨word, rest, rfl, run⟩ := ih
      by_cases inWord : WordChar ch
      · exact ⟨ch :: word, rest, rfl, .char inWord run⟩
      by_cases dot : ch = '.'
      · subst dot
        by_cases alone : (word ++ rest).head? = some '.'
        · refine ⟨[], '.' :: (word ++ rest), rfl, .nil ⟨?_, fun _ => alone⟩⟩
          rintro c ⟨⟩
          exact inWord
        · exact ⟨'.' :: word, rest, rfl, .dot alone run⟩
      · refine ⟨[], ch :: (word ++ rest), rfl, .nil ⟨?_, ?_⟩⟩
        · rintro c ⟨⟩
          exact inWord
        · rintro ⟨⟩
          exact absurd rfl dot

theorem WordRun.tail {ch : Char} {word rest : List Char} (run : WordRun (ch :: word) rest) :
    WordRun word rest := by
  cases run with
  | char _ others => exact others
  | dot _ others => exact others

theorem WordRun.stops {word rest : List Char} (run : WordRun word rest) : WordStops rest := by
  induction run with
  | nil stops => exact stops
  | char _ _ ih => exact ih
  | dot _ _ ih => exact ih

theorem WordRun.of_append {front word rest : List Char} (run : WordRun (front ++ word) rest) :
    WordRun word rest := by
  induction front with
  | nil => exact run
  | cons ch front ih => exact ih run.tail

/-- The characters of words are put back. -/
theorem WordRun.ascii {word rest : List Char} (run : WordRun word rest) :
    ∀ ch ∈ word, ch.toNat < 0x80 := by
  induction run with
  | nil => exact nofun
  | char inWord _ ih =>
      refine List.forall_mem_cons.mpr ⟨Nat.lt_of_not_le fun high => ?_, ih⟩
      rw [WordChar, getRange_high high] at inWord
      exact absurd inWord (by decide)
  | dot _ _ ih => exact List.forall_mem_cons.mpr ⟨by decide, ih⟩

theorem tokens_wordRun {word rest : List Char} (run : WordRun word rest) (matched : List Char) :
    tokens functions ⟨.bareword, statestack, matched, word ++ rest⟩ =
      tokens functions ⟨.bareword, statestack, matched ++ word, rest⟩ := by
  induction run generalizing matched with
  | nil => rw [List.append_nil]; rfl
  | @char ch word rest inWord others ih =>
      rw [List.cons_append, tokens_quiet (lexTurn_wordChar inWord), ih, List.append_assoc,
        List.singleton_append]
  | @dot word rest alone others ih =>
      rw [List.cons_append, tokens_quiet (lexTurn_wordDot alone), ih, List.append_assoc,
        List.singleton_append]

/-- A character that is not put back is one that the scanner would drop. -/
theorem tokens_reRead_ch (ch : Char) (input : List Char) :
    tokens functions ⟨.initial, statestack, [], reRead [ch] input⟩ =
      tokens functions ⟨.initial, statestack, [], ch :: input⟩ := by
  unfold reRead
  rw [List.filter_cons]
  split
  · rfl
  · rename_i high
    have stuck : Stuck .initial (some ch) := by
      have range : getRange (some ch) = 34 :=
        getRange_high (Nat.le_of_not_lt fun low => high (decide_eq_true low))
      unfold Stuck
      rw [range]
      decide
    rw [tokens_quiet (lexTurn_echoCh stuck)]
    rfl

/-- A word that ends is returned. -/
theorem tokens_wordStops {rest : List Char} (stops : WordStops rest) (uncut : ¬ CutsWord rest)
    (statestack : List StartCondition) (matched : List Char) :
    tokens functions ⟨.bareword, statestack, matched, rest⟩ =
      ⟨wordKind functions matched, matched⟩ ::
        tokens functions ⟨.initial, statestack, [], rest⟩ := by
  cases rest with
  | nil => exact tokens_emit lexTurn_wordEof
  | cons ch rest =>
      have notWord : ¬ WordChar ch := stops.1 ch rfl
      have control : ¬ (ch = '\n' ∨ Control ch) := fun cut => uncut ⟨ch, rfl, cut⟩
      rw [not_or] at control
      by_cases dot : ch = '.'
      · subst dot
        obtain ⟨rest, rfl⟩ := List.head?_eq_some_iff.mp (stops.2 rfl)
        exact tokens_emit lexTurn_wordDots
      · rw [tokens_emit (lexTurn_wordEnd control.2 control.1 notWord dot), tokens_reRead_ch]

theorem stuck_of_cutsWord {rest : List Char} (cuts : CutsWord rest) :
    Stuck .bareword rest.head? := by
  obtain ⟨ch, first, control⟩ := cuts
  rw [Option.mem_def.mp first]
  exact stuck_control control (by decide)

/-- A word that is cut off is dropped. -/
theorem tokens_cutWord {word rest : List Char} (run : WordRun word rest) (cuts : CutsWord rest) :
    tokens functions ⟨.bareword, statestack, [], word ++ rest⟩ =
      tokens functions ⟨.bareword, statestack, [], rest⟩ := by
  induction word with
  | nil => rfl
  | cons ch word ih =>
      have ascii : reRead word rest = word ++ rest := by
        unfold reRead
        rw [List.filter_eq_self.mpr fun c member =>
          decide_eq_true (run.ascii c (List.mem_cons_of_mem ch member))]
      rw [tokens_wordRun run, List.nil_append,
        tokens_quiet (lexTurn_echoFirst (stuck_of_cutsWord cuts) (List.cons_ne_nil ch word)),
        List.tail_cons, ascii]
      exact ih run.tail

/-! ## What is left behind -/

/-- What follows drops the characters left behind. -/
def Clears (rest : List Char) : Prop :=
  ∃ ch ∈ rest.head?, Space ch ∨ ch = ',' ∨ ∃ quote : Quote, ch = quote.char

/-- What follows has the characters left behind read again. -/
def Idles (rest : List Char) : Prop :=
  Stuck .initial rest.head? ∨ rest.head? = some '.' ∧ rest.tail.head? ≠ some '.'

/-- The scanner drops the character if nothing comes before it. -/
def Silent (ch : Char) : Prop :=
  Space ch ∨ Stuck .initial (some ch)

/-- The word that follows is cut off with the characters left behind. -/
def CutWith (text rest : List Char) : Prop :=
  ∃ first word after, rest = first :: word ++ after ∧ WordStart first ∧ CutsWord after ∧
    WordRun (reRead text (first :: word)) after

theorem tokens_of_clears {rest : List Char} (clears : Clears rest) (matched : List Char) :
    tokens functions ⟨.initial, statestack, matched, rest⟩ =
      tokens functions ⟨.initial, statestack, [], rest⟩ := by
  obtain ⟨ch, first, kind⟩ := clears
  obtain ⟨rest, rfl⟩ := List.head?_eq_some_iff.mp first
  rcases kind with space | rfl | ⟨quote, rfl⟩
  · rw [tokens_space space, tokens_space space]
  · rw [tokens_quiet lexTurn_comma, tokens_quiet lexTurn_comma]
  · rw [tokens_quiet (lexTurn_open quote), tokens_quiet (lexTurn_open quote)]

/-- All characters left behind but the first are read again. -/
theorem tokens_of_idles {rest : List Char} (idles : Idles rest) (some : matched ≠ []) :
    tokens functions ⟨.initial, statestack, matched, rest⟩ =
      tokens functions ⟨.initial, statestack, [], reRead matched.tail rest⟩ := by
  rcases idles with stuck | ⟨first, alone⟩
  · rw [tokens_quiet (lexTurn_echoFirst stuck some)]
  · obtain ⟨rest, rfl⟩ := List.head?_eq_some_iff.mp first
    rw [List.tail_cons] at alone
    rw [tokens_quiet (lexTurn_dot alone), List.tail_append_of_ne_nil some]
    unfold reRead
    rw [List.filter_append, List.append_assoc]
    rfl

theorem tokens_silent {text : List Char} (silent : ∀ ch ∈ text, Silent ch) (rest : List Char) :
    tokens functions ⟨.initial, statestack, [], reRead text rest⟩ =
      tokens functions ⟨.initial, statestack, [], rest⟩ := by
  unfold reRead
  induction text with
  | nil => rfl
  | cons ch text ih =>
      have others := ih fun other member => silent other (List.mem_cons_of_mem ch member)
      rw [List.filter_cons]
      split
      · rw [List.cons_append]
        rcases silent ch List.mem_cons_self with space | stuck
        · rw [tokens_space space, others]
        · rw [tokens_quiet (lexTurn_echoCh stuck), others]
      · exact others

theorem wordChar_of_wordStart (start : WordStart ch) : WordChar ch := by
  unfold WordStart at start
  unfold WordChar
  simp only [List.mem_cons, List.not_mem_nil, or_false] at start ⊢
  omega

/-- The characters left behind and a word that follows are dropped together. -/
theorem tokens_of_cutWith {text rest : List Char} {head : Char}
    (cuts : CutWith text rest) :
    tokens functions ⟨.initial, statestack, head :: text, rest⟩ =
      tokens functions ⟨.initial, statestack, [], rest⟩ := by
  obtain ⟨first, word, after, rfl, start, cut, run⟩ := cuts
  have whole : WordRun (first :: word) after := run.of_append
  have stuck := stuck_of_cutsWord cut
  have ascii : reRead (text ++ first :: word) after = reRead text (first :: word) ++ after := by
    unfold reRead
    rw [List.filter_append, List.filter_eq_self.mpr fun c member =>
      decide_eq_true (whole.ascii c member)]
  have plain : reRead word after = word ++ after := by
    unfold reRead
    rw [List.filter_eq_self.mpr fun c member =>
      decide_eq_true (whole.ascii c (List.mem_cons_of_mem first member))]
  rw [List.cons_append, tokens_quiet (lexTurn_wordStart start),
    tokens_quiet (lexTurn_wordStart start), tokens_wordRun whole.tail, tokens_wordRun whole.tail,
    tokens_quiet (lexTurn_echoFirst stuck (by simp)),
    tokens_quiet (lexTurn_echoFirst stuck (by simp))]
  have left : (head :: text ++ [first] ++ word).tail = text ++ first :: word := by simp
  have right : ([] ++ [first] ++ word).tail = word := rfl
  rw [left, right, ascii, plain, tokens_cutWord run cut, tokens_cutWord whole.tail cut]

/-- What is left behind does no harm. -/
def Harmless (text rest : List Char) : Prop :=
  text = [] ∨ Clears rest ∨ (Idles rest ∧ ∀ ch ∈ text.tail, Silent ch) ∨ CutWith text.tail rest

/-- What follows is dropped, from its beginning, when it is scanned alone. -/
def Dropped (rest : List Char) : Prop :=
  Idles rest ∨ CutWith [] rest

theorem tokens_of_harmless {text rest : List Char} (harmless : Harmless text rest) :
    tokens functions ⟨.initial, statestack, text, rest⟩ =
      tokens functions ⟨.initial, statestack, [], rest⟩ := by
  by_cases empty : text = []
  · rw [empty]
  rcases harmless with none | clears | ⟨idles, silent⟩ | cut
  · exact absurd none empty
  · exact tokens_of_clears clears text
  · rw [tokens_of_idles idles empty, tokens_silent silent]
  · obtain ⟨head, text, rfl⟩ := List.exists_cons_of_ne_nil empty
    exact tokens_of_cutWith cut

/-- Characters left behind get into the next token unless what follows clears
them away or is dropped itself. -/
theorem clears_or_dropped {text rest : List Char} (some : text ≠ [])
    (same : tokens functions ⟨.initial, statestack, text, rest⟩ =
      tokens functions ⟨.initial, statestack, [], rest⟩) : Clears rest ∨ Dropped rest := by
  cases rest with
  | nil => exact Or.inr (Or.inl (Or.inl (by unfold Stuck; decide)))
  | cons ch rest =>
      by_cases space : Space ch
      · exact Or.inl ⟨ch, rfl, Or.inl space⟩
      by_cases comma : ch = ','
      · exact Or.inl ⟨ch, rfl, Or.inr (Or.inl comma)⟩
      by_cases quotes : ∃ quote : Quote, ch = quote.char
      · exact Or.inl ⟨ch, rfl, Or.inr (Or.inr quotes)⟩
      by_cases start : WordStart ch
      · obtain ⟨word, after, rfl, run⟩ := exists_wordRun rest
        by_cases cut : CutsWord after
        · exact Or.inr (Or.inr ⟨ch, word, after, rfl, start, cut,
            .char (wordChar_of_wordStart start) run⟩)
        · rw [tokens_quiet (lexTurn_wordStart start), tokens_quiet (lexTurn_wordStart start),
            tokens_wordRun run, tokens_wordRun run, tokens_wordStops run.stops cut,
            tokens_wordStops run.stops cut] at same
          have texts := congrArg Token.text (List.head_eq_of_cons_eq same)
          exact absurd (by simpa using texts) some
      by_cases operator : Operator ch
      · rw [tokens_emit (lexTurn_operator operator), tokens_emit (lexTurn_operator operator)]
          at same
        have texts := congrArg Token.text (List.head_eq_of_cons_eq same)
        exact absurd (by simpa using texts) some
      by_cases dot : ch = '.'
      · subst dot
        by_cases alone : rest.head? = Option.some '.'
        · obtain ⟨rest, rfl⟩ := List.head?_eq_some_iff.mp alone
          rw [tokens_emit lexTurn_dots, tokens_emit lexTurn_dots] at same
          have texts := congrArg Token.text (List.head_eq_of_cons_eq same)
          exact absurd (by simpa using texts) some
        · exact Or.inr (Or.inl (Or.inr ⟨rfl, alone⟩))
      exact Or.inr (Or.inl (Or.inl (stuck_initial space quotes comma start operator dot)))

/-! ## Round trips -/

/-- The condition for a quoted text to come back. -/
def QuoteFits (text rest : List Char) : Prop :=
  Plain text ∧ Harmless text rest

/-- A quoted text comes back when no character of it is below 9 and what is
left behind does no harm.  It does not come back otherwise, but by chance when
the rest is dropped and more than one character is read again. -/
theorem quoted_roundTrips (functions : SymbolTable) (quote : Quote) {text : List Char}
    (noNewline : '\n' ∉ text) (rest : List Char) :
    (QuoteFits text rest → RoundTrips functions quote text rest) ∧
      (RoundTrips functions quote text rest →
        QuoteFits text rest ∨ Plain text ∧ Dropped rest ∧ 2 ≤ text.length) := by
  unfold RoundTrips
  constructor
  · rintro ⟨plain, harmless⟩
    rw [tokens_quotedText quote plain noNewline, tokens_of_harmless harmless]
    rfl
  · intro returned
    have plain : Plain text := by
      have start : ∀ c ∈ (scannerOn (quotedText quote text ++ rest)).matched, Written c := nofun
      have first : ⟨quote.kind, text⟩ ∈
          tokens functions (scannerOn (quotedText quote text ++ rest)) := by
        rw [returned]
        exact List.mem_cons_self
      exact fun ch member => (written_of_mem_tokens start first ch member).1
    rw [tokens_quotedText quote plain noNewline] at returned
    have same := List.tail_eq_of_cons_eq returned
    by_cases empty : text = []
    · exact Or.inl ⟨plain, Or.inl empty⟩
    rcases clears_or_dropped empty same with clears | dropped
    · exact Or.inl ⟨plain, Or.inr (Or.inl clears)⟩
    · by_cases long : 2 ≤ text.length
      · exact Or.inr ⟨plain, dropped, long⟩
      · obtain ⟨head, tail, rfl⟩ := List.exists_cons_of_ne_nil empty
        have single : tail = [] := by
          rw [List.length_cons] at long
          exact List.length_eq_zero_iff.mp (by omega)
        subst single
        rcases dropped with idles | cut
        · exact Or.inl ⟨plain, Or.inr (Or.inr (Or.inl ⟨idles, nofun⟩))⟩
        · exact Or.inl ⟨plain, Or.inr (Or.inr (Or.inr cut))⟩

theorem quoted_roundTrips_operator :
    (QuoteFits ['a', 'b'] ['%', 'c'] →
        RoundTrips (fun _ => false) .double ['a', 'b'] ['%', 'c']) ∧
      (RoundTrips (fun _ => false) .double ['a', 'b'] ['%', 'c'] →
        QuoteFits ['a', 'b'] ['%', 'c'] ∨
          Plain ['a', 'b'] ∧ Dropped ['%', 'c'] ∧ 2 ≤ ['a', 'b'].length) :=
  quoted_roundTrips (fun _ => false) .double (by decide) ['%', 'c']

/-- After `"ab"`, a percent sign is returned as the letter that begins the
text. -/
theorem not_roundTrips :
    ¬ ∀ (functions : SymbolTable) (quote : Quote) (text rest : List Char), '\n' ∉ text →
      RoundTrips functions quote text rest := by
  intro all
  have returned := all (fun _ => false) .double ['a', 'b'] ['%', 'c'] (by decide)
  unfold RoundTrips at returned
  exact absurd returned (by decide +kernel)

end RangeScanner

end Rangexx
