import Rangexx.WhitespaceArrivals

/-!
# Runs of whitespace

Whitespace is skipped in the initial state only.  Words and commas end at any
character but a newline, so that what a run of whitespace does depends on the
state in which the scanner gets to it, and on the newlines in it.
-/

namespace Rangexx

namespace RangeScanner

open OutputRun

variable {functions : SymbolTable} {startCondition : StartCondition}
  {statestack : List StartCondition} {matched input : List Char} {ch : Char}

/-! ## What a run does -/

theorem tokens_spaces {spaces : List Char} (all : ∀ c ∈ spaces, Space c) (post : List Char) :
    tokens functions ⟨.initial, statestack, [], spaces ++ post⟩ =
      tokens functions ⟨.initial, statestack, [], post⟩ := by
  induction spaces with
  | nil => rfl
  | cons ch spaces ih =>
      rw [List.cons_append, tokens_space (all ch List.mem_cons_self)]
      exact ih fun c member => all c (List.mem_cons_of_mem ch member)

theorem whitespace_single (space : Space ch) : Whitespace [ch] := by
  refine ⟨List.cons_ne_nil _ _, fun c member => ?_⟩
  rwa [List.mem_singleton.mp member]

theorem tokens_initial_run {spaces : List Char} (run : Whitespace spaces) (matched post : List Char) :
    tokens functions ⟨.initial, statestack, matched, spaces ++ post⟩ =
      tokens functions ⟨.initial, statestack, [], post⟩ := by
  obtain ⟨first, others, rfl⟩ := List.exists_cons_of_ne_nil run.1
  rw [List.cons_append, tokens_space (run.2 first List.mem_cons_self)]
  exact tokens_spaces (fun c member => run.2 c (List.mem_cons_of_mem first member)) post

/-- The token that a space or a tab ends, after a comma or in a word. -/
def endToken (functions : SymbolTable) (startCondition : StartCondition) (matched : List Char) :
    Token :=
  if startCondition = .setoperation then ⟨.char ',', matched⟩
  else ⟨wordKind functions matched, matched⟩

/-- The start conditions that a space or a tab leaves. -/
def Awaits (startCondition : StartCondition) : Prop :=
  startCondition = .setoperation ∨ startCondition = .bareword

theorem Space.written (space : Space ch) (notNewline : ch ≠ '\n') : Written ch := by
  refine ⟨?_, notNewline⟩
  rcases space with rfl | rfl | rfl | rfl
  · decide
  · decide
  · exact absurd rfl notNewline
  · decide

theorem Space.not_wordChar (space : Space ch) : ¬ WordChar ch := by
  rw [space_iff] at space
  unfold WordChar
  simp only [List.mem_cons, List.not_mem_nil, or_false] at space ⊢
  omega

theorem Space.not_char (space : Space ch) : ch ≠ '-' ∧ ch ≠ '&' ∧ ch ≠ '.' := by
  rcases space with rfl | rfl | rfl | rfl <;> decide

/-- A space or a tab ends the token, and is skipped afterwards. -/
theorem tokens_endToken (awaits : Awaits startCondition) (space : Space ch) (notNewline : ch ≠ '\n')
    (matched input : List Char) :
    tokens functions ⟨startCondition, statestack, matched, ch :: input⟩ =
      endToken functions startCondition matched ::
        tokens functions ⟨.initial, statestack, [], input⟩ := by
  have written := space.written notNewline
  have other := space.not_char
  rcases awaits with rfl | rfl
  · rw [tokens_emit (lexTurn_operand written.1 written.2 other.1 other.2.1), tokens_reRead_ch,
      tokens_space space]
    rfl
  · rw [tokens_emit (lexTurn_wordEnd written.1 written.2 space.not_wordChar other.2.2),
      tokens_reRead_ch, tokens_space space]
    rfl

theorem Awaits.not_initial (awaits : Awaits startCondition) : startCondition ≠ .initial := by
  rcases awaits with rfl | rfl <;> decide

/-- Characters that no rule has are dropped where nothing is matched. -/
theorem tokens_drop (awaits : Awaits startCondition) (control : ch = '\n' ∨ Control ch)
    (input : List Char) :
    tokens functions ⟨startCondition, statestack, [], ch :: input⟩ =
      tokens functions ⟨startCondition, statestack, [], input⟩ :=
  tokens_quiet (lexTurn_echoCh (stuck_control control awaits.not_initial))

/-- The token that a run ends.  A newline drops what has been matched, and a
run of newlines ends nothing. -/
def tokenLeft (functions : SymbolTable) (startCondition : StartCondition)
    (matched spaces : List Char) : Option Token :=
  if spaces.all (· = '\n') then none
  else if spaces.head? = some '\n' then some (endToken functions startCondition [])
  else some (endToken functions startCondition matched)

/-- The tokens from a run on, given the token that it ends. -/
def tokensAfter (functions : SymbolTable) (startCondition : StartCondition)
    (statestack : List StartCondition) (post : List Char) : Option Token → List Token
  | none => tokens functions ⟨startCondition, statestack, [], post⟩
  | some token => token :: tokens functions ⟨.initial, statestack, [], post⟩

theorem tokens_run_nil (awaits : Awaits startCondition) {spaces : List Char}
    (all : ∀ c ∈ spaces, Space c) (post : List Char) :
    tokens functions ⟨startCondition, statestack, [], spaces ++ post⟩ =
      tokensAfter functions startCondition statestack post
        (tokenLeft functions startCondition [] spaces) := by
  induction spaces with
  | nil => rfl
  | cons ch spaces ih =>
      have space := all ch List.mem_cons_self
      have others : ∀ c ∈ spaces, Space c := fun c member => all c (List.mem_cons_of_mem ch member)
      by_cases newline : ch = '\n'
      · subst newline
        rw [List.cons_append, tokens_drop awaits (Or.inl rfl), ih others]
        have same : tokenLeft functions startCondition [] ('\n' :: spaces) =
            tokenLeft functions startCondition [] spaces := by
          unfold tokenLeft
          simp only [List.all_cons, decide_true, Bool.true_and, ite_self]
        rw [same]
      · have some : ¬ (ch :: spaces).all (· = '\n') := fun all =>
          newline (of_decide_eq_true (List.all_eq_true.mp all ch List.mem_cons_self))
        have left : tokenLeft functions startCondition [] (ch :: spaces) =
            Option.some (endToken functions startCondition []) := by
          unfold tokenLeft
          rw [if_neg some, ite_self]
        rw [List.cons_append, tokens_endToken awaits space newline, tokens_spaces others, left]
        rfl

/-- What is read again of a word that is dropped is a word. -/
def ProperWord (matched : List Char) : Prop :=
  WordRun (reRead matched.tail []) ['\n']

theorem wordRun_of_stops {word first second : List Char} (run : WordRun word first)
    (stops : WordStops second) (dot : second.head? = some '.' → first.head? = some '.') :
    WordRun word second := by
  induction run with
  | nil => exact .nil stops
  | char inWord _ ih => exact .char inWord (ih dot)
  | @dot word rest alone _ ih =>
      refine .dot ?_ (ih dot)
      cases word with
      | nil => exact fun first => alone (dot first)
      | cons ch word => exact alone

theorem SpaceFirst.wordStops {rest : List Char} (spaces : SpaceFirst rest) : WordStops rest := by
  constructor
  · obtain ⟨ch, first, space⟩ := spaces
    rw [Option.mem_def.mp first]
    rintro c ⟨⟩
    exact space.not_wordChar
  · exact fun dot => absurd dot (not_dot_of_spaceFirst spaces)

theorem wordStops_newline : WordStops ['\n'] :=
  SpaceFirst.wordStops ⟨'\n', rfl, by decide⟩

theorem tokens_run_newline {spaces post : List Char} (run : Whitespace spaces)
    (newline : spaces.head? = some '\n') (proper : ProperWord matched) :
    tokens functions ⟨.bareword, statestack, matched, spaces ++ post⟩ =
      tokens functions ⟨.bareword, statestack, [], spaces ++ post⟩ := by
  by_cases empty : matched = []
  · rw [empty]
  have cuts : CutsWord (spaces ++ post) := by
    obtain ⟨others, rfl⟩ := List.head?_eq_some_iff.mp newline
    exact ⟨'\n', rfl, Or.inl rfl⟩
  have again : WordRun (reRead matched.tail []) (spaces ++ post) :=
    wordRun_of_stops proper (run.spaceFirst post).wordStops fun dot =>
      absurd dot (not_dot_of_spaceFirst (run.spaceFirst post))
  rw [tokens_quiet (lexTurn_echoFirst (stuck_of_cutsWord cuts) empty), ← tokens_cutWord again cuts]
  unfold reRead
  rw [List.append_nil]

/-- The tokens from a run on, after a comma or in a word. -/
theorem tokens_run (awaits : Awaits startCondition) {spaces : List Char} (run : Whitespace spaces)
    (kept : matched = [] ∨ spaces.head? ≠ some '\n' ∨
      startCondition = .bareword ∧ ProperWord matched) (post : List Char) :
    tokens functions ⟨startCondition, statestack, matched, spaces ++ post⟩ =
      tokensAfter functions startCondition statestack post
        (tokenLeft functions startCondition matched spaces) := by
  by_cases newline : spaces.head? = some '\n'
  · have left : tokenLeft functions startCondition matched spaces =
        tokenLeft functions startCondition [] spaces := by
      unfold tokenLeft
      rw [if_pos newline, if_pos newline]
    rw [left, ← tokens_run_nil awaits run.2]
    rcases kept with rfl | other | ⟨rfl, proper⟩
    · rfl
    · exact absurd newline other
    · exact tokens_run_newline run newline proper
  · obtain ⟨first, others, rfl⟩ := List.exists_cons_of_ne_nil run.1
    have notNewline : first ≠ '\n' := fun same => newline (congrArg some same)
    have some : ¬ (first :: others).all (· = '\n') := fun all =>
      notNewline (of_decide_eq_true (List.all_eq_true.mp all first List.mem_cons_self))
    have left : tokenLeft functions startCondition matched (first :: others) =
        Option.some (endToken functions startCondition matched) := by
      unfold tokenLeft
      rw [if_neg some, if_neg newline]
    rw [left, List.cons_append, tokens_endToken awaits (run.2 first List.mem_cons_self) notNewline,
      tokens_spaces fun c member => run.2 c (List.mem_cons_of_mem first member)]
    rfl

/-! ## What follows a run of newlines -/

/-- After characters that are dropped comes one that is neither a minus sign
nor an ampersand. -/
inductive OperandFollows : List Char → Prop
  | here {ch : Char} {rest : List Char} (written : Written ch) (notMinus : ch ≠ '-')
      (notAmpersand : ch ≠ '&') : OperandFollows (ch :: rest)
  | later {ch : Char} {rest : List Char} (control : ch = '\n' ∨ Control ch)
      (others : OperandFollows rest) : OperandFollows (ch :: rest)

/-- The first word that is not cut off, after lone dots that are. -/
inductive LoneWord (word : List Char) : List Char → Prop
  | here {rest : List Char} (dots : ∀ c ∈ word, c = '.') (run : WordRun word rest)
      (uncut : ¬ CutsWord rest) : LoneWord word (word ++ rest)
  | later {skipped rest : List Char} {ch : Char} (dots : ∀ c ∈ skipped, c = '.')
      (run : WordRun skipped (ch :: rest)) (control : ch = '\n' ∨ Control ch)
      (others : LoneWord word rest) : LoneWord word (skipped ++ ch :: rest)

/-- In the initial state too, characters that no rule has are dropped. -/
theorem tokens_drop_initial (control : ch = '\n' ∨ Control ch) (input : List Char) :
    tokens functions ⟨.initial, statestack, [], ch :: input⟩ =
      tokens functions ⟨.initial, statestack, [], input⟩ := by
  rcases control with rfl | control
  · exact tokens_space (by decide) [] input
  · have stuck : Stuck .initial (some ch) := by
      unfold Stuck
      rw [getRange_eq_zero_iff.mpr control]
      decide
    exact tokens_quiet (lexTurn_echoCh stuck)

theorem not_written_iff : ¬ Written ch ↔ ch = '\n' ∨ Control ch := by
  unfold Written
  tauto

/-- No list goes on with itself. -/
theorem not_cons_append_self {α : Type} {first : α} {others list : List α} :
    list ≠ first :: (others ++ list) := by
  intro same
  have lengths := congrArg List.length same
  rw [List.length_cons, List.length_append] at lengths
  omega

/-- After a comma, what follows a run of newlines is read as after a space
exactly when an operand follows. -/
theorem operand_resumes_iff {token : Token} {post : List Char} :
    tokens functions ⟨.setoperation, statestack, [], post⟩ =
        token :: tokens functions ⟨.initial, statestack, [], post⟩ ↔
      token = ⟨.char ',', []⟩ ∧ OperandFollows post := by
  induction post with
  | nil =>
      have stuck : Stuck .setoperation none := by unfold Stuck; decide
      rw [tokens_finish (lexTurn_leave stuck)]
      exact ⟨nofun, fun follows => nomatch follows.2⟩
  | cons ch post ih =>
      by_cases written : Written ch
      · by_cases minus : ch = '-'
        · subst minus
          have operator : Operator '-' := by unfold Operator; decide
          rw [tokens_emit lexTurn_minus, tokens_emit (lexTurn_operator operator)]
          constructor
          · intro same
            exact absurd (List.tail_eq_of_cons_eq same) (@not_cons_append_self _ _ [] _)
          · rintro ⟨-, follows⟩
            cases follows with
            | here _ notMinus => exact absurd rfl notMinus
            | later control => exact absurd written (not_written_iff.mpr control)
        · by_cases ampersand : ch = '&'
          · subst ampersand
            have operator : Operator '&' := by unfold Operator; decide
            rw [tokens_emit lexTurn_ampersand, tokens_emit (lexTurn_operator operator)]
            constructor
            · intro same
              exact absurd (List.tail_eq_of_cons_eq same) (@not_cons_append_self _ _ [] _)
            · rintro ⟨-, follows⟩
              cases follows with
              | here _ _ notAmpersand => exact absurd rfl notAmpersand
              | later control => exact absurd written (not_written_iff.mpr control)
          · rw [tokens_emit (lexTurn_operand written.1 written.2 minus ampersand), tokens_reRead_ch]
            constructor
            · intro same
              exact ⟨(List.head_eq_of_cons_eq same).symm, .here written minus ampersand⟩
            · rintro ⟨rfl, -⟩
              rfl
      · have control := not_written_iff.mp written
        rw [tokens_drop (Or.inl rfl) control, tokens_drop_initial control, ih]
        refine and_congr_right fun _ => ⟨.later control, fun follows => ?_⟩
        cases follows with
        | here also => exact absurd also written
        | later _ others => exact others

theorem WordChar.not_dot (inWord : WordChar ch) : ch ≠ '.' := by
  rw [Ne, dot_iff]
  unfold WordChar at inWord
  simp only [List.mem_cons, List.not_mem_nil, or_false] at inWord
  omega

/-- A minus sign is an operator where no word has begun. -/
theorem WordChar.operator (inWord : WordChar ch) (start : ¬ WordStart ch) : Operator ch := by
  unfold WordStart at start
  unfold WordChar at inWord
  unfold Operator
  simp only [List.mem_cons, List.not_mem_nil, or_false] at start inWord ⊢
  omega

theorem tokens_lone_dot {input : List Char} (alone : input.head? ≠ some '.') :
    tokens functions ⟨.initial, statestack, [], '.' :: input⟩ =
      tokens functions ⟨.initial, statestack, [], input⟩ :=
  tokens_quiet (lexTurn_dot alone)

theorem tokens_dots {word rest : List Char} (run : WordRun word rest) (dots : ∀ c ∈ word, c = '.') :
    tokens functions ⟨.initial, statestack, [], word ++ rest⟩ =
      tokens functions ⟨.initial, statestack, [], rest⟩ := by
  induction run with
  | nil => rfl
  | char inWord => exact absurd (dots _ List.mem_cons_self) inWord.not_dot
  | dot alone _ ih =>
      rw [List.cons_append, tokens_lone_dot alone]
      exact ih fun c member => dots c (List.mem_cons_of_mem '.' member)

/-- The tokens of a word that ends, where no word has begun. -/
theorem tokens_initial_word {word rest : List Char} (run : WordRun word rest)
    (uncut : ¬ CutsWord rest) :
    ∃ front, tokens functions ⟨.initial, statestack, [], word ++ rest⟩ =
        front ++ tokens functions ⟨.initial, statestack, [], rest⟩ ∧
      (front = [] → ∀ c ∈ word, c = '.') := by
  induction run with
  | nil => exact ⟨[], rfl, fun _ => nofun⟩
  | @char ch word rest inWord others ih =>
      by_cases start : WordStart ch
      · refine ⟨[⟨wordKind functions ([] ++ [ch] ++ word), [] ++ [ch] ++ word⟩], ?_,
          fun none => absurd none (List.cons_ne_nil _ _)⟩
        rw [List.cons_append, tokens_quiet (lexTurn_wordStart start), tokens_wordRun others,
          tokens_wordStops others.stops uncut]
        rfl
      · have operator := inWord.operator start
        obtain ⟨front, same, -⟩ := ih uncut
        refine ⟨⟨.char ch, [ch]⟩ :: front, ?_, fun none => absurd none (List.cons_ne_nil _ _)⟩
        rw [List.cons_append, tokens_emit (lexTurn_operator operator), same]
        rfl
  | @dot word rest alone others ih =>
      obtain ⟨front, same, empty⟩ := ih uncut
      refine ⟨front, ?_, fun none => List.forall_mem_cons.mpr ⟨rfl, empty none⟩⟩
      rw [List.cons_append, tokens_lone_dot alone, same]

/-- The tokens of a word that is cut off, where no word has begun. -/
theorem tokens_initial_cut {word rest : List Char} (run : WordRun word rest)
    (cuts : CutsWord rest) :
    ∃ front, tokens functions ⟨.initial, statestack, [], word ++ rest⟩ =
        front ++ tokens functions ⟨.bareword, statestack, [], rest⟩ ∨
      tokens functions ⟨.initial, statestack, [], word ++ rest⟩ =
        front ++ tokens functions ⟨.initial, statestack, [], rest⟩ ∧
          (front = [] → ∀ c ∈ word, c = '.') := by
  induction run with
  | nil => exact ⟨[], Or.inr ⟨rfl, fun _ => nofun⟩⟩
  | @char ch word rest inWord others ih =>
      by_cases start : WordStart ch
      · have ascii : reRead word rest = word ++ rest := by
          unfold reRead
          rw [List.filter_eq_self.mpr fun c member => decide_eq_true (others.ascii c member)]
        refine ⟨[], Or.inl ?_⟩
        rw [List.cons_append, tokens_quiet (lexTurn_wordStart start), tokens_wordRun others,
          tokens_quiet (lexTurn_echoFirst (stuck_of_cutsWord cuts) (by simp)),
          List.nil_append, List.singleton_append, List.tail_cons, ascii, tokens_cutWord others cuts]
        rfl
      · have operator := inWord.operator start
        obtain ⟨front, same⟩ := ih cuts
        refine ⟨⟨.char ch, [ch]⟩ :: front, ?_⟩
        rw [List.cons_append, tokens_emit (lexTurn_operator operator)]
        rcases same with same | ⟨same, -⟩
        · rw [same]
          exact Or.inl rfl
        · rw [same]
          exact Or.inr ⟨rfl, fun none => absurd none (List.cons_ne_nil _ _)⟩
  | dot alone _ ih =>
      obtain ⟨front, same⟩ := ih cuts
      rw [List.cons_append, tokens_lone_dot alone]
      exact ⟨front, same.imp id fun same =>
        ⟨same.1, fun none => List.forall_mem_cons.mpr ⟨rfl, same.2 none⟩⟩⟩

/-- A text read as in a word gives one token before those it gives elsewhere
only where the word is of dots. -/
theorem loneWord_of_tokens {token : Token} {between : List Token} {post : List Char}
    (same : tokens functions ⟨.bareword, statestack, [], post⟩ =
      token :: (between ++ tokens functions ⟨.initial, statestack, [], post⟩)) :
    between = [] ∧ ∃ word, token = ⟨wordKind functions word, word⟩ ∧ LoneWord word post := by
  induction bound : post.length using Nat.strongRecOn generalizing post between with
  | _ bound ih =>
      obtain ⟨word, rest, rfl, run⟩ := exists_wordRun post
      by_cases cuts : CutsWord rest
      · obtain ⟨front, other⟩ :=
          @tokens_initial_cut functions statestack word rest run cuts
        rw [tokens_cutWord run cuts] at same
        rcases other with other | ⟨other, dots⟩
        · rw [other, ← List.append_assoc] at same
          exact absurd same not_cons_append_self
        · obtain ⟨ch, first, control⟩ := cuts
          obtain ⟨rest, rfl⟩ := List.head?_eq_some_iff.mp first
          rw [other, tokens_drop (Or.inr rfl) control, tokens_drop_initial control,
            ← List.append_assoc] at same
          rw [List.length_append, List.length_cons] at bound
          obtain ⟨empty, lone, isToken, others⟩ := ih rest.length (by omega) same rfl
          obtain ⟨none, noFront⟩ := List.append_eq_nil_iff.mp empty
          exact ⟨none, lone, isToken, .later (dots noFront) run control others⟩
      · obtain ⟨front, other, dots⟩ :=
          @tokens_initial_word functions statestack word rest run cuts
        rw [tokens_wordRun run, tokens_wordStops run.stops cuts, other, ← List.append_assoc] at same
        have tails := List.tail_eq_of_cons_eq same
        obtain ⟨none, noFront⟩ := List.append_eq_nil_iff.mp (List.self_eq_append_left.mp tails)
        exact ⟨none, word, (List.head_eq_of_cons_eq same).symm, .here (dots noFront) run cuts⟩

theorem LoneWord.tokens_eq {word post : List Char} (lone : LoneWord word post) :
    tokens functions ⟨.bareword, statestack, [], post⟩ =
      ⟨wordKind functions word, word⟩ ::
        tokens functions ⟨.initial, statestack, [], post⟩ := by
  induction lone with
  | here dots run uncut =>
      rw [tokens_wordRun run, tokens_wordStops run.stops uncut, tokens_dots run dots]
      rfl
  | @later skipped rest ch dots run control others ih =>
      rw [tokens_cutWord run ⟨ch, rfl, control⟩, tokens_drop (Or.inr rfl) control, ih,
        tokens_dots run dots, tokens_drop_initial control]

/-- In a word, what follows a run of newlines is read as after a space exactly
when the word that goes on is one of dots. -/
theorem word_resumes_iff {token : Token} {post : List Char} :
    tokens functions ⟨.bareword, statestack, [], post⟩ =
        token :: tokens functions ⟨.initial, statestack, [], post⟩ ↔
      ∃ word, token = ⟨wordKind functions word, word⟩ ∧ LoneWord word post := by
  constructor
  · exact fun same => (@loneWord_of_tokens _ _ _ [] _ same).2
  · rintro ⟨word, rfl, lone⟩
    exact lone.tokens_eq

/-- What follows gives back the token that a run ends. -/
def Resumes (functions : SymbolTable) (startCondition : StartCondition) (post : List Char)
    (token : Token) : Prop :=
  startCondition = .setoperation ∧ token = ⟨.char ',', []⟩ ∧ OperandFollows post ∨
    startCondition = .bareword ∧
      ∃ word, token = ⟨wordKind functions word, word⟩ ∧ LoneWord word post

theorem resumes_iff (awaits : Awaits startCondition) {token : Token} {post : List Char} :
    tokens functions ⟨startCondition, statestack, [], post⟩ =
        token :: tokens functions ⟨.initial, statestack, [], post⟩ ↔
      Resumes functions startCondition post token := by
  rcases awaits with rfl | rfl
  · rw [operand_resumes_iff]
    exact ⟨fun follows => Or.inl ⟨rfl, follows⟩,
      fun resumes => resumes.elim And.right fun other => nomatch other.1⟩
  · rw [word_resumes_iff]
    exact ⟨fun lone => Or.inr ⟨rfl, lone⟩,
      fun resumes => resumes.elim (fun other => nomatch other.1) And.right⟩

/-- Two runs end the same token, or what follows gives it back. -/
def SameLeft (functions : SymbolTable) (startCondition : StartCondition) (post : List Char)
    (first second : Option Token) : Prop :=
  first = second ∨
    (first = none ∧ ∃ token ∈ second, Resumes functions startCondition post token) ∨
      (second = none ∧ ∃ token ∈ first, Resumes functions startCondition post token)

theorem tokensAfter_eq_iff (awaits : Awaits startCondition) {post : List Char}
    {first second : Option Token} :
    tokensAfter functions startCondition statestack post first =
        tokensAfter functions startCondition statestack post second ↔
      SameLeft functions startCondition post first second := by
  cases first with
  | none =>
      cases second with
      | none => exact iff_of_true rfl (Or.inl rfl)
      | some token =>
          refine (resumes_iff awaits).trans ⟨fun resumes => Or.inr (Or.inl ⟨rfl, token, rfl, resumes⟩),
            ?_⟩
          rintro (same | ⟨-, other, isToken, resumes⟩ | ⟨none, -⟩)
          · cases same
          · cases isToken
            exact resumes
          · cases none
  | some token =>
      cases second with
      | none =>
          refine eq_comm.trans ((resumes_iff awaits).trans
            ⟨fun resumes => Or.inr (Or.inr ⟨rfl, token, rfl, resumes⟩), ?_⟩)
          rintro (same | ⟨none, -⟩ | ⟨-, other, isToken, resumes⟩)
          · cases same
          · cases none
          · cases isToken
            exact resumes
      | some other =>
          refine List.cons_eq_cons.trans ⟨fun same => Or.inl (congrArg some same.1), ?_⟩
          rintro (same | ⟨none, -⟩ | ⟨none, -⟩)
          · exact ⟨Option.some.inj same, rfl⟩
          · cases none
          · cases none

/-- Where the characters of a word are not all of words, a newline gives a
shorter word. -/
theorem exists_tokens_improper {spaces post : List Char} (run : Whitespace spaces)
    (newline : spaces.head? = some '\n') (written : ∀ c ∈ matched, Written c)
    (improper : ¬ ProperWord matched) :
    ∃ word others, tokens functions ⟨.bareword, statestack, matched, spaces ++ post⟩ =
        ⟨wordKind functions word, word⟩ :: others ∧ word.length < matched.length := by
  have someMatched : matched ≠ [] := by
    rintro rfl
    exact improper (.nil wordStops_newline)
  have cuts : CutsWord (spaces ++ post) := by
    obtain ⟨others, rfl⟩ := List.head?_eq_some_iff.mp newline
    exact ⟨'\n', rfl, Or.inl rfl⟩
  obtain ⟨word, rest, split, readAgain⟩ :=
    exists_wordRun (matched.tail.filter fun ch => ch.toNat < 0x80)
  cases rest with
  | nil =>
      refine absurd ?_ improper
      unfold ProperWord reRead
      rw [split, List.append_nil, List.append_nil]
      exact wordRun_of_stops readAgain wordStops_newline nofun
  | cons ch rest =>
      have member : ch ∈ matched := by
        have filtered : ch ∈ matched.tail.filter fun ch => ch.toNat < 0x80 := by
          rw [split]
          exact List.mem_append_right _ List.mem_cons_self
        exact List.mem_of_mem_tail (List.mem_of_mem_filter filtered)
      have stops : WordStops (ch :: rest ++ (spaces ++ post)) := by
        refine ⟨readAgain.stops.1, fun dot => ?_⟩
        obtain ⟨rest, rfl⟩ := List.head?_eq_some_iff.mp (readAgain.stops.2 dot)
        rfl
      have uncut : ¬ CutsWord (ch :: rest ++ (spaces ++ post)) := by
        rintro ⟨c, ⟨⟩, control⟩
        exact not_written_iff.mpr control (written ch member)
      have shorter : word.length < matched.length := by
        have lengths := congrArg List.length split
        have filtered := List.length_filter_le (fun ch : Char => decide (ch.toNat < 0x80)) matched.tail
        have positive := List.length_pos_iff.mpr someMatched
        rw [List.length_append] at lengths
        rw [List.length_tail] at filtered
        omega
      refine ⟨word, tokens functions ⟨.initial, statestack, [], ch :: rest ++ (spaces ++ post)⟩, ?_,
        shorter⟩
      rw [tokens_quiet (lexTurn_echoFirst (stuck_of_cutsWord cuts) someMatched)]
      unfold reRead
      rw [split, List.append_assoc, tokens_wordRun
        (wordRun_of_stops readAgain stops id), tokens_wordStops stops uncut]
      rfl

/-! ## Interchangeable runs -/

/-- The scanner is at whitespace outside quotes. -/
def OutsideQuotes (scanner : Scanner) : Prop :=
  scanner.startCondition = .initial ∨ Awaits scanner.startCondition

/-- The condition for two runs to do the same. -/
def Interchangeable (functions : SymbolTable) (scanner : Scanner) (spaces others post : List Char) :
    Prop :=
  scanner.startCondition = .initial ∨
    (scanner.startCondition = .bareword →
        ProperWord scanner.matched ∨ spaces.head? ≠ some '\n' ∧ others.head? ≠ some '\n') ∧
      SameLeft functions scanner.startCondition post
        (tokenLeft functions scanner.startCondition scanner.matched spaces)
        (tokenLeft functions scanner.startCondition scanner.matched others)

/-- Both runs drop characters that are not all of words. -/
def BothReread (scanner : Scanner) (spaces others : List Char) : Prop :=
  scanner.startCondition = .bareword ∧ ¬ ProperWord scanner.matched ∧
    spaces.head? = some '\n' ∧ others.head? = some '\n'

theorem endToken_ne_of_shorter {spaces others post : List Char} (run : Whitespace spaces)
    (other : Whitespace others) (written : ∀ c ∈ matched, Written c)
    (improper : ¬ ProperWord matched) (newline : spaces.head? = some '\n')
    (kept : others.head? ≠ some '\n') :
    tokens functions ⟨.bareword, statestack, matched, spaces ++ post⟩ ≠
      tokens functions ⟨.bareword, statestack, matched, others ++ post⟩ := by
  obtain ⟨word, after, first, shorter⟩ :=
    @exists_tokens_improper functions statestack matched spaces post run newline written improper
  obtain ⟨ch, others, rfl⟩ := List.exists_cons_of_ne_nil other.1
  rw [first, List.cons_append, tokens_endToken (Or.inr rfl) (other.2 ch List.mem_cons_self)
    fun same => kept (congrArg some same)]
  intro same
  have texts := congrArg Token.text (List.head_eq_of_cons_eq same)
  exact absurd (congrArg List.length texts) (Nat.ne_of_lt shorter)

theorem tokens_same_iff {scanner : Scanner} {spaces others post : List Char} (sound : Sound scanner)
    (outside : OutsideQuotes scanner) (run : Whitespace spaces) (other : Whitespace others)
    (single : ¬ BothReread scanner spaces others) :
    tokens functions { scanner with input := spaces ++ post } =
        tokens functions { scanner with input := others ++ post } ↔
      Interchangeable functions scanner spaces others post := by
  obtain ⟨startCondition, statestack, matched, input⟩ := scanner
  rcases outside with initial | awaits
  · cases (initial : startCondition = .initial)
    refine iff_of_true ?_ (Or.inl rfl)
    exact (tokens_initial_run run matched post).trans (tokens_initial_run other matched post).symm
  have iff_of_kept (kept : startCondition = .bareword → ProperWord matched ∨
      spaces.head? ≠ some '\n' ∧ others.head? ≠ some '\n') :
      tokens functions ⟨startCondition, statestack, matched, spaces ++ post⟩ =
          tokens functions ⟨startCondition, statestack, matched, others ++ post⟩ ↔
        SameLeft functions startCondition post (tokenLeft functions startCondition matched spaces)
          (tokenLeft functions startCondition matched others) := by
    rw [← @tokensAfter_eq_iff functions startCondition statestack awaits]
    rcases awaits with rfl | rfl
    · have none : matched = [] := sound.setoperation rfl
      rw [tokens_run (Or.inl rfl) run (Or.inl none), tokens_run (Or.inl rfl) other (Or.inl none)]
    · rcases kept rfl with proper | heads
      · rw [tokens_run (Or.inr rfl) run (Or.inr (Or.inr ⟨rfl, proper⟩)),
          tokens_run (Or.inr rfl) other (Or.inr (Or.inr ⟨rfl, proper⟩))]
      · rw [tokens_run (Or.inr rfl) run (Or.inr (Or.inl heads.1)),
          tokens_run (Or.inr rfl) other (Or.inr (Or.inl heads.2))]
  constructor
  · intro same
    have kept : startCondition = .bareword → ProperWord matched ∨
        spaces.head? ≠ some '\n' ∧ others.head? ≠ some '\n' := by
      rintro rfl
      by_cases proper : ProperWord matched
      · exact Or.inl proper
      · refine Or.inr ⟨fun newline => ?_, fun newline => ?_⟩
        · exact endToken_ne_of_shorter run other sound.written proper newline
            (fun also => single ⟨rfl, proper, newline, also⟩) same
        · exact endToken_ne_of_shorter other run sound.written proper newline
            (fun also => single ⟨rfl, proper, also, newline⟩) same.symm
    exact Or.inr ⟨kept, (iff_of_kept kept).mp same⟩
  · rintro (initial | ⟨kept, same⟩)
    · exact absurd initial awaits.not_initial
    · exact (iff_of_kept kept).mpr same

theorem Interchangeable.single {scanner : Scanner} {spaces others post : List Char}
    (same : Interchangeable functions scanner spaces others post) :
    ¬ BothReread scanner spaces others := by
  rintro ⟨bareword, improper, newline, -⟩
  rcases same with initial | ⟨kept, -⟩
  · rw [initial] at bareword
    cases bareword
  · rcases kept bareword with proper | heads
    · exact improper proper
    · exact heads.1 newline

/-- One run of whitespace outside quotes does as well as another where the
scanner skips whitespace; after a comma or in a word it depends on the
newlines.  Left out are two runs that both have the characters of a quoted text
read again. -/
theorem whitespace_interchangeable {pre spaces others post : List Char} {before : List Token}
    {scanner : Scanner} (ended : Ended pre) (run : Whitespace spaces) (other : Whitespace others)
    (reaches : Reaches functions (spaces ++ post) (scannerOn (pre ++ (spaces ++ post))) before
      scanner)
    (outside : OutsideQuotes scanner) :
    (Interchangeable functions scanner spaces others post →
        tokens functions (scannerOn (pre ++ (spaces ++ post))) =
          tokens functions (scannerOn (pre ++ (others ++ post)))) ∧
      (tokens functions (scannerOn (pre ++ (spaces ++ post))) =
          tokens functions (scannerOn (pre ++ (others ++ post))) →
        Interchangeable functions scanner spaces others post ∨
          BothReread scanner spaces others) := by
  have start : Sound (scannerOn (pre ++ (spaces ++ post))) := ⟨fun _ => rfl, nofun, nofun⟩
  have sound := reaches.sound start
  rw [reaches.same_iff ended run other]
  constructor
  · exact fun same => (tokens_same_iff sound outside run other same.single).mpr same
  · intro same
    by_cases both : BothReread scanner spaces others
    · exact Or.inr both
    · exact Or.inl ((tokens_same_iff sound outside run other both).mp same)

theorem whitespace_interchangeable_word :
    (Interchangeable (fun _ => false) ⟨.bareword, [], ['a'], [' ', 'b']⟩ [' '] ['\t'] ['b'] →
        tokens (fun _ => false) (scannerOn ['a', ' ', 'b']) =
          tokens (fun _ => false) (scannerOn ['a', '\t', 'b'])) ∧
      (tokens (fun _ => false) (scannerOn ['a', ' ', 'b']) =
          tokens (fun _ => false) (scannerOn ['a', '\t', 'b']) →
        Interchangeable (fun _ => false) ⟨.bareword, [], ['a'], [' ', 'b']⟩ [' '] ['\t'] ['b'] ∨
          BothReread ⟨.bareword, [], ['a'], [' ', 'b']⟩ [' '] ['\t']) :=
  @whitespace_interchangeable (fun _ => false) ['a'] [' '] ['\t'] ['b'] []
    ⟨.bareword, [], ['a'], [' ', 'b']⟩ (by rintro _ ⟨⟩; decide) (whitespace_single (by decide))
    (whitespace_single (by decide))
    (.quiet (by decide) (lexTurn_wordStart (by unfold WordStart; decide)) (.here rfl))
    (Or.inr (Or.inr rfl))

/-- After a word, a newline drops what a space ends. -/
theorem not_whitespace_interchangeable :
    ¬ ∀ (functions : SymbolTable) (pre spaces others post : List Char) (before : List Token)
        (scanner : Scanner), Ended pre → Whitespace spaces → Whitespace others →
      (∀ ch ∈ post.head?, ¬ Space ch) →
      Reaches functions (spaces ++ post) (scannerOn (pre ++ (spaces ++ post))) before scanner →
      OutsideQuotes scanner →
      tokens functions (scannerOn (pre ++ (spaces ++ post))) =
        tokens functions (scannerOn (pre ++ (others ++ post))) := by
  intro all
  have same := all (fun _ => false) ['a'] [' '] ['\n'] ['b'] []
    ⟨.bareword, [], ['a'], [' ', 'b']⟩ (by rintro _ ⟨⟩; decide) (whitespace_single (by decide))
    (whitespace_single (by decide)) (by rintro _ ⟨⟩; decide)
    (.quiet (by decide) (lexTurn_wordStart (by unfold WordStart; decide)) (.here rfl))
    (Or.inr (Or.inr rfl))
  exact absurd same (by decide +kernel)

end RangeScanner

end Rangexx
