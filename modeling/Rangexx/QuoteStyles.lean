import Rangexx.TreeLeaves

/-!
# Styles of quotes

The parser takes a single-quoted and a double-quoted text in the same places.
Only the production of the second has an action, so that the tree has a literal
for the one and an empty word for the other.
-/

namespace Rangexx

namespace RangeParser

open RangeScanner ReturningRun

/-- The kinds of tokens for quoted texts. -/
def quotes : List TokenKind :=
  [.singlequoted, .doublequoted]

theorem mem_quotes {kind : TokenKind} :
    kind ∈ quotes ↔ kind = .singlequoted ∨ kind = .doublequoted :=
  List.mem_pair

/-- The same token, but for the style of its quotes. -/
def Requoted (token other : Token) : Prop :=
  token.text = other.text ∧
    (token.kind = other.kind ∨ token.kind ∈ quotes ∧ other.kind ∈ quotes)

theorem Requoted.refl (token : Token) : Requoted token token :=
  ⟨rfl, Or.inl rfl⟩

/-- The tokens before the one that ends the text. -/
def readTokens (tokens : List Token) : List Token :=
  tokens.takeWhile fun token => symbolOf token ≠ .eof

/-- No single-quoted text is read. -/
def Plain (tokens : List Token) : Prop :=
  ∀ token ∈ readTokens tokens, token.kind ≠ .singlequoted

/-- The two states after a quoted text are alike. -/
def AlikeStates (state other : Nat) : Prop :=
  state = other ∨ state ∈ [21, 22] ∧ other ∈ [21, 22]

def AlikeSymbols (symbol other : Symbol) : Prop :=
  symbol = other ∨ (∃ kind ∈ quotes, symbol = .token kind) ∧ ∃ kind ∈ quotes, other = .token kind

def AlikeEntries (entry other : Entry) : Prop :=
  AlikeStates entry.state other.state

variable {function : String → RangeFunction} {stack others : List Entry}
  {unread after : Option (List Char)} {first second tokens : List Token} {ast tree value : ASTNode}
  {nonTerm : NonTerm} {state other number : Nat}

/-! ## The same places -/

theorem quotes_table :
    (∀ state < 55, (∀ kind ∈ quotes, target state (.token kind) = none) ∨
        ∀ kind ∈ quotes, ∃ after ∈ [21, 22], target state (.token kind) = some after) ∧
      ∀ state ∈ [21, 22], (stateTable state).elements = [] ∧ (stateTable state).reqToken = false ∧
        ∃ number ∈ [16, 17], (stateTable state).reduction = some number ∧
          production number = ⟨.literal, 1⟩ := by
  decide +kernel

theorem AlikeStates.reqToken (alike : AlikeStates state other) :
    (stateTable state).reqToken = (stateTable other).reqToken := by
  rcases alike with rfl | ⟨quoted, also⟩
  · rfl
  · rw [(quotes_table.2 _ quoted).2.1, (quotes_table.2 _ also).2.1]

/-- Two states that are alike reduce productions of the same shape. -/
theorem AlikeStates.reduction (alike : AlikeStates state other) :
    Option.Rel (fun number another => production number = production another)
      (stateTable state).reduction (stateTable other).reduction := by
  rcases alike with rfl | ⟨quoted, also⟩
  · cases (stateTable state).reduction with
    | none => exact .none
    | some number => exact .some rfl
  · obtain ⟨-, -, number, -, isNumber, isLiteral⟩ := quotes_table.2 _ quoted
    obtain ⟨-, -, another, -, isAnother, alsoLiteral⟩ := quotes_table.2 _ also
    rw [isNumber, isAnother]
    exact .some (isLiteral.trans alsoLiteral.symm)

/-- Two symbols that are alike lead from one state to the other. -/
theorem AlikeStates.target {symbol another : Symbol} (alike : AlikeStates state other)
    (symbols : AlikeSymbols symbol another) :
    Option.Rel AlikeStates (target state symbol) (target other another) := by
  rcases alike with rfl | ⟨quoted, also⟩
  · rcases symbols with rfl | ⟨⟨kind, isQuote, rfl⟩, kindAfter, isQuoteAfter, rfl⟩
    · cases RangeParser.target state symbol with
      | none => exact .none
      | some after => exact .some (Or.inl rfl)
    · rcases Nat.lt_or_ge state 55 with lt | beyond
      · rcases quotes_table.1 _ lt with none | some
        · rw [none _ isQuote, none _ isQuoteAfter]
          exact .none
        · obtain ⟨after, quoted, goes⟩ := some _ isQuote
          obtain ⟨afterwards, also, goesAlso⟩ := some _ isQuoteAfter
          rw [goes, goesAlso]
          exact .some (Or.inr ⟨quoted, also⟩)
      · unfold RangeParser.target
        rw [stateTable_beyond beyond]
        exact .none
  · unfold RangeParser.target
    rw [(quotes_table.2 _ quoted).1, (quotes_table.2 _ also).1]
    exact .none

theorem AlikeStates.exists_target {symbol another : Symbol} {after : Nat}
    (alike : AlikeStates state other) (symbols : AlikeSymbols symbol another)
    (goes : RangeParser.target state symbol = some after) :
    ∃ found, RangeParser.target other another = some found ∧ AlikeStates after found := by
  have same := alike.target symbols
  rw [goes] at same
  generalize RangeParser.target other another = found at same
  cases same with
  | some same => exact ⟨_, rfl, same⟩

theorem AlikeStates.target_eq_none {symbol another : Symbol} (alike : AlikeStates state other)
    (symbols : AlikeSymbols symbol another) (unmatched : RangeParser.target state symbol = none) :
    RangeParser.target other another = none := by
  have same := alike.target symbols
  rw [unmatched] at same
  generalize RangeParser.target other another = found at same
  cases same with
  | none => rfl

theorem AlikeStates.exists_reduction (alike : AlikeStates state other)
    (reduces : number ∈ (stateTable state).reduction) :
    ∃ another ∈ (stateTable other).reduction, production number = production another := by
  have same := alike.reduction
  rw [Option.mem_def.mp reduces] at same
  generalize (stateTable other).reduction = found at same
  cases same with
  | some same => exact ⟨_, rfl, same⟩

theorem AlikeStates.reduction_eq_none (alike : AlikeStates state other)
    (stuck : (stateTable state).reduction = none) : (stateTable other).reduction = none := by
  have same := alike.reduction
  rw [stuck] at same
  generalize (stateTable other).reduction = found at same
  cases same with
  | none => rfl

theorem AlikeStates.eq_zero_iff (alike : AlikeStates state other) : state = 0 ↔ other = 0 := by
  rcases alike with rfl | ⟨quoted, also⟩
  · rfl
  · rw [List.mem_pair] at quoted also
    omega

theorem Requoted.alikeSymbols {token requoted : Token} (same : Requoted token requoted) :
    AlikeSymbols (symbolOf token) (symbolOf requoted) := by
  have isToken {token : Token} (isQuote : token.kind ∈ quotes) : symbolOf token = .token token.kind := by
    rw [mem_quotes] at isQuote
    unfold symbolOf
    rcases isQuote with single | double
    · rw [single]
    · rw [double]
  rcases same.2 with kinds | ⟨isQuote, also⟩
  · refine Or.inl ?_
    unfold symbolOf
    rw [kinds]
  · exact Or.inr ⟨⟨_, isQuote, isToken isQuote⟩, _, also, isToken also⟩

theorem alikeSymbols_ahead (requoted : List.Forall₂ Requoted first second) :
    AlikeSymbols (ahead first) (ahead second) := by
  cases requoted with
  | nil => exact Or.inl rfl
  | cons same => exact same.alikeSymbols

theorem aheadText_eq (requoted : List.Forall₂ Requoted first second) :
    aheadText first = aheadText second := by
  cases requoted with
  | nil => rfl
  | cons same => exact same.1

theorem alikeStates_top (alike : List.Forall₂ AlikeEntries stack others) :
    AlikeStates (top stack) (top others) := by
  cases alike with
  | nil => exact Or.inl rfl
  | cons alike => exact alike

theorem Looks.alike (looks : Looks stack unread after)
    (alike : List.Forall₂ AlikeEntries stack others) : Looks others unread after := by
  have same := (alikeStates_top alike).reqToken
  cases looks with
  | already => exact .already
  | reads asks => exact .reads (same.symm.trans asks)
  | quiet silent => exact .quiet fun asks => silent (same.trans asks)

/-- The parsers on the tokens and on the requoted ones. -/
inductive Restyled : Form → Form → Prop
  | config {stack others : List Entry} {unread : Option (List Char)} {first second : List Token}
      {ast tree : ASTNode} (valid : ValidStack stack) (also : ValidStack others)
      (alike : List.Forall₂ AlikeEntries stack others)
      (requoted : List.Forall₂ Requoted first second) :
      Restyled (.config stack unread first ast) (.config others unread second tree)
  | reduced {stack others : List Entry} {nonTerm : NonTerm} {value another : ASTNode}
      {unread : Option (List Char)} {first second : List Token} {ast tree : ASTNode}
      (valid : (Form.reduced stack nonTerm value unread first ast).Valid)
      (also : (Form.reduced others nonTerm another unread second tree).Valid)
      (alike : List.Forall₂ AlikeEntries stack others)
      (requoted : List.Forall₂ Requoted first second) :
      Restyled (.reduced stack nonTerm value unread first ast)
        (.reduced others nonTerm another unread second tree)

/-- Both parsers accept, or none does. -/
inductive BothAccept : Outcome → Outcome → Prop
  | accept {ast tree : ASTNode} : BothAccept (.accept ast) (.accept tree)
  | abort : BothAccept .abort .abort

/-- Two forms take turns to forms that are restyled, or both accept or both do not. -/
def RestyledTurns (function : String → RangeFunction) (form restyled : Form) : Prop :=
  (∃ next after, FormTurn function form next ∧ FormTurn function restyled after ∧
      Restyled next after) ∨
    ∃ outcome other, LastTurn form outcome ∧ LastTurn restyled other ∧ BothAccept outcome other

theorem restyledTurns_reduced {another : ASTNode}
    (valid : (Form.reduced stack nonTerm value unread first ast).Valid)
    (also : (Form.reduced others nonTerm another unread second tree).Valid)
    (alike : List.Forall₂ AlikeEntries stack others)
    (requoted : List.Forall₂ Requoted first second) :
    RestyledTurns function (.reduced stack nonTerm value unread first ast)
      (.reduced others nonTerm another unread second tree) := by
  obtain ⟨validStack, typed, state, later, goes⟩ := valid
  obtain ⟨alsoValid, alsoTyped, -⟩ := also
  obtain ⟨found, alsoGoes, same⟩ := (alikeStates_top alike).exists_target (.inl rfl) goes
  have alsoLater : found ≠ 0 := fun zero => later (same.eq_zero_iff.mpr zero)
  exact Or.inl ⟨_, _, .goto goes later, .goto alsoGoes alsoLater,
    .config (validStack.pushed goes later typed) (alsoValid.pushed alsoGoes alsoLater alsoTyped)
      (.cons same alike) requoted⟩

theorem restyledTurns_config (valid : ValidStack stack) (also : ValidStack others)
    (alike : List.Forall₂ AlikeEntries stack others)
    (requoted : List.Forall₂ Requoted first second) :
    RestyledTurns function (.config stack unread first ast) (.config others unread second tree) := by
  have tops := alikeStates_top alike
  have symbols := alikeSymbols_ahead requoted
  have validForm : (Form.config stack unread first ast).Valid := valid
  have alsoForm : (Form.config others unread second tree).Valid := also
  rcases validForm.exists_turn function with ⟨next, turn⟩ | ⟨outcome, last⟩
  · have turned := turn
    cases turn with
    | shift looks goes later =>
        obtain ⟨found, alsoGoes, same⟩ := tops.exists_target symbols goes
        have alsoLater : found ≠ 0 := fun zero => later (same.eq_zero_iff.mpr zero)
        have other : FormTurn function (.config others unread second tree) _ :=
          .shift (looks.alike alike) alsoGoes alsoLater
        rw [← aheadText_eq requoted] at other
        have tails := List.forall₂_drop 1 requoted
        rw [List.drop_one, List.drop_one] at tails
        exact Or.inl ⟨_, _, turned, other,
          .config (turned.valid validForm) (other.valid alsoForm) (.cons same alike) tails⟩
    | @reduce popped rest below _ after _ _ value number state looks unmatched reduces types isValue
        typed goes later =>
        obtain ⟨another, alsoReduces, isProduction⟩ := tops.exists_reduction reduces
        have alsoUnmatched (looked : after = none) : target (top others) (ahead second) = none :=
          tops.target_eq_none symbols (unmatched looked)
        obtain ⟨result, other⟩ := exists_reduce also (looks.alike alike) alsoUnmatched alsoReduces
        rw [← isProduction] at other
        have dropped : (popped ++ below :: rest).drop (production number).size = below :: rest := by
          rw [← length_popped reduces types, List.drop_left]
        have below := List.forall₂_drop (production number).size alike
        rw [dropped] at below
        exact Or.inl ⟨_, _, turned, other,
          .reduced (turned.valid validForm) (other.valid alsoForm) below requoted⟩
  · cases last with
    | accept looks goes =>
        obtain ⟨found, alsoGoes, same⟩ := tops.exists_target symbols goes
        rw [same.eq_zero_iff.mp rfl] at alsoGoes
        exact Or.inr ⟨_, _, .accept looks goes, .accept (looks.alike alike) alsoGoes, .accept⟩
    | unexpected looks unmatched stuck =>
        exact Or.inr ⟨_, _, .unexpected looks unmatched stuck,
          .unexpected (looks.alike alike) (tops.target_eq_none symbols unmatched)
            (tops.reduction_eq_none stuck), .abort⟩

theorem Restyled.turns {form restyled : Form} (related : Restyled form restyled) :
    RestyledTurns function form restyled := by
  cases related with
  | config valid also alike requoted => exact restyledTurns_config valid also alike requoted
  | reduced valid also alike requoted => exact restyledTurns_reduced valid also alike requoted

/-- Requoted tokens are accepted as well. -/
theorem accepts_of_requoted (requoted : List.Forall₂ Requoted first second)
    (accepted : Parses function first (.accept ast)) :
    ∃ tree, Parses function second (.accept tree) := by
  have start : Restyled (startForm first) (startForm second) :=
    .config .bottom .bottom (.cons (.inl rfl) .nil) requoted
  obtain ⟨other, returned, both⟩ :=
    Parses.lockstep (fun _ _ related => related.turns) start accepted
  cases both with
  | accept => exact ⟨_, returned⟩

/-! ## The same tree -/

theorem readTokens_cons {token : Token} (isRead : symbolOf token ≠ .eof) (tokens : List Token) :
    readTokens (token :: tokens) = token :: readTokens tokens :=
  List.takeWhile_cons_of_pos (decide_eq_true isRead)

theorem readTokens_end {token : Token} (ends : symbolOf token = .eof) (tokens : List Token) :
    readTokens (token :: tokens) = [] :=
  List.takeWhile_cons_of_neg fun isRead => of_decide_eq_true isRead ends

/-- Tokens that differ in their quotes, if at all, behind the end of the text. -/
structure SameRead (first second : List Token) : Prop where
  requoted : List.Forall₂ Requoted first second
  same : readTokens first = readTokens second

theorem Requoted.ends_iff {token other : Token} (requoted : Requoted token other) :
    symbolOf token = .eof ↔ symbolOf other = .eof := by
  rcases requoted.alikeSymbols with same | ⟨⟨kind, -, isToken⟩, another, -, alsoToken⟩
  · rw [same]
  · rw [isToken, alsoToken]
    exact ⟨nofun, nofun⟩

theorem SameRead.ahead_eq (read : SameRead first second) : ahead first = ahead second := by
  obtain ⟨requoted, same⟩ := read
  cases requoted with
  | nil => rfl
  | @cons token other first second requoted others =>
      change symbolOf token = symbolOf other
      by_cases ends : symbolOf token = .eof
      · rw [ends, requoted.ends_iff.mp ends]
      · have alsoRead := mt requoted.ends_iff.mpr ends
        rw [readTokens_cons ends, readTokens_cons alsoRead] at same
        rw [(List.cons.inj same).1]

theorem SameRead.tail (read : SameRead first second) (isRead : ahead first ≠ .eof) :
    SameRead first.tail second.tail := by
  obtain ⟨requoted, same⟩ := read
  cases requoted with
  | nil => exact ⟨.nil, rfl⟩
  | cons requoted others =>
      have alsoRead := mt requoted.ends_iff.mpr isRead
      rw [readTokens_cons isRead, readTokens_cons alsoRead] at same
      exact ⟨others, (List.cons.inj same).2⟩

/-- The parsers on tokens of which the same are read. -/
inductive SameForms : Form → Form → Prop
  | config {stack : List Entry} {unread : Option (List Char)} {first second : List Token}
      {ast : ASTNode} (valid : ValidStack stack) (read : SameRead first second) :
      SameForms (.config stack unread first ast) (.config stack unread second ast)
  | reduced {stack : List Entry} {nonTerm : NonTerm} {value : ASTNode}
      {unread : Option (List Char)} {first second : List Token} {ast : ASTNode}
      (valid : (Form.reduced stack nonTerm value unread first ast).Valid)
      (read : SameRead first second) :
      SameForms (.reduced stack nonTerm value unread first ast)
        (.reduced stack nonTerm value unread second ast)

theorem SameForms.turns {form other : Form} (same : SameForms form other) :
    (∃ next after, FormTurn function form next ∧ FormTurn function other after ∧
        SameForms next after) ∨
      ∃ outcome, LastTurn form outcome ∧ LastTurn other outcome := by
  cases same with
  | reduced valid read =>
      obtain ⟨validStack, typed, state, later, goes⟩ := valid
      exact Or.inl ⟨_, _, .goto goes later, .goto goes later,
        .config (validStack.pushed goes later typed) read⟩
  | @config stack unread first second ast valid read =>
      have ahead := read.ahead_eq
      have text := aheadText_eq read.requoted
      have validForm : (Form.config stack unread first ast).Valid := valid
      rcases validForm.exists_turn function with ⟨next, turn⟩ | ⟨outcome, last⟩
      · have turned := turn
        cases turn with
        | shift looks goes later =>
            have isRead := read_of_shift goes later
            have other : FormTurn function (.config stack unread second ast) _ :=
              .shift looks (ahead ▸ goes) later
            rw [← text] at other
            exact Or.inl ⟨_, _, turned, other, .config (turned.valid validForm) (read.tail isRead)⟩
        | reduce looks unmatched reduces types isValue typed goes later =>
            exact Or.inl ⟨_, _, turned,
              .reduce looks (ahead ▸ unmatched) reduces types (text ▸ isValue) typed goes later,
              .reduced (turned.valid validForm) read⟩
      · cases last with
        | accept looks goes => exact Or.inr ⟨_, .accept looks goes, .accept looks (ahead ▸ goes)⟩
        | unexpected looks unmatched stuck =>
            exact Or.inr ⟨_, .unexpected looks unmatched stuck,
              .unexpected looks (ahead ▸ unmatched) stuck⟩

/-- Only the tokens before the end of the text matter. -/
theorem SameRead.parses (read : SameRead first second) {outcome : Outcome}
    (returns : Parses function first outcome) : Parses function second outcome := by
  have start : SameForms (startForm first) (startForm second) := .config .bottom read
  have turns (form other : Form) (same : SameForms form other) :
      (∃ next after, FormTurn function form next ∧ FormTurn function other after ∧
        SameForms next after) ∨
      ∃ outcome another, LastTurn form outcome ∧ LastTurn other another ∧ outcome = another := by
    rcases same.turns with turned | ⟨outcome, last, also⟩
    · exact Or.inl turned
    · exact Or.inr ⟨outcome, outcome, last, also, rfl⟩
  obtain ⟨other, returned, rfl⟩ := Parses.lockstep turns start returns
  exact returned

/-! ## The leaves of quoted texts -/

theorem tokenLeaf_single {token : Token} (isSingle : token.kind = .singlequoted)
    (single : String → Leaf) (tokens : List Token) :
    tokenLeaf single token tokens = [single (String.ofList token.text)] := by
  unfold tokenLeaf
  rw [isSingle]

theorem tokenLeaf_double {token : Token} (isDouble : token.kind = .doublequoted)
    (single : String → Leaf) (tokens : List Token) :
    tokenLeaf single token tokens = [.literal (String.ofList token.text)] := by
  unfold tokenLeaf
  rw [isDouble]

theorem tokenLeaf_other {token : Token} (other : token.kind ≠ .singlequoted)
    (single literal : String → Leaf) (tokens : List Token) :
    tokenLeaf single token tokens = tokenLeaf literal token tokens := by
  unfold tokenLeaf
  split
  case h_4 isSingle => exact absurd isSingle other
  all_goals rfl

/-- Of the tokens behind it a token only asks whether it is called. -/
theorem tokenLeaf_requoted (requoted : List.Forall₂ Requoted first second) (single : String → Leaf)
    (token : Token) : tokenLeaf single token first = tokenLeaf single token second := by
  have called : (ahead first = .token (.char '(')) = (ahead second = .token (.char '(')) := by
    rcases alikeSymbols_ahead requoted with same | ⟨⟨kind, isQuote, isFirst⟩, other, alsoQuote, isSecond⟩
    · rw [same]
    · rw [mem_quotes] at isQuote alsoQuote
      rw [isFirst, isSecond]
      rcases isQuote with rfl | rfl <;> rcases alsoQuote with rfl | rfl <;> simp
  unfold tokenLeaf
  simp only [called]

/-- A tree has literals for all its quoted texts where none is single-quoted. -/
theorem tokenLeaves_eq_iff (tokens : List Token) :
    tokenLeaves emptyWord tokens = tokenLeaves .literal tokens ↔ Plain tokens := by
  unfold Plain
  induction tokens with
  | nil => exact ⟨fun _ _ member => absurd member List.not_mem_nil, fun _ => rfl⟩
  | cons token tokens ih =>
      rw [tokenLeaves, tokenLeaves]
      by_cases ends : symbolOf token = .eof
      · rw [if_pos ends, if_pos ends, readTokens_end ends]
        exact ⟨fun _ _ member => absurd member List.not_mem_nil, fun _ => rfl⟩
      · rw [if_neg ends, if_neg ends, readTokens_cons ends, List.forall_mem_cons, ← ih]
        by_cases isSingle : token.kind = .singlequoted
        · rw [tokenLeaf_single isSingle, tokenLeaf_single isSingle]
          constructor
          · intro same
            cases same
          · exact fun plain => absurd isSingle plain.1
        · rw [tokenLeaf_other isSingle emptyWord .literal, List.append_cancel_left_eq,
            and_iff_right isSingle]

/-- Requoted tokens have the same leaves only where none that is read differs. -/
theorem readTokens_eq_of_leaves (requoted : List.Forall₂ Requoted first second)
    (same : tokenLeaves emptyWord first = tokenLeaves emptyWord second) :
    readTokens first = readTokens second := by
  induction requoted with
  | nil => rfl
  | @cons token other first second requoted others ih =>
      by_cases ends : symbolOf token = .eof
      · rw [readTokens_end ends, readTokens_end (requoted.ends_iff.mp ends)]
      · have alsoRead := mt requoted.ends_iff.mpr ends
        rw [tokenLeaves, tokenLeaves, if_neg ends, if_neg alsoRead] at same
        rw [readTokens_cons ends, readTokens_cons alsoRead]
        by_cases kinds : token.kind = other.kind
        · obtain rfl : token = other := Token.ext kinds requoted.1
          rw [tokenLeaf_requoted others, List.append_cancel_left_eq] at same
          rw [ih same]
        · obtain ⟨isQuote, alsoQuote⟩ := requoted.2.resolve_left kinds
          rw [mem_quotes] at isQuote alsoQuote
          rcases isQuote with single | double <;> rcases alsoQuote with alsoSingle | alsoDouble
          · exact absurd (single.trans alsoSingle.symm) kinds
          · rw [tokenLeaf_single single, tokenLeaf_double alsoDouble] at same
            cases same
          · rw [tokenLeaf_double double, tokenLeaf_single alsoSingle] at same
            cases same
          · exact absurd (double.trans alsoDouble.symm) kinds

theorem readTokens_eq_of_plain (requoted : List.Forall₂ Requoted first second)
    (plain : Plain first) (alsoPlain : Plain second) : readTokens first = readTokens second := by
  unfold Plain at plain alsoPlain
  induction requoted with
  | nil => rfl
  | @cons token other first second requoted others ih =>
      by_cases ends : symbolOf token = .eof
      · rw [readTokens_end ends, readTokens_end (requoted.ends_iff.mp ends)]
      · have alsoRead := mt requoted.ends_iff.mpr ends
        rw [readTokens_cons ends, List.forall_mem_cons] at plain
        rw [readTokens_cons alsoRead, List.forall_mem_cons] at alsoPlain
        have kinds : token.kind = other.kind := by
          rcases requoted.2 with kinds | ⟨isQuote, alsoQuote⟩
          · exact kinds
          · have double := (mem_quotes.mp isQuote).resolve_left plain.1
            have alsoDouble := (mem_quotes.mp alsoQuote).resolve_left alsoPlain.1
            exact double.trans alsoDouble.symm
        rw [readTokens_cons ends, readTokens_cons alsoRead, ih plain.2 alsoPlain.2,
          Token.ext kinds requoted.1]

/-- Tokens with other quotes are accepted alike.  Their tree is the same where
no quote that is read is another, and it has a literal for each quoted text
where, besides, none is single-quoted. -/
theorem quoteStyle_iff (requoted : List.Forall₂ Requoted first second)
    (accepted : Parses function first (.accept ast)) :
    (∃ tree, Parses function second (.accept tree)) ∧
      (Parses function second (.accept ast) ↔ readTokens first = readTokens second) ∧
        (Parses function second (.accept ast) ∧ leaves ast = tokenLeaves .literal first ↔
          Plain first ∧ Plain second) := by
  have isFirst := leaves_eq_tokenLeaves accepted
  have same : Parses function second (.accept ast) ↔ readTokens first = readTokens second := by
    constructor
    · intro also
      exact readTokens_eq_of_leaves requoted (isFirst.symm.trans (leaves_eq_tokenLeaves also))
    · intro read
      exact SameRead.parses ⟨requoted, read⟩ accepted
  refine ⟨accepts_of_requoted requoted accepted, same, ?_⟩
  rw [same, isFirst, tokenLeaves_eq_iff]
  constructor
  · rintro ⟨read, plain⟩
    refine ⟨plain, ?_⟩
    unfold Plain
    rw [← read]
    exact plain
  · rintro ⟨plain, alsoPlain⟩
    exact ⟨readTokens_eq_of_plain requoted plain alsoPlain, plain⟩

theorem parses_singlequoted :
    Parses (fun _ _ _ => .ok []) [⟨.singlequoted, ['a']⟩] (.accept (.word "")) :=
  ⟨9, rfl⟩

/-- The tokens of a call, on the difference of a double-quoted text and what a
quoted one of some kind expands to. -/
def quotedCall (kind : TokenKind) : List Token :=
  [⟨.function, ['g']⟩, ⟨.char '(', ['(']⟩, ⟨.doublequoted, ['b']⟩, ⟨.char '-', ['-']⟩,
    ⟨.char '%', ['%']⟩, ⟨kind, ['a']⟩, ⟨.char ')', [')']⟩]

/-- The tree of the call with double quotes. -/
def quotedTree : ASTNode :=
  .function (fun _ _ => .ok []) [.difference (.literal "b") (.expand (.literal "a"))]

theorem parses_quotedCall :
    Parses (fun _ _ _ => .ok []) (quotedCall .doublequoted) (.accept quotedTree) :=
  ⟨100, rfl⟩

theorem requoted_quotedCall :
    List.Forall₂ Requoted (quotedCall .doublequoted) (quotedCall .singlequoted) :=
  .cons (.refl _) (.cons (.refl _) (.cons (.refl _) (.cons (.refl _) (.cons (.refl _)
    (.cons ⟨rfl, Or.inr ⟨by decide, by decide⟩⟩ (.cons (.refl _) .nil))))))

theorem quoteStyle_quotedCall :
    (∃ tree, Parses (fun _ _ _ => .ok []) (quotedCall .singlequoted) (.accept tree)) ∧
      (Parses (fun _ _ _ => .ok []) (quotedCall .singlequoted) (.accept quotedTree) ↔
        readTokens (quotedCall .doublequoted) = readTokens (quotedCall .singlequoted)) ∧
      (Parses (fun _ _ _ => .ok []) (quotedCall .singlequoted) (.accept quotedTree) ∧
          leaves quotedTree = tokenLeaves .literal (quotedCall .doublequoted) ↔
        Plain (quotedCall .doublequoted) ∧ Plain (quotedCall .singlequoted)) :=
  quoteStyle_iff requoted_quotedCall parses_quotedCall

/-- A single-quoted text alone is an empty word, not its literal. -/
theorem not_quoteStyle :
    ¬ ∀ (function : String → RangeFunction) (first second : List Token) (ast : ASTNode),
      List.Forall₂ Requoted first second → Parses function first (.accept ast) →
        Parses function second (.accept ast) ∧ leaves ast = tokenLeaves .literal first := by
  intro all
  have requoted : List.Forall₂ Requoted [⟨.singlequoted, ['a']⟩] [⟨.doublequoted, ['a']⟩] :=
    .cons ⟨rfl, Or.inr ⟨by decide, by decide⟩⟩ .nil
  have double : Parses (fun _ _ _ => .ok []) [⟨.doublequoted, ['a']⟩] (.accept (.literal "a")) :=
    ⟨9, rfl⟩
  cases Returns.unique (all _ _ _ _ requoted parses_singlequoted).1 double

end RangeParser

end Rangexx
