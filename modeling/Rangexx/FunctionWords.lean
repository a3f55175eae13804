import Rangexx.OperatorChains

/-!
# Words with the name of a function

The scanner returns another token for a word that has the name of a function.
The parser takes the two alike wherever an expression can begin, but after a
colon, and on either side of `..`, it takes words only.
-/

namespace Rangexx

namespace RangeParser

open RangeScanner ReturningRun

variable {function : String → RangeFunction} {stack : List Entry} {unread : Option (List Char)}
  {pre post tokens : List Token} {text : List Char} {ast value : ASTNode} {nonTerm : NonTerm}
  {state : Nat}

/-! ## The tables -/

theorem functionWord_table :
    (∀ state < 55, (target state (.token .function) = some 23 ∧
          target state (.token .bareword) = some 24 ∧ state ∈ beforeStates) ∨
        (target state (.token .function) = none ∧
          (target state (.token .bareword) = none ∨
            state ∈ [33, 35] ∧ (stateTable state).reduction = none))) ∧
      (∀ state ∈ beforeStates, target state (.nonTerm .functionName) = some 5) ∧
      ∀ state < 55, ∀ number ∈ (stateTable state).reduction,
        (production number).nonTerm ≠ .word ∨ state = 24 := by
  decide +kernel

theorem element_table :
    ∀ below < 55, ∀ element ∈ (stateTable below).elements,
      (element.2 ≠ 0 ∨ element.1 = .eof) ∧
        (element.1 ≠ .token .sequence ∨ below = 6 ∧ element.2 = 35) ∧
        (element.1 ≠ .token (.char ':') ∨ element.2 = 33) ∧
          (element.1 = .nonTerm .word ∨ element.2 ≠ 6) ∧
            (element.1 = .token .bareword ∨ element.2 ≠ 24) := by
  decide +kernel

/-- The parser accepts at the end of the text only. -/
theorem ahead_of_accept (goes : target state (ahead tokens) = some 0) : ahead tokens = .eof := by
  have member := mem_of_target goes
  rcases (element_table _ (lt_of_mem_elements member) _ member).1 with other | ends
  · exact absurd rfl other
  · exact ends

/-! ## Where the two are alike -/

/-- The token before the word or function. -/
def Binds (symbol : Symbol) : Prop :=
  symbol = .token (.char ':') ∨ symbol = .token .sequence

/-- What comes before a word or function lets it be an expression, as does what
comes after. -/
def Fits (pre post : List Token) : Prop :=
  (∃ token ∈ pre, symbolOf token = .eof) ∨
    ((∀ token ∈ pre.getLast?, ¬ Binds (symbolOf token)) ∧ ahead post ≠ .token .sequence)

/-- Two lists of tokens are parsed alike. -/
def SameParse (function : String → RangeFunction) (first second : List Token) : Prop :=
  ∀ outcome, Parses function first outcome ↔ Parses function second outcome

/-- The parser that reads the function and the one that reads the word, with
what is left before the two. -/
inductive Alike (text : List Char) (post : List Token) : Form → Form → Prop
  | same {form : Form} (valid : form.Valid) : Alike text post form form
  | config {stack : List Entry} {unread : Option (List Char)} {pre : List Token} {ast : ASTNode}
      (valid : ValidStack stack) (fits : Fits pre post) (free : pre = [] → top stack ∉ [33, 35]) :
      Alike text post (.config stack unread (pre ++ ⟨.function, text⟩ :: post) ast)
        (.config stack unread (pre ++ ⟨.bareword, text⟩ :: post) ast)
  | reduced {stack : List Entry} {nonTerm : NonTerm} {value : ASTNode}
      {unread : Option (List Char)} {pre : List Token} {ast : ASTNode}
      (valid : (Form.reduced stack nonTerm value unread [] ast).Valid) (fits : Fits pre post) :
      Alike text post
        (.reduced stack nonTerm value unread (pre ++ ⟨.function, text⟩ :: post) ast)
        (.reduced stack nonTerm value unread (pre ++ ⟨.bareword, text⟩ :: post) ast)
  | shifted {stack : List Entry} {ast : ASTNode} (valid : ValidStack stack)
      (before : top stack ∈ beforeStates) (follows : ahead post ≠ .token .sequence) :
      Alike text post (.config (⟨23, emptyValue⟩ :: stack) (some text) post ast)
        (.config (⟨24, emptyValue⟩ :: stack) (some text) post ast)
  | named {stack : List Entry} {ast : ASTNode} (valid : ValidStack stack)
      (before : top stack ∈ beforeStates) (follows : ahead post ≠ .token .sequence) :
      Alike text post
        (.reduced stack .functionName (.word (String.ofList text)) (some text) post ast)
        (.reduced stack .word (.word (String.ofList text)) (some text) post ast)
  | pushed {stack : List Entry} {ast : ASTNode} (valid : ValidStack stack)
      (before : top stack ∈ beforeStates) (follows : ahead post ≠ .token .sequence) :
      Alike text post
        (.config (⟨5, .word (String.ofList text)⟩ :: stack) (some text) post ast)
        (.config (⟨6, .word (String.ofList text)⟩ :: stack) (some text) post ast)

/-- Two forms take turns to forms that are alike, or return the same. -/
def AlikeTurns (function : String → RangeFunction) (text : List Char) (post : List Token)
    (first second : Form) : Prop :=
  (∃ next after, FormTurn function first next ∧ FormTurn function second after ∧
      Alike text post next after) ∨
    ∃ outcome, LastTurn first outcome ∧ LastTurn second outcome

theorem Fits.tail {token : Token} (fits : Fits (token :: pre) post) (read : symbolOf token ≠ .eof) :
    Fits pre post := by
  rcases fits with ⟨other, member, ends⟩ | ⟨last, follows⟩
  · rcases List.mem_cons.mp member with rfl | later
    · exact absurd ends read
    · exact Or.inl ⟨other, later, ends⟩
  · refine Or.inr ⟨?_, follows⟩
    cases pre with
    | nil => exact nofun
    | cons second pre => rwa [List.getLast?_cons_cons] at last

/-- The state after a token of another kind takes more than words. -/
theorem free_of_target {symbol : Symbol} {below : Nat} (goes : target below symbol = some state)
    (later : state ≠ 0) (unbound : ¬ Binds symbol) : state ∉ [33, 35] := by
  have before := symbolBefore_eq goes later
  intro member
  rw [List.mem_pair] at member
  rcases member with rfl | rfl
  · exact unbound (Or.inl (Option.some.inj (before.symm.trans (by decide))))
  · exact unbound (Or.inr (Option.some.inj (before.symm.trans (by decide))))

/-- Before the two tokens the parsers do the same. -/
theorem alikeTurns_before {token : Token} (valid : ValidStack stack)
    (fits : Fits (token :: pre) post) :
    AlikeTurns function text post
      (.config stack unread (token :: pre ++ ⟨.function, text⟩ :: post) ast)
      (.config stack unread (token :: pre ++ ⟨.bareword, text⟩ :: post) ast) := by
  have validForm : (Form.config stack unread (token :: pre ++ ⟨.function, text⟩ :: post) ast).Valid :=
    valid
  rcases validForm.exists_turn function with ⟨next, turn⟩ | ⟨outcome, last⟩
  · cases turn with
    | @shift _ _ _ _ state looks goes later =>
        have read : symbolOf token ≠ .eof := read_of_shift goes later
        have free : pre = [] → state ∉ [33, 35] := by
          rintro rfl
          rcases fits with ⟨other, member, ends⟩ | ⟨unbound, -⟩
          · rw [List.mem_singleton.mp member] at ends
            exact absurd ends read
          · exact free_of_target goes later (unbound token rfl)
        exact Or.inl ⟨_, _, .shift looks goes later, .shift looks goes later,
          .config (valid.pushed goes later (typed_ahead _)) (fits.tail read) free⟩
    | reduce looks unmatched reduces types isValue typed goes later =>
        exact Or.inl ⟨_, _, .reduce looks unmatched reduces types isValue typed goes later,
          .reduce looks unmatched reduces types isValue typed goes later,
          .reduced ⟨valid.of_append, typed, _, later, goes⟩ fits⟩
  · cases last with
    | accept looks goes => exact Or.inr ⟨_, .accept looks goes, .accept looks goes⟩
    | unexpected looks unmatched stuck =>
        exact Or.inr ⟨_, .unexpected looks unmatched stuck, .unexpected looks unmatched stuck⟩

/-- The parsers shift the two tokens, or do the same before them. -/
theorem alikeTurns_at (valid : ValidStack stack) (follows : ahead post ≠ .token .sequence)
    (free : top stack ∉ [33, 35]) :
    AlikeTurns function text post (.config stack unread (⟨.function, text⟩ :: post) ast)
      (.config stack unread (⟨.bareword, text⟩ :: post) ast) := by
  have fits : Fits [] post := Or.inr ⟨nofun, follows⟩
  have table := functionWord_table.1 _ valid.top_lt
  have validForm : (Form.config stack unread (⟨.function, text⟩ :: post) ast).Valid := valid
  rcases validForm.exists_turn function with ⟨next, turn⟩ | ⟨outcome, last⟩
  · cases turn with
    | @shift _ _ _ _ state looks goes later =>
        rcases table with ⟨isFunction, isWord, before⟩ | ⟨isNone, -⟩
        · cases isFunction.symm.trans goes
          exact Or.inl ⟨_, _, .shift looks goes later, .shift looks isWord (by decide),
            .shifted valid before follows⟩
        · cases isNone.symm.trans goes
    | @reduce popped rest below _ after _ _ value number state looks unmatched reduces types isValue
        typed goes later =>
        have also : after = none →
            target (top (popped ++ below :: rest)) (.token .bareword) = none := by
          intro looked
          rcases table with ⟨isFunction, -⟩ | ⟨-, isNone | ⟨-, stuck⟩⟩
          · cases isFunction.symm.trans (unmatched looked)
          · exact isNone
          · rw [stuck] at reduces
            cases reduces
        exact Or.inl ⟨_, _, .reduce looks unmatched reduces types isValue typed goes later,
          .reduce looks also reduces types isValue typed goes later,
          .reduced ⟨valid.of_append, typed, _, later, goes⟩ fits⟩
  · cases last with
    | accept looks goes => cases ahead_of_accept goes
    | unexpected looks unmatched stuck =>
        rcases table with ⟨isFunction, -⟩ | ⟨-, isNone | ⟨bound, -⟩⟩
        · cases isFunction.symm.trans unmatched
        · exact Or.inr ⟨_, .unexpected looks unmatched stuck, .unexpected looks isNone stuck⟩
        · exact absurd bound free

/-- A reduction of one entry. -/
theorem formTurn_single {entry below : Entry} {rest : List Entry} {after : Option (List Char)}
    {number : Nat} {symbol : Symbol} (looks : Looks (entry :: below :: rest) unread after)
    (unmatched : after = none → target entry.state (ahead tokens) = none)
    (reduces : number ∈ (stateTable entry.state).reduction) (single : rightSide number = [symbol])
    (holds : entry.Holds symbol)
    (isValue : semanticValue function (after.getD (aheadText tokens))
      (valueAt (entry :: below :: rest)) (defaultValue (entry :: below :: rest) number) number =
        some value)
    (typed : Typed (.nonTerm (production number).nonTerm) value)
    (goes : target below.state (.nonTerm (production number).nonTerm) = some state)
    (later : state ≠ 0) (other : number ≠ 37) :
    FormTurn function (.config (entry :: below :: rest) unread tokens ast)
      (.reduced (below :: rest) (production number).nonTerm value after tokens ast) := by
  have types : List.Forall₂ Entry.Holds (rightSide number).reverse [entry] := by
    rw [single]
    exact .cons holds .nil
  have turn := @FormTurn.reduce function [entry] rest below unread after tokens ast value number state
    looks unmatched reduces types isValue typed goes later
  have same : treeAfter ([entry] ++ below :: rest) number ast = ast := if_neg other
  rw [same] at turn
  exact turn

theorem Alike.turns {first second : Form} (alike : Alike text post first second)
    (uncalled : ahead post ≠ .token (.char '(')) : AlikeTurns function text post first second := by
  cases alike with
  | same valid =>
      rcases valid.exists_turn function with ⟨next, turn⟩ | ⟨outcome, last⟩
      · exact Or.inl ⟨next, next, turn, turn, .same (turn.valid valid)⟩
      · exact Or.inr ⟨outcome, last, last⟩
  | @config stack unread pre ast valid fits free =>
      cases pre with
      | nil =>
          rcases fits with ⟨token, member, -⟩ | ⟨-, follows⟩
          · cases member
          · exact alikeTurns_at valid follows (free rfl)
      | cons token pre => exact alikeTurns_before valid fits
  | reduced valid fits =>
      obtain ⟨validStack, typed, state, later, goes⟩ := valid
      have free : state ∉ [33, 35] := free_of_target goes later nofun
      exact Or.inl ⟨_, _, .goto goes later, .goto goes later,
        .config (validStack.pushed goes later typed) fits fun _ => free⟩
  | @shifted stack ast valid before follows =>
      obtain ⟨below, rest, rfl⟩ := valid.exists_cons
      obtain ⟨-, -, -, -, -, -, toWord, -⟩ := chain_table.1 _ before
      have ofFunction : FormTurn function
          (.config (⟨23, emptyValue⟩ :: below :: rest) (some text) post ast)
          (.reduced (below :: rest) .functionName (.word (String.ofList text)) (some text) post ast) :=
        @formTurn_single function _ _ _ _ 5 ⟨23, emptyValue⟩ below rest _ 13 (.token .function)
          (.quiet Bool.false_ne_true) nofun rfl rfl ⟨by decide, rfl⟩ rfl ⟨_, rfl⟩
          (functionWord_table.2.1 _ before) (by decide) (by decide)
      have ofWord : FormTurn function
          (.config (⟨24, emptyValue⟩ :: below :: rest) (some text) post ast)
          (.reduced (below :: rest) .word (.word (String.ofList text)) (some text) post ast) :=
        @formTurn_single function _ _ _ _ 6 ⟨24, emptyValue⟩ below rest _ 15 (.token .bareword)
          (.quiet Bool.false_ne_true) nofun rfl rfl ⟨by decide, rfl⟩ rfl ⟨_, rfl⟩ toWord (by decide)
          (by decide)
      exact Or.inl ⟨_, _, ofFunction, ofWord, .named valid before follows⟩
  | named valid before follows =>
      obtain ⟨-, -, -, -, -, -, toWord, -⟩ := chain_table.1 _ before
      exact Or.inl ⟨_, _, .goto (functionWord_table.2.1 _ before) (by decide),
        .goto toWord (by decide), .pushed valid before follows⟩
  | @pushed stack ast valid before follows =>
      obtain ⟨below, rest, rfl⟩ := valid.exists_cons
      obtain ⟨-, -, -, -, -, -, -, toExpr, notZero, -⟩ := chain_table.1 _ before
      have notCalled : target 5 (ahead post) = none := by
        apply target_eq_none
        exact fun member => uncalled (List.mem_singleton.mp member)
      have noSequence : target 6 (ahead post) = none := by
        apply target_eq_none
        exact fun member => follows (List.mem_singleton.mp member)
      have ofFunction : FormTurn function
          (.config (⟨5, .word (String.ofList text)⟩ :: below :: rest) (some text) post ast)
          (.reduced (below :: rest) .expr (.word (String.ofList text)) none post ast) :=
        @formTurn_single function _ _ _ _ _ ⟨5, .word (String.ofList text)⟩ below rest none 23
          (.nonTerm .functionName) (.reads rfl) (fun _ => notCalled) rfl rfl
          ⟨(by decide : symbolBefore 5 = some (.nonTerm .functionName)), _, rfl⟩ rfl trivial toExpr
          notZero (by decide)
      have ofWord : FormTurn function
          (.config (⟨6, .word (String.ofList text)⟩ :: below :: rest) (some text) post ast)
          (.reduced (below :: rest) .expr (.word (String.ofList text)) none post ast) :=
        @formTurn_single function _ _ _ _ _ ⟨6, .word (String.ofList text)⟩ below rest none 24
          (.nonTerm .word) (.reads rfl) (fun _ => noSequence) rfl rfl
          ⟨(by decide : symbolBefore 6 = some (.nonTerm .word)), _, rfl⟩ rfl trivial toExpr notZero
          (by decide)
      exact Or.inl ⟨_, _, ofFunction, ofWord, .same ⟨valid, trivial, _, notZero, toExpr⟩⟩

theorem sameParse_of_imp {first second : List Token}
    (imp : ∀ outcome, Parses function first outcome → Parses function second outcome) :
    SameParse function first second := by
  intro outcome
  refine ⟨imp outcome, fun returns => ?_⟩
  obtain ⟨other, returned, -⟩ := exists_parses function first
  rw [Returns.unique returns (imp other returned)]
  exact returned

/-- Where the tokens fit, the parser takes the two alike. -/
theorem sameParse_of_fits (uncalled : ahead post ≠ .token (.char '(')) (fits : Fits pre post)
    (function : String → RangeFunction) (text : List Char) :
    SameParse function (pre ++ ⟨.function, text⟩ :: post) (pre ++ ⟨.bareword, text⟩ :: post) := by
  have start : Alike text post (startForm (pre ++ ⟨.function, text⟩ :: post))
      (startForm (pre ++ ⟨.bareword, text⟩ :: post)) := .config .bottom fits fun _ => by decide
  have turns (first second : Form) (alike : Alike text post first second) :
      (∃ next after, FormTurn function first next ∧ FormTurn function second after ∧
        Alike text post next after) ∨
      ∃ outcome other, LastTurn first outcome ∧ LastTurn second other ∧ outcome = other := by
    rcases alike.turns uncalled with turned | ⟨outcome, last, also⟩
    · exact Or.inl turned
    · exact Or.inr ⟨outcome, outcome, last, also, rfl⟩
  apply sameParse_of_imp
  intro outcome returns
  obtain ⟨other, returned, rfl⟩ := Parses.lockstep turns start returns
  exact returned

/-! ## Where they are not -/

/-- The function stands where the parser takes a word only.  What is read is up
to `pre`, in a state that may have read the whole of it. -/
def Bound (pre post : List Token) (state : Nat) : Prop :=
  (∃ token ∈ pre.getLast?, Binds (symbolOf token)) ∨ (pre = [] ∧ state ∈ [33, 35]) ∨
    ahead post = .token .sequence

/-- The parser does not get past the function. -/
inductive Doomed (text : List Char) (post : List Token) : Form → Prop
  | config {stack : List Entry} {unread : Option (List Char)} {pre : List Token} {ast : ASTNode}
      (valid : ValidStack stack) (read : ∀ token ∈ pre, symbolOf token ≠ .eof)
      (bound : Bound pre post (top stack)) :
      Doomed text post (.config stack unread (pre ++ ⟨.function, text⟩ :: post) ast)
  | reduced {stack : List Entry} {nonTerm : NonTerm} {value : ASTNode}
      {unread : Option (List Char)} {pre : List Token} {ast : ASTNode}
      (valid : (Form.reduced stack nonTerm value unread [] ast).Valid)
      (read : ∀ token ∈ pre, symbolOf token ≠ .eof)
      (bound : ∀ state, Bound pre post state) :
      Doomed text post (.reduced stack nonTerm value unread (pre ++ ⟨.function, text⟩ :: post) ast)
  | past {stack : List Entry} {unread : Option (List Char)} {ast : ASTNode}
      (valid : ValidStack stack) (follows : ahead post = .token .sequence)
      (other : top stack ∉ [6, 24]) : Doomed text post (.config stack unread post ast)
  | pastReduced {stack : List Entry} {nonTerm : NonTerm} {value : ASTNode}
      {unread : Option (List Char)} {ast : ASTNode}
      (valid : (Form.reduced stack nonTerm value unread [] ast).Valid)
      (follows : ahead post = .token .sequence) (other : nonTerm ≠ .word) :
      Doomed text post (.reduced stack nonTerm value unread post ast)

/-- A form has a turn to one that the parser does not get past either, or the
parser does not accept. -/
def DoomedTurns (function : String → RangeFunction) (text : List Char) (post : List Token)
    (form : Form) : Prop :=
  (∃ next, FormTurn function form next ∧ Doomed text post next) ∨
    ∃ outcome, LastTurn form outcome ∧ ∀ ast, outcome ≠ .accept ast

/-- A token that binds leads to a state that takes words only. -/
theorem bound_of_target {symbol : Symbol} {below : Nat} (goes : target below symbol = some state)
    (binds : Binds symbol) : state ∈ [33, 35] := by
  have member := mem_of_target goes
  obtain ⟨-, sequence, colon, -⟩ := element_table _ (lt_of_mem_elements member) _ member
  rcases binds with rfl | rfl
  · rw [show state = 33 from colon.resolve_left (absurd rfl)]
    decide
  · rw [show state = 35 from (sequence.resolve_left (absurd rfl)).2]
    decide

theorem doomedTurns_before {token : Token} (valid : ValidStack stack)
    (read : ∀ other ∈ token :: pre, symbolOf other ≠ .eof)
    (bound : Bound (token :: pre) post (top stack)) :
    DoomedTurns function text post
      (.config stack unread (token :: pre ++ ⟨.function, text⟩ :: post) ast) := by
  have tail : ∀ other ∈ pre, symbolOf other ≠ .eof := fun other member =>
    read other (List.mem_cons_of_mem token member)
  have validForm : (Form.config stack unread (token :: pre ++ ⟨.function, text⟩ :: post) ast).Valid :=
    valid
  rcases validForm.exists_turn function with ⟨next, turn⟩ | ⟨outcome, last⟩
  · cases turn with
    | @shift _ _ _ _ state looks goes later =>
        refine Or.inl ⟨_, .shift looks goes later,
          .config (valid.pushed goes later (typed_ahead _)) tail ?_⟩
        rcases bound with ⟨other, last, binds⟩ | ⟨none, -⟩ | follows
        · cases pre with
          | nil =>
              cases last
              exact Or.inr (Or.inl ⟨rfl, bound_of_target goes binds⟩)
          | cons second pre =>
              rw [List.getLast?_cons_cons] at last
              exact Or.inl ⟨other, last, binds⟩
        · cases none
        · exact Or.inr (Or.inr follows)
    | reduce looks unmatched reduces types isValue typed goes later =>
        refine Or.inl ⟨_, .reduce looks unmatched reduces types isValue typed goes later,
          .reduced ⟨valid.of_append, typed, _, later, goes⟩ read fun state => ?_⟩
        rcases bound with last | ⟨none, -⟩ | follows
        · exact Or.inl last
        · cases none
        · exact Or.inr (Or.inr follows)
  · cases last with
    | accept looks goes => exact absurd (ahead_of_accept goes) (read token List.mem_cons_self)
    | unexpected looks unmatched stuck => exact Or.inr ⟨_, .unexpected looks unmatched stuck, nofun⟩

theorem doomedTurns_at (valid : ValidStack stack) (bound : Bound [] post (top stack)) :
    DoomedTurns function text post (.config stack unread (⟨.function, text⟩ :: post) ast) := by
  have table := functionWord_table.1 _ valid.top_lt
  have follows (passes : top stack ∉ [33, 35]) : ahead post = .token .sequence := by
    rcases bound with ⟨token, last, -⟩ | ⟨-, taken⟩ | follows
    · cases last
    · exact absurd taken passes
    · exact follows
  have validForm : (Form.config stack unread (⟨.function, text⟩ :: post) ast).Valid := valid
  rcases validForm.exists_turn function with ⟨next, turn⟩ | ⟨outcome, last⟩
  · cases turn with
    | @shift _ _ _ _ state looks goes later =>
        have passes : top stack ∉ [33, 35] ∧ state = 23 := by
          rcases table with ⟨isFunction, -, before⟩ | ⟨isNone, -⟩
          · refine ⟨?_, Option.some.inj (goes.symm.trans isFunction)⟩
            intro taken
            rw [List.mem_pair] at taken
            rcases taken with taken | taken <;> rw [taken] at before <;> exact absurd before (by decide)
          · cases isNone.symm.trans goes
        refine Or.inl ⟨_, .shift looks goes later,
          .past (valid.pushed goes later (typed_ahead _)) (follows passes.1) ?_⟩
        rw [passes.2]
        exact (by decide : 23 ∉ [6, 24])
    | @reduce popped rest below _ after _ _ value number state looks unmatched reduces types isValue
        typed goes later =>
        have passes : top (popped ++ below :: rest) ∉ [33, 35] := by
          intro taken
          rw [List.mem_pair] at taken
          rcases taken with taken | taken <;> rw [taken] at reduces <;> cases reduces
        have none : ∀ token ∈ ([] : List Token), symbolOf token ≠ .eof := nofun
        exact Or.inl ⟨_, .reduce looks unmatched reduces types isValue typed goes later,
          @Doomed.reduced text post _ _ _ _ [] _ ⟨valid.of_append, typed, _, later, goes⟩ none fun _ =>
            Or.inr (Or.inr (follows passes))⟩
  · cases last with
    | accept looks goes => cases ahead_of_accept goes
    | unexpected looks unmatched stuck => exact Or.inr ⟨_, .unexpected looks unmatched stuck, nofun⟩

/-- Nothing is shifted before `..` but after a word. -/
theorem doomedTurns_past (valid : ValidStack stack) (follows : ahead post = .token .sequence)
    (other : top stack ∉ [6, 24]) :
    DoomedTurns function text post (.config stack unread post ast) := by
  have validForm : (Form.config stack unread post ast).Valid := valid
  rcases validForm.exists_turn function with ⟨next, turn⟩ | ⟨outcome, last⟩
  · cases turn with
    | shift looks goes later =>
        rw [follows] at goes
        have member := mem_of_target goes
        obtain ⟨-, sequence, -⟩ := element_table _ (lt_of_mem_elements member) _ member
        rw [(sequence.resolve_left (absurd rfl)).1] at other
        exact absurd (by decide) other
    | @reduce popped rest below _ after _ _ value number state looks unmatched reduces types isValue
        typed goes later =>
        refine Or.inl ⟨_, .reduce looks unmatched reduces types isValue typed goes later,
          .pastReduced ⟨valid.of_append, typed, _, later, goes⟩ follows ?_⟩
        rcases functionWord_table.2.2 _ (reduction_lt reduces) number reduces with notWord | isWord
        · exact notWord
        · rw [isWord] at other
          exact absurd (by decide) other
  · cases last with
    | accept looks goes => cases follows.symm.trans (ahead_of_accept goes)
    | unexpected looks unmatched stuck => exact Or.inr ⟨_, .unexpected looks unmatched stuck, nofun⟩

theorem Doomed.turns {form : Form} (doomed : Doomed text post form) :
    DoomedTurns function text post form := by
  cases doomed with
  | @config stack unread pre ast valid read bound =>
      cases pre with
      | nil => exact doomedTurns_at valid bound
      | cons token pre => exact doomedTurns_before valid read bound
  | reduced valid read bound =>
      obtain ⟨validStack, typed, state, later, goes⟩ := valid
      exact Or.inl ⟨_, .goto goes later,
        .config (validStack.pushed goes later typed) read (bound state)⟩
  | past valid follows other => exact doomedTurns_past valid follows other
  | pastReduced valid follows other =>
      obtain ⟨validStack, typed, state, later, goes⟩ := valid
      have member := mem_of_target goes
      obtain ⟨-, -, -, word, bareword⟩ := element_table _ (lt_of_mem_elements member) _ member
      have notSix : state ≠ 6 := word.resolve_left fun same => other (Symbol.nonTerm.inj same)
      have notShifted : state ≠ 24 := bareword.resolve_left nofun
      refine Or.inl ⟨_, .goto goes later, .past (validStack.pushed goes later typed) follows ?_⟩
      exact fun taken => (List.mem_pair.mp taken).elim notSix notShifted

/-- Where the tokens do not fit, the parser rejects the function. -/
theorem rejected_of_not_fits (unfit : ¬ Fits pre post) (function : String → RangeFunction)
    (text : List Char) : Parses function (pre ++ ⟨.function, text⟩ :: post) .abort := by
  unfold Fits at unfit
  rw [not_or, not_exists, not_and_or] at unfit
  have read : ∀ token ∈ pre, symbolOf token ≠ .eof := fun token member ends =>
    unfit.1 token ⟨member, ends⟩
  have bound : Bound pre post 0 := by
    rcases unfit.2 with last | follows
    · push Not at last
      exact Or.inl last
    · exact Or.inr (Or.inr (not_not.mp follows))
  have start : Doomed text post (startForm (pre ++ ⟨.function, text⟩ :: post)) :=
    .config .bottom read bound
  obtain ⟨outcome, returns, passes⟩ := exists_parses function (pre ++ ⟨.function, text⟩ :: post)
  have rejects := Parses.keeps (fun _ doomed => doomed.turns) start returns
  cases outcome with
  | accept ast => exact absurd rfl (rejects ast)
  | abort => exact returns
  | thrown => exact absurd rfl passes

/-! ## Functions that are not called -/

/-- Where the parser accepts the word, a function that is not called is parsed
like it exactly where it stands neither after a colon nor beside `..`; where the
parser rejects the word, it rejects the function. -/
theorem functionWord_iff (function : String → RangeFunction) (pre post : List Token)
    (text : List Char) (uncalled : ahead post ≠ .token (.char '(')) :
    (∀ ast, Parses function (pre ++ ⟨.bareword, text⟩ :: post) (.accept ast) →
        (SameParse function (pre ++ ⟨.function, text⟩ :: post) (pre ++ ⟨.bareword, text⟩ :: post) ↔
          Fits pre post)) ∧
      (Parses function (pre ++ ⟨.bareword, text⟩ :: post) .abort →
        SameParse function (pre ++ ⟨.function, text⟩ :: post)
          (pre ++ ⟨.bareword, text⟩ :: post)) := by
  constructor
  · intro ast accepted
    refine ⟨fun same => ?_, fun fits => sameParse_of_fits uncalled fits function text⟩
    by_contra unfit
    have rejects := rejected_of_not_fits unfit function text
    cases Returns.unique ((same .abort).mp rejects) accepted
  · intro rejected
    by_cases fits : Fits pre post
    · exact sameParse_of_fits uncalled fits function text
    · have also := rejected_of_not_fits fits function text
      intro outcome
      constructor
      · intro returns
        rw [Returns.unique returns also]
        exact rejected
      · intro returns
        rw [Returns.unique returns rejected]
        exact also

/-- `g(%x,-`, the tokens before a word. -/
def callBefore : List Token :=
  [⟨.function, ['g']⟩, ⟨.char '(', ['(']⟩, ⟨.char '%', ['%']⟩, ⟨.bareword, ['x']⟩,
    ⟨.char '-', ['-']⟩]

/-- `;h1..3)`, the tokens after it. -/
def callAfter : List Token :=
  [⟨.char ';', [';']⟩, ⟨.bareword, ['h', '1']⟩, ⟨.sequence, ['.', '.']⟩, ⟨.bareword, ['3']⟩,
    ⟨.char ')', [')']⟩]

theorem parses_call :
    Parses (fun _ _ _ => .ok []) (callBefore ++ ⟨.bareword, ['f']⟩ :: callAfter)
      (.accept (.function (fun _ _ => .ok [])
        [.difference (.expand (.word "x")) (.word "f"), .sequence (.word "h1") (.word "3")])) :=
  ⟨100, rfl⟩

theorem fits_call : Fits callBefore callAfter := by
  refine Or.inr ⟨?_, by decide⟩
  rintro token ⟨⟩ (colon | sequence)
  · exact absurd colon (by decide)
  · exact absurd sequence (by decide)

/-- `g(%x,-f;h1..3)` is parsed alike, whether `f` is a function or not. -/
theorem functionWord_call :
    SameParse (fun _ _ _ => .ok []) (callBefore ++ ⟨.function, ['f']⟩ :: callAfter)
      (callBefore ++ ⟨.bareword, ['f']⟩ :: callAfter) :=
  ((functionWord_iff (fun _ _ _ => .ok []) callBefore callAfter ['f'] (by decide)).1 _
    parses_call).mpr fits_call

/-- After a colon, a key with the name of a function is a syntax error. -/
theorem not_sameParse :
    ¬ ∀ (function : String → RangeFunction) (pre post : List Token) (text : List Char),
      ahead post ≠ .token (.char '(') →
        SameParse function (pre ++ ⟨.function, text⟩ :: post)
          (pre ++ ⟨.bareword, text⟩ :: post) := by
  intro all
  have same := all (fun _ _ _ => .ok []) [⟨.bareword, ['c']⟩, ⟨.char ':', [':']⟩] [] ['f']
    (by decide)
  have word : Parses (fun _ _ _ => .ok [])
      [⟨.bareword, ['c']⟩, ⟨.char ':', [':']⟩, ⟨.bareword, ['f']⟩]
      (.accept (.keyExpand (.word "c") (.word "f"))) :=
    parses_of_reads (Chain.reads _ (.single (.mk [] (.word ['c']) [([':'], ['f'])])))
  have unfit : ¬ Fits [⟨.bareword, ['c']⟩, ⟨.char ':', [':']⟩] [] := by
    rintro (⟨token, member, ends⟩ | ⟨last, -⟩)
    · revert ends
      rw [List.mem_pair] at member
      rcases member with rfl | rfl <;> decide
    · exact last _ rfl (Or.inl rfl)
  have rejects := rejected_of_not_fits unfit (fun _ _ _ => .ok []) ['f']
  cases Returns.unique ((same .abort).mp rejects) word

end RangeParser

end Rangexx
