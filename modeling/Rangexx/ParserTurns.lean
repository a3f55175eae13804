import Rangexx.RangeParser

/-!
# Turns of the parser

Between two rounds the parser looks at its next token, has not read it yet, or
has just reduced a production.  A stack that the tables can lead to always has
the symbols of the production that is reduced, so that the parser neither runs
out of stack nor throws, and it returns on every list of tokens.
-/

namespace Rangexx

namespace RangeParser

open RangeScanner ReturningRun

variable {function : String → RangeFunction}

/-! ## The forms of a parser -/

/-- The symbol that the parser reads next. -/
def ahead (tokens : List Token) : Symbol :=
  tokens.head?.elim .eof symbolOf

def aheadText (tokens : List Token) : List Char :=
  tokens.head?.elim [] Token.text

def top (stack : List Entry) : Nat :=
  (stack.headD ⟨0, emptyValue⟩).state

def valueAt (stack : List Entry) (depth : Nat) : ASTNode :=
  (stack.getD depth ⟨0, emptyValue⟩).value

/-- A parser before the tokens that are not shifted yet.  Where the next one is
unread, the scanner still has the text of the one before. -/
def config (stack : List Entry) (unread : Option (List Char)) (tokens : List Token)
    (ast : ASTNode) : Parser :=
  match unread with
  | some matched => ⟨stack, none, emptyValue, none, emptyValue, tokens, matched, ast⟩
  | none => ⟨stack, some (ahead tokens), emptyValue, none, emptyValue, tokens.tail,
      aheadText tokens, ast⟩

/-- A parser that has reduced a production and not yet pushed its symbol. -/
def reduced (stack : List Entry) (nonTerm : NonTerm) (value : ASTNode)
    (unread : Option (List Char)) (tokens : List Token) (ast : ASTNode) : Parser :=
  match unread with
  | some matched => ⟨stack, some (.nonTerm nonTerm), value, none, emptyValue, tokens, matched, ast⟩
  | none => ⟨stack, some (.nonTerm nonTerm), value, some (ahead tokens), emptyValue, tokens.tail,
      aheadText tokens, ast⟩

variable {stack : List Entry} {unread : Option (List Char)} {tokens : List Token}
  {ast value : ASTNode} {nonTerm : NonTerm} {state number : Nat} {matched : List Char}

/-- Nothing is read before the parser looks its token up. -/
def Ready (parser : Parser) : Prop :=
  parser.token.isSome ∨ (stateTable parser.state).reqToken = false

theorem Ready.loaded {parser : Parser} (ready : Ready parser) :
    (if (stateTable parser.state).reqToken then parser.getToken else parser) = parser := by
  rcases ready with isSome | quiet
  · unfold Parser.getToken
    rw [if_pos isSome, ite_self]
  · rw [quiet]
    rfl

theorem step_of_shift {parser : Parser} (ready : Ready parser)
    (action : lookup parser.state parser.token = .shift state) :
    parser.step function = .next (parser.push state).popToken := by
  unfold Parser.step
  simp only [ready.loaded, action]

theorem step_of_reduce {parser after : Parser} (ready : Ready parser)
    (action : lookup parser.state parser.token = .reduce number)
    (executed : parser.executeAction function number = some after)
    (deep : (production number).size ≤ after.stack.length - 1) :
    parser.step function = .next { after with
      token := some (.nonTerm (production number).nonTerm)
      stack := after.stack.drop (production number).size } := by
  unfold Parser.step
  simp only [ready.loaded, action, executed, Parser.reduce, if_neg (Nat.not_lt.mpr deep)]

theorem step_of_accept {parser : Parser} (ready : Ready parser)
    (action : lookup parser.state parser.token = .accept) :
    parser.step function = .done (.accept parser.ast) := by
  unfold Parser.step
  simp only [ready.loaded, action]

theorem step_of_unexpected {parser : Parser} (ready : Ready parser)
    (action : lookup parser.state parser.token = .unexpected) :
    parser.step function = .done .abort := by
  unfold Parser.step
  simp only [ready.loaded, action]

/-- The state of the parser reads the next token before it acts. -/
def Asks (stack : List Entry) : Prop :=
  (stateTable (top stack)).reqToken = true

/-- A state that asks for a token reads it first. -/
theorem step_load (asks : Asks stack) :
    (config stack (some matched) tokens ast).step function =
      (config stack none tokens ast).step function := by
  have loads : (if (stateTable (config stack (some matched) tokens ast).state).reqToken then
      (config stack (some matched) tokens ast).getToken
      else config stack (some matched) tokens ast) = config stack none tokens ast := by
    rw [show (config stack (some matched) tokens ast).state = top stack from rfl,
      show (stateTable (top stack)).reqToken = true from asks, if_pos rfl]
    cases tokens <;> rfl
  have ready : Ready (config stack none tokens ast) := Or.inl rfl
  unfold Parser.step
  rw [loads, ready.loaded]

theorem step_shift (action : lookup (top stack) (some (ahead tokens)) = .shift state) :
    (config stack none tokens ast).step function =
      .next (config (⟨state, emptyValue⟩ :: stack) (some (aheadText tokens)) tokens.tail ast) :=
  step_of_shift (Or.inl rfl) action

theorem step_goto (action : lookup (top stack) (some (.nonTerm nonTerm)) = .shift state) :
    (reduced stack nonTerm value unread tokens ast).step function =
      .next (config (⟨state, value⟩ :: stack) unread tokens ast) := by
  cases unread with
  | none => exact step_of_shift (Or.inl rfl) action
  | some matched => exact step_of_shift (Or.inl rfl) action

theorem step_accept (action : lookup (top stack) (some (ahead tokens)) = .accept) :
    (config stack none tokens ast).step function = .done (.accept ast) := by
  have ready : Ready (config stack none tokens ast) := Or.inl rfl
  exact step_of_accept ready action

theorem step_unexpected (action : lookup (top stack) (some (ahead tokens)) = .unexpected) :
    (config stack none tokens ast).step function = .done .abort := by
  have ready : Ready (config stack none tokens ast) := Or.inl rfl
  exact step_of_unexpected ready action

/-- The value that a production starts from. -/
def defaultValue (stack : List Entry) (number : Nat) : ASTNode :=
  if (production number).size = 0 then emptyValue
  else valueAt stack ((production number).size - 1)

/-- The tree after a production. -/
def treeAfter (stack : List Entry) (number : Nat) (ast : ASTNode) : ASTNode :=
  if number = 37 then valueAt stack 0 else ast

theorem step_reduceAhead (action : lookup (top stack) (some (ahead tokens)) = .reduce number)
    (isValue : semanticValue function (aheadText tokens) (valueAt stack)
      (defaultValue stack number) number = some value)
    (deep : (production number).size ≤ stack.length - 1) :
    (config stack none tokens ast).step function =
      .next (reduced (stack.drop (production number).size) (production number).nonTerm value none
        tokens (treeAfter stack number ast)) := by
  have executed : (config stack none tokens ast).executeAction function number =
      some ⟨stack, some (ahead tokens), value, some (ahead tokens), emptyValue, tokens.tail,
        aheadText tokens, treeAfter stack number ast⟩ := by
    change (semanticValue function (aheadText tokens) (valueAt stack) (defaultValue stack number)
      number >>= _) = _
    rw [isValue]
    rfl
  have ready : Ready (config stack none tokens ast) := Or.inl rfl
  exact step_of_reduce ready action executed deep

theorem step_reduce (quiet : ¬ Asks stack) (action : lookup (top stack) none = .reduce number)
    (isValue : semanticValue function matched (valueAt stack) (defaultValue stack number) number =
      some value)
    (deep : (production number).size ≤ stack.length - 1) :
    (config stack (some matched) tokens ast).step function =
      .next (reduced (stack.drop (production number).size) (production number).nonTerm value
        (some matched) tokens (treeAfter stack number ast)) := by
  have executed : (config stack (some matched) tokens ast).executeAction function number =
      some ⟨stack, none, value, none, emptyValue, tokens, matched, treeAfter stack number ast⟩ := by
    change (semanticValue function matched (valueAt stack) (defaultValue stack number) number >>= _)
      = _
    rw [isValue]
    rfl
  have ready : Ready (config stack (some matched) tokens ast) :=
    Or.inr (Bool.eq_false_of_not_eq_true quiet)
  exact step_of_reduce ready action executed deep

/-! ## Stacks that the tables lead to -/

/-- The right-hand side of a production, as the comments of
`s_productionInfo` have it. -/
def rightSide : Nat → List Symbol
  | 1 => [.nonTerm .expr, .token (.char ':'), .nonTerm .word]
  | 2 => [.nonTerm .expr, .token (.char ','), .nonTerm .expr]
  | 3 => [.nonTerm .expr, .token (.char '-'), .nonTerm .expr]
  | 4 => [.nonTerm .expr, .token (.char '&'), .nonTerm .expr]
  | 5 => [.nonTerm .word, .token .sequence, .nonTerm .word]
  | 6 => [.token (.char '%'), .nonTerm .expr]
  | 7 => [.token (.char '*'), .nonTerm .expr]
  | 8 => [.token (.char '^'), .nonTerm .expr]
  | 9 => [.token (.char '('), .nonTerm .expr, .token (.char ')')]
  | 10 => [.nonTerm .expr, .token (.char '{'), .nonTerm .expr, .token (.char '}'), .nonTerm .expr]
  | 11 => [.nonTerm .expr]
  | 12 => [.nonTerm .functionArguments, .token (.char ';'), .nonTerm .expr]
  | 13 => [.token .function]
  | 14 => [.nonTerm .functionName, .token (.char '('), .nonTerm .functionArguments,
      .token (.char ')')]
  | 15 => [.token .bareword]
  | 16 => [.token .singlequoted]
  | 17 => [.token .doublequoted]
  | 18 => [.token .regex]
  | 19 => [.token (.char '!'), .token .regex]
  | 20 => []
  | 21 => [.nonTerm .regex]
  | 22 => [.nonTerm .literal]
  | 23 => [.nonTerm .functionName]
  | 24 => [.nonTerm .word]
  | 25 => [.nonTerm .sequence]
  | 26 => [.nonTerm .group]
  | 27 => [.nonTerm .union]
  | 28 => [.nonTerm .difference]
  | 29 => [.nonTerm .intersection]
  | 30 => [.nonTerm .braceexpand]
  | 31 => [.nonTerm .keyexpand]
  | 32 => [.nonTerm .expand]
  | 33 => [.nonTerm .admin]
  | 34 => [.nonTerm .getCluster]
  | 35 => [.nonTerm .function]
  | 36 => [.nonTerm .null]
  | 37 => [.nonTerm .expr]
  | _ => [.nonTerm .start]

/-- The state after a symbol. -/
def target (state : Nat) (symbol : Symbol) : Option Nat :=
  (stateTable state).elements.lookup symbol

/-- The symbol before every state but the first. -/
def symbolBefore (state : Nat) : Option Symbol :=
  ((stateTables.flatMap StateTable.elements).find? fun element => element.2 = state).map Prod.fst

/-- One state can stand above another. -/
def Above (state below : Nat) : Prop :=
  ∃ element ∈ (stateTable below).elements, element.2 = state

instance (state below : Nat) : Decidable (Above state below) :=
  inferInstanceAs (Decidable (∃ element ∈ (stateTable below).elements, element.2 = state))

/-- What the value of a symbol is known to be. -/
def Typed : Symbol → ASTNode → Prop
  | .token _, value => value = emptyValue
  | .nonTerm .word, value => ∃ w, value = .word w
  | .nonTerm .functionName, value => ∃ w, value = .word w
  | .nonTerm .functionArguments, value => ∃ args, value = .functionArguments args
  | _, _ => True

/-- An entry stands for a symbol. -/
def Entry.Holds (symbol : Symbol) (entry : Entry) : Prop :=
  symbolBefore entry.state = some symbol ∧ Typed symbol entry.value

inductive ValidStack : List Entry → Prop
  | bottom {value : ASTNode} : ValidStack [⟨0, value⟩]
  | push {entry below : Entry} {rest : List Entry} {symbol : Symbol}
      (others : ValidStack (below :: rest)) (above : target below.state symbol = some entry.state)
      (later : entry.state ≠ 0) (typed : Typed symbol entry.value) :
      ValidStack (entry :: below :: rest)

/-- Every stack that ends in a state has some symbols on it, and below them a
state that goes on with a symbol. -/
def popsTo (nonTerm : NonTerm) : List Symbol → Nat → Bool
  | [], state => (target state (.nonTerm nonTerm)).any (· ≠ 0)
  | symbol :: others, state =>
      state ≠ 0 && symbolBefore state = some symbol &&
        (List.range 55).all fun below => !decide (Above state below) || popsTo nonTerm others below

/-- The tables: a state is entered with one symbol, it reduces only what is on
every stack, and one that asks for no token reduces. -/
theorem popsTo_table :
    (∀ below < 55, ∀ element ∈ (stateTable below).elements,
        element.2 < 55 ∧ (element.2 = 0 ∨ symbolBefore element.2 = some element.1)) ∧
      (∀ state < 55, ∀ number ∈ (stateTable state).reduction,
        popsTo (production number).nonTerm (rightSide number).reverse state ∧
          (rightSide number).length = (production number).size ∧
            (number ∈ List.range' 1 15 ∨
              (production number).nonTerm ∉ [.word, .functionName, .functionArguments]))
        ∧
      ∀ state < 55, (stateTable state).reqToken ∨
        (stateTable state).elements = [] ∧ (stateTable state).reduction.isSome := by
  decide +kernel

theorem mem_of_target {symbol : Symbol} {below : Nat} (goes : target below symbol = some state) :
    (symbol, state) ∈ (stateTable below).elements := by
  obtain ⟨before, after, isElements, -⟩ := List.lookup_eq_some_iff.mp goes
  rw [isElements]
  exact List.mem_append_right _ List.mem_cons_self

theorem stateTable_beyond (beyond : 55 ≤ state) : stateTable state = ⟨true, [], none⟩ := by
  unfold stateTable
  rw [List.getD_eq_getElem?_getD, List.getElem?_eq_none beyond]
  rfl

example : stateTable 55 = ⟨true, [], none⟩ := by decide +kernel

theorem lt_of_mem_elements {element : Symbol × Nat} {below : Nat}
    (member : element ∈ (stateTable below).elements) : below < 55 := by
  by_contra beyond
  rw [stateTable_beyond (Nat.le_of_not_lt beyond)] at member
  cases member

theorem symbolBefore_eq {symbol : Symbol} {below : Nat} (goes : target below symbol = some state)
    (later : state ≠ 0) : symbolBefore state = some symbol := by
  have member := mem_of_target goes
  rcases (popsTo_table.1 below (lt_of_mem_elements member) _ member).2 with first | before
  · exact absurd first later
  · exact before

theorem ValidStack.exists_cons (valid : ValidStack stack) : ∃ entry rest, stack = entry :: rest := by
  cases valid with
  | bottom => exact ⟨_, [], rfl⟩
  | push => exact ⟨_, _, rfl⟩

/-- The entries for some symbols can be popped off a stack. -/
theorem ValidStack.pop (valid : ValidStack stack) {symbols : List Symbol}
    (pops : popsTo nonTerm symbols (top stack)) :
    ∃ popped below rest, stack = popped ++ below :: rest ∧ ValidStack (below :: rest) ∧
      List.Forall₂ Entry.Holds symbols popped ∧
        ∃ state, state ≠ 0 ∧ target below.state (.nonTerm nonTerm) = some state := by
  induction symbols generalizing stack with
  | nil =>
      obtain ⟨below, rest, rfl⟩ := valid.exists_cons
      obtain ⟨state, goes, later⟩ := (Option.any_eq_true _ _).mp pops
      exact ⟨[], below, rest, rfl, valid, .nil, state, of_decide_eq_true later, goes⟩
  | cons symbol symbols ih =>
      rw [popsTo, Bool.and_eq_true, Bool.and_eq_true, List.all_eq_true] at pops
      obtain ⟨⟨notFirst, before⟩, all⟩ := pops
      cases valid with
      | bottom => exact absurd rfl (of_decide_eq_true notFirst)
      | @push entry below rest other others above later typed =>
          have isSymbol := symbolBefore_eq above later
          have same : other = symbol :=
            Option.some.inj (isSymbol.symm.trans (of_decide_eq_true before))
          subst same
          have member := mem_of_target above
          have onward := all below.state (List.mem_range.mpr (lt_of_mem_elements member))
          have isAbove : Above (top (entry :: below :: rest)) below.state := ⟨_, member, rfl⟩
          rw [decide_eq_true isAbove] at onward
          obtain ⟨popped, last, after, isStack, validRest, types, goes⟩ := ih others onward
          refine ⟨entry :: popped, last, after, ?_, validRest, .cons ⟨isSymbol, typed⟩ types, goes⟩
          rw [isStack]
          rfl

theorem reduction_lt (reduces : number ∈ (stateTable state).reduction) : state < 55 := by
  by_contra beyond
  rw [stateTable_beyond (Nat.le_of_not_lt beyond)] at reduces
  cases reduces

theorem semanticValue_arguments {vsp : Nat → ASTNode} {args : List ASTNode}
    (isArgs : vsp 2 = .functionArguments args) (matched : List Char) (val : ASTNode) :
    semanticValue function matched vsp val 12 = some (.functionArguments (args ++ [vsp 0])) := by
  unfold semanticValue
  rw [isArgs]
  rfl

theorem semanticValue_call {vsp : Nat → ASTNode} {args : List ASTNode} {w : String}
    (isWord : vsp 3 = .word w) (isArgs : vsp 1 = .functionArguments args) (matched : List Char)
    (val : ASTNode) :
    semanticValue function matched vsp val 14 = some (.function (function w) args) := by
  unfold semanticValue
  rw [isWord, isArgs]
  rfl

/-- Where the symbols of a production are popped, its action gives a value. -/
theorem exists_semanticValue (reduces : number ∈ (stateTable state).reduction)
    {popped : List Entry} (types : List.Forall₂ Entry.Holds (rightSide number).reverse popped)
    (rest : List Entry) (matched : List Char) (val : ASTNode) :
    ∃ value, semanticValue function matched (valueAt (popped ++ rest)) val number = some value ∧
      Typed (.nonTerm (production number).nonTerm) value := by
  have untyped : number ∉ List.range' 1 15 →
      ∀ value, Typed (.nonTerm (production number).nonTerm) value := by
    intro large value
    rcases (popsTo_table.2.1 state (reduction_lt reduces) number reduces).2.2 with small | others
    · exact absurd small large
    · generalize (production number).nonTerm = nonTerm at others
      cases nonTerm with
      | word | functionName | functionArguments => exact absurd (by decide) others
      | _ => trivial
  by_cases arguments : number = 12
  · subst arguments
    obtain _ | ⟨_, _ | ⟨_, _ | ⟨⟨-, args, isArgs⟩, _⟩⟩⟩ := types
    exact ⟨_, semanticValue_arguments isArgs matched val, _, rfl⟩
  by_cases call : number = 14
  · subst call
    obtain _ | ⟨_, _ | ⟨⟨-, args, isArgs⟩, _ | ⟨_, _ | ⟨⟨-, w, isWord⟩, _⟩⟩⟩⟩ := types
    exact ⟨_, semanticValue_call isWord isArgs matched val, trivial⟩
  unfold semanticValue
  split
  case h_12 => exact absurd rfl arguments
  case h_14 => exact absurd rfl call
  case h_20 =>
    refine ⟨_, rfl, ?_⟩
    by_cases small : number ∈ List.range' 1 15
    · rw [List.mem_range'_1] at small
      grind
    · exact untyped small _
  all_goals first
    | exact ⟨_, rfl, trivial⟩
    | exact ⟨_, rfl, _, rfl⟩

/-! ## What a turn can do -/

theorem lookup_of_target {symbol : Symbol} {below : Nat} (goes : target below symbol = some state)
    (later : state ≠ 0) : lookup below (some symbol) = .shift state := by
  obtain ⟨before, rfl⟩ := Nat.exists_eq_succ_of_ne_zero later
  unfold target at goes
  unfold lookup
  rw [Option.bind_some, goes]
  rfl

theorem lookup_of_zero {symbol : Symbol} {below : Nat} (goes : target below symbol = some 0) :
    lookup below (some symbol) = .accept := by
  unfold target at goes
  unfold lookup
  rw [Option.bind_some, goes]
  rfl

theorem lookup_of_reduction {token : Option Symbol}
    (unmatched : ∀ symbol ∈ token, target state symbol = none)
    (reduces : number ∈ (stateTable state).reduction) : lookup state token = .reduce number := by
  have unbound : (token.bind fun symbol => (stateTable state).elements.lookup symbol) = none :=
    Option.bind_eq_none_iff.mpr unmatched
  unfold lookup
  rw [unbound, Option.mem_def.mp reduces]

theorem lookup_of_unexpected {symbol : Symbol} (unmatched : target state symbol = none)
    (stuck : (stateTable state).reduction = none) : lookup state (some symbol) = .unexpected := by
  unfold target at unmatched
  unfold lookup
  rw [Option.bind_some, unmatched, stuck]

/-- A parser between two rounds. -/
inductive Form where
  | config (stack : List Entry) (unread : Option (List Char)) (tokens : List Token)
      (ast : ASTNode)
  | reduced (stack : List Entry) (nonTerm : NonTerm) (value : ASTNode)
      (unread : Option (List Char)) (tokens : List Token) (ast : ASTNode)

namespace Form

def parser : Form → Parser
  | .config stack unread tokens ast => RangeParser.config stack unread tokens ast
  | .reduced stack nonTerm value unread tokens ast =>
      RangeParser.reduced stack nonTerm value unread tokens ast

/-- The forms that the rounds of `parse` lead to. -/
def Valid : Form → Prop
  | .config stack _ _ _ => ValidStack stack
  | .reduced stack nonTerm value _ _ _ => ValidStack stack ∧ Typed (.nonTerm nonTerm) value ∧
      ∃ state, state ≠ 0 ∧ target (top stack) (.nonTerm nonTerm) = some state

end Form

/-- Whether the next token has been read when the parser acts. -/
inductive Looks (stack : List Entry) : Option (List Char) → Option (List Char) → Prop
  | already : Looks stack none none
  | reads {matched : List Char} (asks : Asks stack) : Looks stack (some matched) none
  | quiet {matched : List Char} (silent : ¬ Asks stack) : Looks stack (some matched) (some matched)

/-- The turns from one form to another. -/
inductive FormTurn (function : String → RangeFunction) : Form → Form → Prop
  | shift {stack : List Entry} {unread : Option (List Char)} {tokens : List Token} {ast : ASTNode}
      {state : Nat} (looks : Looks stack unread none)
      (goes : target (top stack) (ahead tokens) = some state) (later : state ≠ 0) :
      FormTurn function (.config stack unread tokens ast)
        (.config (⟨state, emptyValue⟩ :: stack) (some (aheadText tokens)) tokens.tail ast)
  | reduce {popped rest : List Entry} {below : Entry} {unread after : Option (List Char)}
      {tokens : List Token} {ast value : ASTNode} {number state : Nat}
      (looks : Looks (popped ++ below :: rest) unread after)
      (unmatched : after = none → target (top (popped ++ below :: rest)) (ahead tokens) = none)
      (reduces : number ∈ (stateTable (top (popped ++ below :: rest))).reduction)
      (types : List.Forall₂ Entry.Holds (rightSide number).reverse popped)
      (isValue : semanticValue function (after.getD (aheadText tokens))
        (valueAt (popped ++ below :: rest)) (defaultValue (popped ++ below :: rest) number) number =
          some value)
      (typed : Typed (.nonTerm (production number).nonTerm) value)
      (goes : target below.state (.nonTerm (production number).nonTerm) = some state)
      (later : state ≠ 0) :
      FormTurn function (.config (popped ++ below :: rest) unread tokens ast)
        (.reduced (below :: rest) (production number).nonTerm value after tokens
          (treeAfter (popped ++ below :: rest) number ast))
  | goto {stack : List Entry} {nonTerm : NonTerm} {value : ASTNode}
      {unread : Option (List Char)} {tokens : List Token} {ast : ASTNode} {state : Nat}
      (goes : target (top stack) (.nonTerm nonTerm) = some state) (later : state ≠ 0) :
      FormTurn function (.reduced stack nonTerm value unread tokens ast)
        (.config (⟨state, value⟩ :: stack) unread tokens ast)

/-- The turns that return. -/
inductive LastTurn : Form → Outcome → Prop
  | accept {stack : List Entry} {unread : Option (List Char)} {tokens : List Token} {ast : ASTNode}
      (looks : Looks stack unread none) (goes : target (top stack) (ahead tokens) = some 0) :
      LastTurn (.config stack unread tokens ast) (.accept ast)
  | unexpected {stack : List Entry} {unread : Option (List Char)} {tokens : List Token}
      {ast : ASTNode} (looks : Looks stack unread none)
      (unmatched : target (top stack) (ahead tokens) = none)
      (stuck : (stateTable (top stack)).reduction = none) :
      LastTurn (.config stack unread tokens ast) .abort

/-- Reading the next token first does not change the step. -/
theorem Looks.step_eq {after : Option (List Char)} (looks : Looks stack unread after) :
    (config stack unread tokens ast).step function = (config stack after tokens ast).step function := by
  cases looks with
  | already => rfl
  | reads asks => exact step_load asks
  | quiet => rfl

theorem length_popped (reduces : number ∈ (stateTable state).reduction) {popped : List Entry}
    (types : List.Forall₂ Entry.Holds (rightSide number).reverse popped) :
    popped.length = (production number).size := by
  have length := (popsTo_table.2.1 _ (reduction_lt reduces) number reduces).2.1
  rw [← types.length_eq, List.length_reverse, length]

theorem FormTurn.step_eq {form next : Form} (turn : FormTurn function form next) :
    form.parser.step function = .next next.parser := by
  cases turn with
  | shift looks goes later =>
      exact looks.step_eq.trans (step_shift (lookup_of_target goes later))
  | goto goes later => exact step_goto (lookup_of_target goes later)
  | @reduce popped rest below unread after tokens ast value number state looks unmatched reduces
      types isValue typed goes later =>
      have size := length_popped reduces types
      have deep : (production number).size ≤ (popped ++ below :: rest).length - 1 := by
        rw [← size, List.length_append, List.length_cons]
        omega
      have dropped : (popped ++ below :: rest).drop (production number).size = below :: rest := by
        rw [← size, List.drop_left]
      refine looks.step_eq.trans ?_
      cases after with
      | none =>
          have action : lookup (top (popped ++ below :: rest)) (some (ahead tokens)) =
              .reduce number := by
            refine lookup_of_reduction ?_ reduces
            rintro symbol ⟨⟩
            exact unmatched rfl
          rw [step_reduceAhead action isValue deep, dropped]
          rfl
      | some matched =>
          cases looks with
          | quiet silent =>
              have action : lookup (top (popped ++ below :: rest)) none = .reduce number :=
                lookup_of_reduction nofun reduces
              rw [Option.getD_some] at isValue
              rw [step_reduce silent action isValue deep, dropped]
              rfl

theorem LastTurn.step_eq {form : Form} {outcome : Outcome} (last : LastTurn form outcome) :
    form.parser.step function = .done outcome := by
  cases last with
  | accept looks goes => exact looks.step_eq.trans (step_accept (lookup_of_zero goes))
  | unexpected looks unmatched stuck =>
      exact looks.step_eq.trans (step_unexpected (lookup_of_unexpected unmatched stuck))

/-- A reduction pops the symbols of its production off a stack. -/
theorem exists_reduce {after : Option (List Char)} (valid : ValidStack stack)
    (looks : Looks stack unread after)
    (unmatched : after = none → target (top stack) (ahead tokens) = none)
    (reduces : number ∈ (stateTable (top stack)).reduction) :
    ∃ value, FormTurn function (.config stack unread tokens ast)
      (.reduced (stack.drop (production number).size) (production number).nonTerm value after tokens
        (treeAfter stack number ast)) := by
  have pops := (popsTo_table.2.1 _ (reduction_lt reduces) number reduces).1
  obtain ⟨popped, below, rest, rfl, -, types, state, later, goes⟩ := valid.pop pops
  obtain ⟨value, isValue, typed⟩ := @exists_semanticValue function _ number reduces popped types
    (below :: rest) (after.getD (aheadText tokens)) (defaultValue (popped ++ below :: rest) number)
  refine ⟨value, ?_⟩
  rw [← length_popped reduces types, List.drop_left]
  exact .reduce looks unmatched reduces types isValue typed goes later

theorem ValidStack.top_lt (valid : ValidStack stack) : top stack < 55 := by
  cases valid with
  | bottom => exact Nat.zero_lt_succ 54
  | push others above =>
      have member := mem_of_target above
      exact (popsTo_table.1 _ (lt_of_mem_elements member) _ member).1

/-- A valid form has a turn. -/
theorem Form.Valid.exists_turn (function : String → RangeFunction) {form : Form}
    (valid : form.Valid) : (∃ next, FormTurn function form next) ∨ ∃ outcome, LastTurn form outcome := by
  cases form with
  | reduced stack nonTerm value unread tokens ast =>
      obtain ⟨-, -, state, later, goes⟩ := valid
      exact Or.inl ⟨_, .goto goes later⟩
  | config stack unread tokens ast =>
      have looking (looks : Looks stack unread none) :
          (∃ next, FormTurn function (.config stack unread tokens ast) next) ∨
            ∃ outcome, LastTurn (.config stack unread tokens ast) outcome := by
        cases goes : target (top stack) (ahead tokens) with
        | none =>
            cases reduces : (stateTable (top stack)).reduction with
            | none => exact Or.inr ⟨_, .unexpected looks goes reduces⟩
            | some number =>
                obtain ⟨value, turn⟩ := exists_reduce valid looks (fun _ => goes) reduces
                exact Or.inl ⟨_, turn⟩
        | some state =>
            by_cases first : state = 0
            · subst first
              exact Or.inr ⟨_, .accept looks goes⟩
            · exact Or.inl ⟨_, .shift looks goes first⟩
      cases unread with
      | none => exact looking .already
      | some matched =>
          by_cases asks : Asks stack
          · exact looking (.reads asks)
          · rcases popsTo_table.2.2 _ (ValidStack.top_lt valid) with also | ⟨-, some⟩
            · exact absurd also asks
            · obtain ⟨number, reduces⟩ := Option.isSome_iff_exists.mp some
              obtain ⟨value, turn⟩ := exists_reduce valid (.quiet asks) nofun reduces
              exact Or.inl ⟨_, turn⟩

/-! ## The end -/

theorem ValidStack.of_append {popped : List Entry} {below : Entry} {rest : List Entry}
    (valid : ValidStack (popped ++ below :: rest)) : ValidStack (below :: rest) := by
  induction popped with
  | nil => exact valid
  | cons entry popped ih =>
      rw [List.cons_append] at valid
      generalize isOthers : popped ++ below :: rest = others at valid ih
      cases valid with
      | bottom => exact absurd isOthers (by simp)
      | push valid => exact ih valid

/-- A state pushed on a valid stack. -/
theorem ValidStack.pushed {symbol : Symbol} (valid : ValidStack stack)
    (goes : target (top stack) symbol = some state) (later : state ≠ 0)
    (typed : Typed symbol value) : ValidStack (⟨state, value⟩ :: stack) := by
  obtain ⟨below, rest, rfl⟩ := valid.exists_cons
  exact .push valid goes later typed

theorem typed_ahead (tokens : List Token) : Typed (ahead tokens) emptyValue := by
  cases tokens with
  | nil => trivial
  | cons token tokens =>
      change Typed (symbolOf token) emptyValue
      unfold symbolOf
      split
      · split
        · rfl
        · trivial
      · rfl

theorem FormTurn.valid {form next : Form} (turn : FormTurn function form next)
    (valid : form.Valid) : next.Valid := by
  cases turn with
  | shift _ goes later => exact ValidStack.pushed valid goes later (typed_ahead _)
  | reduce _ _ _ _ _ typed goes later => exact ⟨ValidStack.of_append valid, typed, _, later, goes⟩
  | goto goes later =>
      obtain ⟨validStack, typed, -⟩ := valid
      exact validStack.pushed goes later typed

/-- The states before an expression. -/
def beforeStates : List Nat :=
  [0, 25, 26, 27, 28, 29, 30, 31, 32, 34, 50, 52]

/-- The states after an expression. -/
def afterStates : List Nat :=
  [2, 37, 38, 39, 40, 41, 42, 43, 44, 47, 53, 54]

/-- How many productions of one symbol can follow a state. -/
def stateRank (state : Nat) : Nat :=
  if state ∈ [19, 21, 22, 23, 24] then 6
  else if state ∈ List.range' 3 16 ++ [45, 48] then 4
  else if state ∈ afterStates then 2
  else 0

def symbolRank : Symbol → Nat
  | .nonTerm .start => 1
  | .nonTerm .functionArguments => 1
  | .nonTerm .expr => 3
  | .nonTerm _ => 5
  | _ => 6

theorem rank_table :
    (∀ below < 55, ∀ element ∈ (stateTable below).elements,
        (element.1 ≠ .eof ∨ element.2 = 0) ∧
          (symbolRank element.1 = 6 ∨
            stateRank element.2 < symbolRank element.1 ∧ element.2 ∉ beforeStates)) ∧
      ∀ state < 55, ∀ number ∈ (stateTable state).reduction,
        ((production number).size ≠ 0 ∨ state ∈ beforeStates) ∧
          ((production number).size ≠ 1 ∨
            symbolRank (.nonTerm (production number).nonTerm) < stateRank state) := by
  decide +kernel

theorem symbolRank_le (nonTerm : NonTerm) : symbolRank (.nonTerm nonTerm) ≤ 5 := by
  cases nonTerm <;> decide

theorem stateRank_le (state : Nat) : stateRank state ≤ 6 := by
  unfold stateRank
  split
  · omega
  · split
    · omega
    · split <;> omega

def Entry.weight (entry : Entry) : Nat :=
  10 + stateRank entry.state

/-- A turn shifts a token, or it reduces more entries to one, or it goes down
the ranks.  A state before an expression may have an empty one reduced. -/
def Form.measure : Form → Nat
  | .config stack _ tokens _ => 40 * tokens.length + (stack.map Entry.weight).sum +
      if top stack ∈ beforeStates then 16 else 0
  | .reduced stack nonTerm _ _ tokens _ => 40 * tokens.length + (stack.map Entry.weight).sum +
      (10 + symbolRank (.nonTerm nonTerm))

theorem goto_rank {below : Nat} (goes : target below (.nonTerm nonTerm) = some state) :
    stateRank state < symbolRank (.nonTerm nonTerm) ∧ state ∉ beforeStates := by
  have member := mem_of_target goes
  have rank := symbolRank_le nonTerm
  rcases (rank_table.1 below (lt_of_mem_elements member) _ member).2 with token | ranks
  · change symbolRank (.nonTerm nonTerm) = 6 at token
    omega
  · exact ranks

/-- The end of the text is never shifted. -/
theorem read_of_shift {symbol : Symbol} {below : Nat} (goes : target below symbol = some state)
    (later : state ≠ 0) : symbol ≠ .eof := by
  have member := mem_of_target goes
  rcases (rank_table.1 _ (lt_of_mem_elements member) _ member).1 with read | ends
  · exact read
  · exact absurd ends later

theorem exists_cons_of_shift (goes : target (top stack) (ahead tokens) = some state)
    (later : state ≠ 0) : ∃ token rest, tokens = token :: rest := by
  cases tokens with
  | nil => exact absurd rfl (read_of_shift goes later)
  | cons token rest => exact ⟨token, rest, rfl⟩

theorem FormTurn.measure_lt {form next : Form} (turn : FormTurn function form next) :
    next.measure < form.measure := by
  cases turn with
  | @shift stack unread tokens ast state looks goes later =>
      obtain ⟨token, rest, rfl⟩ := exists_cons_of_shift goes later
      have rank := stateRank_le state
      simp only [Form.measure, List.map_cons, List.sum_cons, List.length_cons, List.tail_cons,
        Entry.weight]
      split <;> split <;> omega
  | @reduce popped rest below unread after tokens ast value number state looks unmatched reduces
      types isValue typed goes later =>
      have lt := reduction_lt reduces
      have ranks := rank_table.2 _ lt number reduces
      have rank := symbolRank_le (production number).nonTerm
      rw [← length_popped reduces types] at ranks
      simp only [Form.measure, List.map_append, List.sum_append]
      match popped, ranks with
      | [], ranks =>
          rw [if_pos (ranks.1.resolve_left (absurd rfl)), List.map_nil, List.sum_nil]
          omega
      | [entry], ranks =>
          have less := ranks.2.resolve_left (absurd rfl)
          simp only [List.map_cons, List.map_nil, List.sum_cons, List.sum_nil, Entry.weight]
          change _ < stateRank entry.state at less
          omega
      | first :: second :: others, _ =>
          simp only [List.map_cons, List.sum_cons, Entry.weight]
          omega
  | @goto stack nonTerm value unread tokens ast state goes later =>
      obtain ⟨less, notBefore⟩ := goto_rank goes
      have outside : top (⟨state, value⟩ :: stack) ∉ beforeStates := notBefore
      simp only [Form.measure, List.map_cons, List.sum_cons, Entry.weight, if_neg outside]
      omega

/-- The parser before it has read anything. -/
def startForm (tokens : List Token) : Form :=
  .config [⟨0, emptyValue⟩] (some []) tokens emptyValue

/-- The parser returns within its bound, and no exception passes. -/
theorem exists_parse (function : String → RangeFunction) (tokens : List Token) :
    ∃ outcome, parse function tokens = some outcome ∧ outcome ≠ .thrown := by
  have start : (startForm tokens).Valid := .bottom
  have enough : (startForm tokens).measure < 40 * tokens.length + 27 := Nat.lt_succ_self _
  refine @exists_run _ _ (Parser.step function) Form Form.parser Form.Valid (· ≠ .thrown)
    Form.measure ?_ (startForm tokens) start _ enough
  intro form valid
  rcases valid.exists_turn function with ⟨next, turn⟩ | ⟨outcome, last⟩
  · exact Or.inl ⟨next, turn.step_eq, turn.valid valid, turn.measure_lt⟩
  · refine Or.inr ⟨outcome, last.step_eq, ?_⟩
    cases last <;> exact nofun

/-- The parser returns on every list of tokens. -/
theorem exists_parses (function : String → RangeFunction) (tokens : List Token) :
    ∃ outcome, Parses function tokens outcome ∧ outcome ≠ .thrown := by
  obtain ⟨outcome, parsed, passes⟩ := exists_parse function tokens
  exact ⟨outcome, ⟨_, parsed⟩, passes⟩

/-- What the turns keep, with what it gives where they return. -/
theorem Parses.keeps {keeps : Form → Prop} {gives : Outcome → Prop} {outcome : Outcome}
    (turns : ∀ form, keeps form → (∃ next, FormTurn function form next ∧ keeps next) ∨
      ∃ outcome, LastTurn form outcome ∧ gives outcome)
    (start : keeps (startForm tokens)) (returns : Parses function tokens outcome) :
    gives outcome := by
  have steps (form : Form) (kept : keeps form) :
      (∃ next : Form, form.parser.step function = .next next.parser ∧ keeps next) ∨
      ∃ outcome, form.parser.step function = .done outcome ∧ gives outcome := by
    rcases turns form kept with ⟨next, turn, kept⟩ | ⟨outcome, last, given⟩
    · exact Or.inl ⟨next, turn.step_eq, kept⟩
    · exact Or.inr ⟨outcome, last.step_eq, given⟩
  exact Returns.keeps steps start returns

/-- Two parsers whose forms keep to a relation, turn by turn. -/
theorem Parses.lockstep {related : Form → Form → Prop} {alike : Outcome → Outcome → Prop}
    {others : List Token} {outcome : Outcome}
    (turns : ∀ form other, related form other →
      (∃ next after, FormTurn function form next ∧ FormTurn function other after ∧
        related next after) ∨
      ∃ outcome another, LastTurn form outcome ∧ LastTurn other another ∧ alike outcome another)
    (start : related (startForm tokens) (startForm others))
    (returns : Parses function tokens outcome) :
    ∃ another, Parses function others another ∧ alike outcome another := by
  have steps (form other : Form) (kept : related form other) :
      (∃ next after : Form, form.parser.step function = .next next.parser ∧
        other.parser.step function = .next after.parser ∧ related next after) ∨
      ∃ outcome another, form.parser.step function = .done outcome ∧
        other.parser.step function = .done another ∧ alike outcome another := by
    rcases turns form other kept with ⟨next, after, turn, also, kept⟩ |
      ⟨outcome, another, last, also, same⟩
    · exact Or.inl ⟨next, after, turn.step_eq, also.step_eq, kept⟩
    · exact Or.inr ⟨outcome, another, last.step_eq, also.step_eq, same⟩
  exact Returns.lockstep steps start returns

/-- The bound is large enough. -/
theorem parse_eq_some_iff {outcome : Outcome} :
    parse function tokens = some outcome ↔ Parses function tokens outcome := by
  constructor
  · exact fun parsed => ⟨_, parsed⟩
  · intro returns
    obtain ⟨other, parsed, -⟩ := exists_parse function tokens
    rw [parsed, Returns.unique returns ⟨_, parsed⟩]

end RangeParser

end Rangexx
