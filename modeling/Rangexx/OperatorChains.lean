import Mathlib.Tactic.IntervalCases
import Rangexx.ParserTurns

/-!
# Chains of operators

Operands with prefixes and keys, joined by `,`, `-` and `&`, are parsed from
left to right: a prefix takes the operand it stands before, and a key belongs
to that operand before any prefix does.
-/

namespace Rangexx

namespace RangeParser

open RangeScanner ReturningRun

/-! ## Chains -/

inductive PrefixSign where
  | expand
  | getCluster
  | admin
  deriving DecidableEq, Repr

namespace PrefixSign

def char : PrefixSign → Char
  | .expand => '%'
  | .getCluster => '*'
  | .admin => '^'

def tree : PrefixSign → ASTNode → ASTNode
  | .expand => .expand
  | .getCluster => .getCluster
  | .admin => .admin

/-- The state after the sign. -/
def state : PrefixSign → Nat
  | .expand => 26
  | .getCluster => 28
  | .admin => 27

/-- The production of the sign. -/
def number : PrefixSign → Nat
  | .expand => 6
  | .getCluster => 7
  | .admin => 8

end PrefixSign

inductive InfixSign where
  | union
  | difference
  | intersection
  deriving DecidableEq, Repr

namespace InfixSign

def char : InfixSign → Char
  | .union => ','
  | .difference => '-'
  | .intersection => '&'

def tree : InfixSign → ASTNode → ASTNode → ASTNode
  | .union => .union
  | .difference => .difference
  | .intersection => .intersection

/-- The state after the sign. -/
def state : InfixSign → Nat
  | .union => 29
  | .difference => 30
  | .intersection => 31

/-- The production of the sign. -/
def number : InfixSign → Nat
  | .union => 2
  | .difference => 3
  | .intersection => 4

end InfixSign

mutual

/-- A word, or a chain in parentheses.  The texts of signs are whatever the
scanner has matched. -/
inductive Atom where
  | word (text : List Char)
  | group (opening : List Char) (chain : Chain) (closing : List Char)

/-- An atom with the signs before it and, after it, the keys with their colons. -/
inductive Operand where
  | mk (signs : List (PrefixSign × List Char)) (atom : Atom)
      (keys : List (List Char × List Char))

/-- Operands with signs between them. -/
inductive Chain where
  | single (operand : Operand)
  | joined (left : Chain) (sign : InfixSign) (text : List Char) (operand : Operand)

end

def signToken (sign : PrefixSign × List Char) : Token :=
  ⟨.char sign.1.char, sign.2⟩

def keyTokens (key : List Char × List Char) : List Token :=
  [⟨.char ':', key.1⟩, ⟨.bareword, key.2⟩]

mutual

def Atom.tokens : Atom → List Token
  | .word text => [⟨.bareword, text⟩]
  | .group opening chain closing =>
      ⟨.char '(', opening⟩ :: (chain.tokens ++ [⟨.char ')', closing⟩])

def Operand.tokens : Operand → List Token
  | .mk signs atom keys => signs.map signToken ++ (atom.tokens ++ keys.flatMap keyTokens)

def Chain.tokens : Chain → List Token
  | .single operand => operand.tokens
  | .joined left sign text operand => left.tokens ++ ⟨.char sign.char, text⟩ :: operand.tokens

end

/-- A tree under its keys. -/
def keyTree (tree : ASTNode) (keys : List (List Char × List Char)) : ASTNode :=
  keys.foldl (fun tree key => .keyExpand tree (.word (String.ofList key.2))) tree

/-- A tree under its signs, of which the first comes last. -/
def signTree (signs : List (PrefixSign × List Char)) (tree : ASTNode) : ASTNode :=
  signs.foldr (fun sign tree => sign.1.tree tree) tree

mutual

def Atom.tree : Atom → ASTNode
  | .word text => .word (String.ofList text)
  | .group _ chain _ => .group chain.tree

/-- The keys are the operand's own, and the signs apply to nothing else. -/
def Operand.tree : Operand → ASTNode
  | .mk signs atom keys => signTree signs (keyTree atom.tree keys)

/-- The tree of a chain is nested to the left. -/
def Chain.tree : Chain → ASTNode
  | .single operand => operand.tree
  | .joined left sign _ operand => sign.tree left.tree operand.tree

end

/-! ## Parsers that return the same -/

variable (function : String → RangeFunction)

/-- Two parsers return the same. -/
def Meets (first second : Parser) : Prop :=
  ∀ outcome, Returns (Parser.step function) first outcome ↔
    Returns (Parser.step function) second outcome

variable {function} {stack : List Entry} {below : Entry} {unread : Option (List Char)}
  {tokens rest : List Token} {ast value : ASTNode} {nonTerm : NonTerm} {state number : Nat}

theorem Meets.trans {first second third : Parser} (one : Meets function first second)
    (two : Meets function second third) : Meets function first third :=
  fun outcome => (one outcome).trans (two outcome)

theorem meets_next {first second : Parser} (turn : first.step function = .next second) :
    Meets function first second :=
  fun _ => returns_next turn

theorem meets_load (asks : Asks stack) :
    Meets function (config stack unread tokens ast) (config stack none tokens ast) := by
  intro outcome
  cases unread with
  | none => rfl
  | some matched => exact returns_congr (step_load asks)

/-- The token in front is shifted. -/
theorem meets_shift (asks : Asks stack)
    (goes : target (top stack) (ahead tokens) = some state) (later : state ≠ 0) :
    Meets function (config stack unread tokens ast)
      (config (⟨state, emptyValue⟩ :: stack) (some (aheadText tokens)) tokens.tail ast) :=
  (meets_load asks).trans (meets_next (step_shift (lookup_of_target goes later)))

theorem meets_goto (goes : target below.state (.nonTerm nonTerm) = some state)
    (later : state ≠ 0) :
    Meets function (reduced (below :: stack) nonTerm value unread tokens ast)
      (config (⟨state, value⟩ :: below :: stack) unread tokens ast) := by
  have action : lookup (top (below :: stack)) (some (.nonTerm nonTerm)) = .shift state :=
    lookup_of_target goes later
  exact meets_next (step_goto action)

/-- A state reduces its production before a symbol that it has no element for. -/
theorem meets_reduceAhead (asks : Asks stack)
    (unmatched : target (top stack) (ahead tokens) = none)
    (reduces : number ∈ (stateTable (top stack)).reduction)
    (isValue : semanticValue function (aheadText tokens) (valueAt stack)
      (defaultValue stack number) number = some value)
    (deep : (production number).size ≤ stack.length - 1) :
    Meets function (config stack unread tokens ast)
      (reduced (stack.drop (production number).size) (production number).nonTerm value none tokens
        (treeAfter stack number ast)) := by
  have action : lookup (top stack) (some (ahead tokens)) = .reduce number := by
    refine lookup_of_reduction ?_ reduces
    rintro symbol ⟨⟩
    exact unmatched
  exact (meets_load asks).trans (meets_next (step_reduceAhead action isValue deep))

/-- A state that has nothing but its reduction takes it at once. -/
theorem meets_reduce (table : stateTable (top stack) = reduces number)
    (isValue : semanticValue function (unread.getD (aheadText tokens)) (valueAt stack)
      (defaultValue stack number) number = some value)
    (deep : (production number).size ≤ stack.length - 1) :
    Meets function (config stack unread tokens ast)
      (reduced (stack.drop (production number).size) (production number).nonTerm value unread tokens
        (treeAfter stack number ast)) := by
  have quiet : ¬ Asks stack := by
    unfold Asks
    rw [table]
    exact Bool.false_ne_true
  have unmatched (symbol : Symbol) : target (top stack) symbol = none := by
    unfold target
    rw [table]
    rfl
  have isReduction : number ∈ (stateTable (top stack)).reduction := by
    rw [table]
    rfl
  cases unread with
  | none =>
      exact meets_next (step_reduceAhead (lookup_of_reduction (fun symbol _ => unmatched symbol)
        isReduction) isValue deep)
  | some matched =>
      exact meets_next (step_reduce quiet (lookup_of_reduction nofun isReduction) isValue deep)

/-! ## The tables -/

/-- The state after an expression that begins in some state. -/
def afterState (state : Nat) : Nat :=
  (target state (.nonTerm .expr)).getD 0

/-- The symbols that become an expression at once. -/
def exprForms : List NonTerm :=
  [.regex, .literal, .sequence, .group, .union, .difference, .intersection, .braceexpand,
    .keyexpand, .expand, .admin, .getCluster, .function, .null]

/-- The states before an expression that a key can follow. -/
def keyStates : List Nat :=
  [0, 25, 26, 27, 28, 29, 30, 31, 32, 34, 52]

/-- The states before an expression that other expressions can be joined to. -/
def chainStates : List Nat :=
  [0, 25, 32, 34, 52]

theorem chain_table :
    (∀ state ∈ beforeStates, (stateTable state).reqToken ∧
        target state (.token .bareword) = some 24 ∧ target state (.token (.char '(')) = some 25 ∧
        target state (.token (.char '%')) = some 26 ∧
        target state (.token (.char '^')) = some 27 ∧
        target state (.token (.char '*')) = some 28 ∧ target state (.nonTerm .word) = some 6 ∧
        target state (.nonTerm .expr) = some (afterState state) ∧ afterState state ≠ 0 ∧
        (stateTable (afterState state)).reqToken) ∧
      (∀ state ∈ beforeStates, ∀ nonTerm ∈ exprForms, ∃ next ∈ List.range' 3 16,
        target state (.nonTerm nonTerm) = some next ∧
          ∃ number ∈ List.range' 21 16, stateTable next = reduces number) ∧
      (∀ state ∈ keyStates, state ∈ beforeStates ∧
        target (afterState state) (.token (.char ':')) = some 33) ∧
      ∀ state ∈ chainStates, state ∈ keyStates ∧
        target (afterState state) (.token (.char ',')) = some 29 ∧
        target (afterState state) (.token (.char '-')) = some 30 ∧
        target (afterState state) (.token (.char '&')) = some 31 := by
  decide +kernel

/-- The productions of an expression keep the value. -/
theorem semanticValue_expr (unit : number ∈ List.range' 21 16) (matched : List Char)
    (vsp : Nat → ASTNode) (val : ASTNode) :
    semanticValue function matched vsp val number = some val ∧
      production number = ⟨.expr, 1⟩ ∧ number ≠ 37 := by
  rw [List.mem_range'_1] at unit
  obtain ⟨least, most⟩ := unit
  interval_cases number <;> exact ⟨rfl, rfl, by decide⟩

/-- An expression of any form is one. -/
theorem meets_expr (before : below.state ∈ beforeStates) (form : nonTerm ∈ exprForms) :
    Meets function (reduced (below :: stack) nonTerm value unread tokens ast)
      (config (⟨afterState below.state, value⟩ :: below :: stack) unread tokens ast) := by
  obtain ⟨next, inRange, goes, number, unit, table⟩ := chain_table.2.1 _ before _ form
  obtain ⟨isValue, isProduction, other⟩ := @semanticValue_expr function number unit
    (unread.getD (aheadText tokens)) (valueAt (⟨next, value⟩ :: below :: stack)) value
  have later : next ≠ 0 := by
    rw [List.mem_range'_1] at inRange
    omega
  have isDefault : defaultValue (⟨next, value⟩ :: below :: stack) number = value := by
    unfold defaultValue
    rw [isProduction]
    rfl
  have same : treeAfter (⟨next, value⟩ :: below :: stack) number ast = ast := if_neg other
  have reduction := @meets_reduce function (⟨next, value⟩ :: below :: stack) unread tokens ast value
    number table (by rw [isDefault]; exact isValue)
    (by rw [isProduction]; exact Nat.succ_le_succ (Nat.zero_le _))
  rw [isProduction, same] at reduction
  obtain ⟨-, -, -, -, -, -, -, toExpr, notZero, -⟩ := chain_table.1 _ before
  exact ((meets_goto goes later).trans reduction).trans (meets_goto toExpr notZero)

/-! ## What the parser makes of a chain -/

/-- What would go on with a word. -/
def wordGoesOn : List Symbol :=
  [.token .sequence]

/-- What would go on with a word or take the expression after a sign. -/
def operandGoesOn : List Symbol :=
  [.token .sequence, .token (.char '{'), .token (.char ':')]

/-- From each of some states, and before anything but some symbols, the parser
makes a tree of some tokens. -/
def Reads (function : String → RangeFunction) (states : List Nat) (goesOn : List Symbol)
    (tokens : List Token) (tree : ASTNode) : Prop :=
  ∀ (below : Entry) (stack : List Entry) (unread : Option (List Char)) (rest : List Token)
      (ast : ASTNode), below.state ∈ states → ahead rest ∉ goesOn →
    Meets function (config (below :: stack) unread (tokens ++ rest) ast)
      (config (⟨afterState below.state, tree⟩ :: below :: stack) none rest ast)

theorem target_eq_none {symbol : Symbol}
    (other : symbol ∉ (stateTable state).elements.map Prod.fst) : target state symbol = none := by
  unfold target
  rw [List.lookup_eq_none_iff]
  intro element member
  rw [bne_iff_ne]
  rintro rfl
  exact other (List.mem_map_of_mem member)

theorem reads_word (text : List Char) :
    Reads function beforeStates wordGoesOn [⟨.bareword, text⟩] (.word (String.ofList text)) := by
  intro below stack unread rest ast before other
  obtain ⟨asks, shifts, -, -, -, -, toWord, toExpr, notZero, -⟩ := chain_table.1 _ before
  have shift := @meets_shift function (below :: stack) unread (⟨.bareword, text⟩ :: rest) ast 24 asks
    shifts (by decide)
  have reduction := @meets_reduce function (⟨24, emptyValue⟩ :: below :: stack) (some text) rest ast
    (.word (String.ofList text)) 15 rfl rfl (Nat.succ_le_succ (Nat.zero_le _))
  have goto := @meets_goto function stack below (some text) rest ast (.word (String.ofList text))
    .word 6 toWord (by decide)
  have unmatched : target 6 (ahead rest) = none := by
    apply target_eq_none
    exact other
  have becomes := @meets_reduceAhead function (⟨6, .word (String.ofList text)⟩ :: below :: stack)
    (some text) rest ast (.word (String.ofList text)) 24 rfl unmatched rfl rfl
    (Nat.succ_le_succ (Nat.zero_le _))
  exact (((shift.trans reduction).trans goto).trans becomes).trans (meets_goto toExpr notZero)

theorem reads_group {tokens : List Token} {tree : ASTNode} (opening closing : List Char)
    (inner : Reads function chainStates operandGoesOn tokens tree) :
    Reads function beforeStates wordGoesOn
      (⟨.char '(', opening⟩ :: (tokens ++ [⟨.char ')', closing⟩])) (.group tree) := by
  intro below stack unread rest ast before _
  obtain ⟨asks, -, shifts, -, -, -, -, -, -, asksAfter⟩ := chain_table.1 _ before
  have opened := @meets_shift function (below :: stack) unread
    (⟨.char '(', opening⟩ :: (tokens ++ ⟨.char ')', closing⟩ :: rest)) ast 25 asks shifts (by decide)
  have whole := inner ⟨25, emptyValue⟩ (below :: stack) (some opening) (⟨.char ')', closing⟩ :: rest)
    ast (by decide) (by change .token (.char ')') ∉ operandGoesOn; decide)
  have closed := @meets_shift function (⟨37, tree⟩ :: ⟨25, emptyValue⟩ :: below :: stack) none
    (⟨.char ')', closing⟩ :: rest) ast 49 rfl rfl (by decide)
  have reduction := @meets_reduce function
    (⟨49, emptyValue⟩ :: ⟨37, tree⟩ :: ⟨25, emptyValue⟩ :: below :: stack) (some closing) rest ast
    (.group tree) 9 rfl rfl (by simp [production, productionInfo])
  have becomes := @meets_expr function stack below (some closing) rest ast (.group tree) .group before
    (by decide)
  rw [List.cons_append, List.append_assoc, List.singleton_append]
  exact ((((opened.trans whole).trans closed).trans reduction).trans becomes).trans
    (meets_load asksAfter)

/-- A key after an expression. -/
theorem meets_key (key : List Char × List Char) (inKeys : below.state ∈ keyStates) :
    Meets function
      (config (⟨afterState below.state, value⟩ :: below :: stack) none (keyTokens key ++ rest) ast)
      (config (⟨afterState below.state, .keyExpand value (.word (String.ofList key.2))⟩ :: below ::
        stack) none rest ast) := by
  obtain ⟨before, colon⟩ := chain_table.2.2.1 _ inKeys
  obtain ⟨-, -, -, -, -, -, -, -, -, asksAfter⟩ := chain_table.1 _ before
  have first := @meets_shift function (⟨afterState below.state, value⟩ :: below :: stack) none
    (keyTokens key ++ rest) ast 33 asksAfter colon (by decide)
  have second := @meets_shift function
    (⟨33, emptyValue⟩ :: ⟨afterState below.state, value⟩ :: below :: stack) (some key.1)
    (⟨.bareword, key.2⟩ :: rest) ast 24 rfl rfl (by decide)
  have word := @meets_reduce function
    (⟨24, emptyValue⟩ :: ⟨33, emptyValue⟩ :: ⟨afterState below.state, value⟩ :: below :: stack)
    (some key.2) rest ast (.word (String.ofList key.2)) 15 rfl rfl
    (by simp [production, productionInfo])
  have goto := @meets_goto function (⟨afterState below.state, value⟩ :: below :: stack)
    ⟨33, emptyValue⟩ (some key.2) rest ast (.word (String.ofList key.2)) .word 45 rfl (by decide)
  have reduction := @meets_reduce function (⟨45, .word (String.ofList key.2)⟩ :: ⟨33, emptyValue⟩ ::
      ⟨afterState below.state, value⟩ :: below :: stack) (some key.2) rest ast
    (.keyExpand value (.word (String.ofList key.2))) 1 rfl rfl
    (by simp [production, productionInfo])
  have becomes := @meets_expr function stack below (some key.2) rest ast
    (.keyExpand value (.word (String.ofList key.2))) .keyexpand before (by decide)
  exact (((((first.trans second).trans word).trans goto).trans reduction).trans becomes).trans
    (meets_load asksAfter)

theorem meets_keys (keys : List (List Char × List Char)) (inKeys : below.state ∈ keyStates) :
    Meets function
      (config (⟨afterState below.state, value⟩ :: below :: stack) none
        (keys.flatMap keyTokens ++ rest) ast)
      (config (⟨afterState below.state, keyTree value keys⟩ :: below :: stack) none rest ast) := by
  induction keys generalizing value with
  | nil => exact fun _ => Iff.rfl
  | cons key keys ih =>
      rw [List.flatMap_cons, List.append_assoc]
      exact (meets_key key inKeys).trans ih

/-- What follows an operand does not take the expression after a sign. -/
theorem target_tight (table : (stateTable state).elements = tightOperators)
    (ends : ahead rest ∉ operandGoesOn) : target state (ahead rest) = none := by
  apply target_eq_none
  rw [table]
  exact fun member => ends (List.mem_cons_of_mem _ member)

theorem reads_keyed {tokens : List Token} {tree : ASTNode} (keys : List (List Char × List Char))
    (atom : Reads function beforeStates wordGoesOn tokens tree) :
    Reads function keyStates operandGoesOn (tokens ++ keys.flatMap keyTokens)
      (keyTree tree keys) := by
  intro below stack unread rest ast inKeys ends
  have stops : ahead (keys.flatMap keyTokens ++ rest) ∉ wordGoesOn := by
    cases keys with
    | nil => exact fun member => ends (List.mem_append_left _ member)
    | cons key keys =>
        change .token (.char ':') ∉ wordGoesOn
        decide
  rw [List.append_assoc]
  exact (atom below stack unread _ ast (chain_table.2.2.1 _ inKeys).1 stops).trans
    (meets_keys keys inKeys)

/-- A sign takes the operand after it and no more. -/
theorem reads_sign {tokens : List Token} {tree : ASTNode} (sign : PrefixSign × List Char)
    (operand : Reads function keyStates operandGoesOn tokens tree) :
    Reads function keyStates operandGoesOn (signToken sign :: tokens) (sign.1.tree tree) := by
  obtain ⟨sign, text⟩ := sign
  intro below stack unread rest ast inKeys ends
  have before := (chain_table.2.2.1 _ inKeys).1
  obtain ⟨asks, -, -, percent, caret, star, -⟩ := chain_table.1 _ before
  have shifts : target below.state (symbolOf (signToken (sign, text))) = some sign.state := by
    cases sign with
    | expand => exact percent
    | getCluster => exact star
    | admin => exact caret
  have shift := @meets_shift function (below :: stack) unread
    (signToken (sign, text) :: (tokens ++ rest)) ast sign.state asks shifts
    (by cases sign <;> decide)
  have whole := operand ⟨sign.state, emptyValue⟩ (below :: stack) (some text) rest ast
    (by cases sign <;> decide) ends
  have unmatched : target (afterState sign.state) (ahead rest) = none :=
    target_tight (by cases sign <;> rfl) ends
  have reduction : Meets function
      (config (⟨afterState sign.state, tree⟩ :: ⟨sign.state, emptyValue⟩ :: below :: stack) none rest
        ast)
      (reduced (below :: stack) (production sign.number).nonTerm (sign.tree tree) none rest ast) := by
    have deep : (production sign.number).size ≤ stack.length + 2 := by
      cases sign <;> exact Nat.le_add_left 2 _
    cases sign with
    | expand =>
        exact @meets_reduceAhead function (⟨38, tree⟩ :: ⟨26, emptyValue⟩ :: below :: stack) none rest
          ast (.expand tree) 6 rfl unmatched rfl rfl deep
    | getCluster =>
        exact @meets_reduceAhead function (⟨40, tree⟩ :: ⟨28, emptyValue⟩ :: below :: stack) none rest
          ast (.getCluster tree) 7 rfl unmatched rfl rfl deep
    | admin =>
        exact @meets_reduceAhead function (⟨39, tree⟩ :: ⟨27, emptyValue⟩ :: below :: stack) none rest
          ast (.admin tree) 8 rfl unmatched rfl rfl deep
  have becomes := @meets_expr function stack below none rest ast (sign.tree tree)
    (production sign.number).nonTerm before (by cases sign <;> decide)
  exact ((shift.trans whole).trans reduction).trans becomes

theorem reads_signs {tokens : List Token} {tree : ASTNode} (signs : List (PrefixSign × List Char))
    (operand : Reads function keyStates operandGoesOn tokens tree) :
    Reads function keyStates operandGoesOn (signs.map signToken ++ tokens) (signTree signs tree) := by
  induction signs with
  | nil => exact operand
  | cons sign signs ih => exact reads_sign sign ih

/-- An operand is joined to the whole of what comes before it. -/
theorem reads_joined {leftTokens tokens : List Token} {leftTree tree : ASTNode} (sign : InfixSign)
    (text : List Char) (left : Reads function chainStates operandGoesOn leftTokens leftTree)
    (operand : Reads function keyStates operandGoesOn tokens tree) :
    Reads function chainStates operandGoesOn (leftTokens ++ ⟨.char sign.char, text⟩ :: tokens)
      (sign.tree leftTree tree) := by
  intro below stack unread rest ast inChain ends
  obtain ⟨inKeys, comma, minus, ampersand⟩ := chain_table.2.2.2 _ inChain
  have before := (chain_table.2.2.1 _ inKeys).1
  obtain ⟨-, -, -, -, -, -, -, -, -, asksAfter⟩ := chain_table.1 _ before
  have first := left below stack unread (⟨.char sign.char, text⟩ :: (tokens ++ rest)) ast inChain (by
    cases sign with
    | union => change .token (.char ',') ∉ operandGoesOn; decide
    | difference => change .token (.char '-') ∉ operandGoesOn; decide
    | intersection => change .token (.char '&') ∉ operandGoesOn; decide)
  have shifts : target (afterState below.state) (symbolOf ⟨.char sign.char, text⟩) =
      some sign.state := by
    cases sign with
    | union => exact comma
    | difference => exact minus
    | intersection => exact ampersand
  have shift := @meets_shift function (⟨afterState below.state, leftTree⟩ :: below :: stack) none
    (⟨.char sign.char, text⟩ :: (tokens ++ rest)) ast sign.state asksAfter shifts
    (by cases sign <;> decide)
  have second := operand ⟨sign.state, emptyValue⟩
    (⟨afterState below.state, leftTree⟩ :: below :: stack) (some text) rest ast
    (by cases sign <;> decide) ends
  have unmatched : target (afterState sign.state) (ahead rest) = none :=
    target_tight (by cases sign <;> rfl) ends
  have reduction : Meets function
      (config (⟨afterState sign.state, tree⟩ :: ⟨sign.state, emptyValue⟩ ::
        ⟨afterState below.state, leftTree⟩ :: below :: stack) none rest ast)
      (reduced (below :: stack) (production sign.number).nonTerm (sign.tree leftTree tree) none rest
        ast) := by
    have deep : (production sign.number).size ≤ stack.length + 3 := by
      cases sign <;> exact Nat.le_add_left 3 _
    cases sign with
    | union =>
        exact @meets_reduceAhead function (⟨41, tree⟩ :: ⟨29, emptyValue⟩ ::
          ⟨afterState below.state, leftTree⟩ :: below :: stack) none rest ast (.union leftTree tree) 2
          rfl unmatched rfl rfl deep
    | difference =>
        exact @meets_reduceAhead function (⟨42, tree⟩ :: ⟨30, emptyValue⟩ ::
          ⟨afterState below.state, leftTree⟩ :: below :: stack) none rest ast
          (.difference leftTree tree) 3 rfl unmatched rfl rfl deep
    | intersection =>
        exact @meets_reduceAhead function (⟨43, tree⟩ :: ⟨31, emptyValue⟩ ::
          ⟨afterState below.state, leftTree⟩ :: below :: stack) none rest ast
          (.intersection leftTree tree) 4 rfl unmatched rfl rfl deep
  have becomes := @meets_expr function stack below none rest ast (sign.tree leftTree tree)
    (production sign.number).nonTerm before (by cases sign <;> decide)
  rw [List.append_assoc, List.cons_append]
  exact (((first.trans shift).trans second).trans reduction).trans becomes

mutual

theorem Atom.reads (function : String → RangeFunction) (atom : Atom) :
    Reads function beforeStates wordGoesOn atom.tokens atom.tree := by
  cases atom with
  | word text => exact reads_word text
  | group opening chain closing => exact reads_group opening closing (chain.reads function)

theorem Operand.reads (function : String → RangeFunction) (operand : Operand) :
    Reads function keyStates operandGoesOn operand.tokens operand.tree := by
  cases operand with
  | mk signs atom keys => exact reads_signs signs (reads_keyed keys (atom.reads function))

theorem Chain.reads (function : String → RangeFunction) (chain : Chain) :
    Reads function chainStates operandGoesOn chain.tokens chain.tree := by
  cases chain with
  | single operand =>
      intro below stack unread rest ast inChain ends
      exact operand.reads function below stack unread rest ast (chain_table.2.2.2 _ inChain).1 ends
  | joined left sign text operand =>
      exact reads_joined sign text (left.reads function) (operand.reads function)

end

/-- What is read from the first state to the end is accepted. -/
theorem parses_of_reads {tree : ASTNode} (reads : Reads function chainStates operandGoesOn tokens tree) :
    Parses function tokens (.accept tree) := by
  have whole := reads ⟨0, emptyValue⟩ [] (some []) [] emptyValue (by decide)
    (by change .eof ∉ operandGoesOn; decide)
  have started := @meets_reduceAhead function [⟨2, tree⟩, ⟨0, emptyValue⟩] none [] emptyValue tree 37
    rfl rfl rfl rfl (Nat.le_refl 1)
  have goto := @meets_goto function [] ⟨0, emptyValue⟩ none [] tree tree .start 1 rfl (by decide)
  have accepts : (config [⟨1, tree⟩, ⟨0, emptyValue⟩] none [] tree).step function =
      .done (.accept tree) := step_accept rfl
  rw [List.append_nil] at whole
  exact (((whole.trans started).trans goto) (.accept tree)).mpr ((returns_done accepts).mpr rfl)

/-- Every chain is accepted, with the tree that is nested to the left, in which
a sign applies to its own operand only and a key binds tighter than a sign. -/
theorem chain_parses (function : String → RangeFunction) (chain : Chain) :
    Parses function chain.tokens (.accept chain.tree) :=
  parses_of_reads (chain.reads function)

end RangeParser

end Rangexx
