import Mathlib.Tactic.IntervalCases
import Rangexx.ParserTurns

/-!
# The leaves of a tree

The words, literals and regexes of a tree that the parser accepts are those of
its tokens, in their order.  Names of functions that are called do not appear,
and a single-quoted text is an empty word.
-/

namespace Rangexx

namespace RangeParser

open RangeScanner ReturningRun

inductive Leaf where
  | word (text : String)
  | literal (text : String)
  | regex (text : String)
  deriving DecidableEq, Repr

mutual

def leaves : ASTNode → List Leaf
  | .word word => [.word word]
  | .literal word => [.literal word]
  | .regex word _ => [.regex word]
  | .null => []
  | .union lhs rhs => leaves lhs ++ leaves rhs
  | .difference lhs rhs => leaves lhs ++ leaves rhs
  | .intersection lhs rhs => leaves lhs ++ leaves rhs
  | .sequence lhs rhs => leaves lhs ++ leaves rhs
  | .expand child => leaves child
  | .getCluster child => leaves child
  | .admin child => leaves child
  | .group child => leaves child
  | .braceExpand left center right => leaves left ++ leaves center ++ leaves right
  | .functionArguments args => argLeaves args
  | .function _ args => argLeaves args
  | .keyExpand lhs rhs => leaves lhs ++ leaves rhs

def argLeaves : List ASTNode → List Leaf
  | [] => []
  | arg :: rest => leaves arg ++ argLeaves rest

end

theorem argLeaves_concat (args : List ASTNode) (arg : ASTNode) :
    argLeaves (args ++ [arg]) = argLeaves args ++ leaves arg := by
  induction args with
  | nil => simp only [List.nil_append, argLeaves, List.append_nil]
  | cons first args ih => rw [List.cons_append, argLeaves, argLeaves, ih, List.append_assoc]

/-- The leaf of a token, if it has one, given what becomes of a single-quoted
text.  A function that is called has none. -/
def tokenLeaf (single : String → Leaf) (token : Token) (rest : List Token) : List Leaf :=
  match token.kind with
  | .function => if ahead rest = .token (.char '(') then [] else [.word (String.ofList token.text)]
  | .bareword => [.word (String.ofList token.text)]
  | .regex => [.regex (String.ofList token.text)]
  | .singlequoted => [single (String.ofList token.text)]
  | .doublequoted => [.literal (String.ofList token.text)]
  | _ => []

/-- The leaves of the tokens up to the end of the text. -/
def tokenLeaves (single : String → Leaf) : List Token → List Leaf
  | [] => []
  | token :: rest =>
      if symbolOf token = .eof then [] else tokenLeaf single token rest ++ tokenLeaves single rest

/-- What becomes of a single-quoted text: the default value of its production. -/
def emptyWord (_ : String) : Leaf :=
  .word ""

variable {function : String → RangeFunction} {stack popped rest : List Entry}
  {unread after : Option (List Char)} {tokens : List Token} {ast value : ASTNode}
  {nonTerm : NonTerm} {entry : Entry} {state number : Nat} {matched : List Char} {val : ASTNode}

/-! ## The leaves on the stack -/

/-- The leaves of an entry.  The name of a function is counted when it is known
whether the function is called. -/
def entryLeaves (entry : Entry) : List Leaf :=
  match symbolBefore entry.state with
  | some (.nonTerm .functionName) => []
  | some (.nonTerm _) => leaves entry.value
  | _ => []

def stackLeaves : List Entry → List Leaf
  | [] => []
  | entry :: rest => stackLeaves rest ++ entryLeaves entry

theorem stackLeaves_append (first second : List Entry) :
    stackLeaves (first ++ second) = stackLeaves second ++ stackLeaves first := by
  induction first with
  | nil => rw [List.nil_append, stackLeaves, List.append_nil]
  | cons entry first ih => rw [List.cons_append, stackLeaves, stackLeaves, ih, List.append_assoc]

/-- The leaf of a value that a symbol has before some tokens. -/
def valueLeaves (nonTerm : NonTerm) (value : ASTNode) (tokens : List Token) : List Leaf :=
  if nonTerm = .functionName ∧ ahead tokens = .token (.char '(') then [] else leaves value

/-- The leaf of a token or of the name of a function on top of the stack. -/
def pendingLeaves (stack : List Entry) (unread : Option (List Char)) (tokens : List Token) :
    List Leaf :=
  match symbolBefore (top stack), unread with
  | some (.token kind), some text => tokenLeaf emptyWord ⟨kind, text⟩ tokens
  | some (.nonTerm .functionName), _ => valueLeaves .functionName (valueAt stack 0) tokens
  | _, _ => []

namespace Form

/-- The leaves that a parser has and those of the tokens it has not shifted. -/
def leaves : Form → List Leaf
  | .config stack unread tokens _ =>
      stackLeaves stack ++ pendingLeaves stack unread tokens ++ tokenLeaves emptyWord tokens
  | .reduced stack nonTerm value _ tokens _ =>
      stackLeaves stack ++ valueLeaves nonTerm value tokens ++ tokenLeaves emptyWord tokens

/-- A token on top of the stack has just been shifted, and the tree is the
value of `start`. -/
def Fresh : Form → Prop
  | .config stack unread _ ast =>
      (unread = none → ∀ kind, symbolBefore (top stack) ≠ some (.token kind)) ∧
        (top stack = 1 → ast = valueAt stack 0)
  | .reduced _ nonTerm value _ _ ast => nonTerm = .start → ast = value

end Form

theorem Entry.Holds.leaves_token {kind : TokenKind} (holds : entry.Holds (.token kind)) :
    entryLeaves entry = [] := by
  unfold entryLeaves
  rw [holds.1]

theorem Entry.Holds.leaves_functionName (holds : entry.Holds (.nonTerm .functionName)) :
    entryLeaves entry = [] := by
  unfold entryLeaves
  rw [holds.1]

theorem Entry.Holds.leaves_nonTerm (holds : entry.Holds (.nonTerm nonTerm))
    (other : nonTerm ≠ .functionName) : entryLeaves entry = leaves entry.value := by
  unfold entryLeaves
  rw [holds.1]
  cases nonTerm with
  | functionName => exact absurd rfl other
  | _ => rfl

theorem Entry.Holds.pending_nonTerm (holds : entry.Holds (.nonTerm nonTerm))
    (other : nonTerm ≠ .functionName) : pendingLeaves (entry :: rest) unread tokens = [] := by
  have before : symbolBefore (top (entry :: rest)) = some (.nonTerm nonTerm) := holds.1
  unfold pendingLeaves
  rw [before]
  cases nonTerm with
  | functionName => exact absurd rfl other
  | _ => rfl

theorem Entry.Holds.pending_char {ch : Char} (holds : entry.Holds (.token (.char ch))) :
    pendingLeaves (entry :: rest) unread tokens = [] := by
  have before : symbolBefore (top (entry :: rest)) = some (.token (.char ch)) := holds.1
  unfold pendingLeaves
  rw [before]
  cases unread <;> rfl

theorem Entry.Holds.pending_token {kind : TokenKind} (holds : entry.Holds (.token kind)) :
    pendingLeaves (entry :: rest) (some matched) tokens = tokenLeaf emptyWord ⟨kind, matched⟩ tokens := by
  have before : symbolBefore (top (entry :: rest)) = some (.token kind) := holds.1
  unfold pendingLeaves
  rw [before]

theorem valueLeaves_eq (other : nonTerm ≠ .functionName) (value : ASTNode) (tokens : List Token) :
    valueLeaves nonTerm value tokens = leaves value :=
  if_neg fun both => other both.1

/-- The leaves of the entries that a production pops, and the leaf of what is
on top of them, are those of its value. -/
def KeepsLeaves (number : Nat) (popped rest : List Entry) (unread : Option (List Char))
    (tokens : List Token) (value : ASTNode) : Prop :=
  stackLeaves popped ++ pendingLeaves (popped ++ rest) unread tokens =
    valueLeaves (production number).nonTerm value tokens

theorem keepsLeaves_of_binary (atLeast : 1 ≤ number) (atMost : number ≤ 5)
    (types : List.Forall₂ Entry.Holds (rightSide number).reverse popped)
    (isValue : semanticValue function matched (valueAt (popped ++ rest)) val number = some value) :
    KeepsLeaves number popped rest unread tokens value := by
  unfold KeepsLeaves
  interval_cases number
  all_goals
    obtain _ | ⟨right, _ | ⟨middle, _ | ⟨left, _ | _⟩⟩⟩ := types
    cases isValue
    rw [valueLeaves_eq (by decide)]
    simp [stackLeaves, left.leaves_nonTerm, middle.leaves_token, right.leaves_nonTerm,
      right.pending_nonTerm, leaves, valueAt]

theorem keepsLeaves_of_unary (atLeast : 6 ≤ number) (atMost : number ≤ 8)
    (types : List.Forall₂ Entry.Holds (rightSide number).reverse popped)
    (isValue : semanticValue function matched (valueAt (popped ++ rest)) val number = some value) :
    KeepsLeaves number popped rest unread tokens value := by
  unfold KeepsLeaves
  interval_cases number
  all_goals
    obtain _ | ⟨child, _ | ⟨sign, _ | _⟩⟩ := types
    cases isValue
    rw [valueLeaves_eq (by decide)]
    simp [stackLeaves, sign.leaves_token, child.leaves_nonTerm, child.pending_nonTerm, leaves,
      valueAt]

/-- Groups, braces and calls. -/
theorem keepsLeaves_of_brackets (atLeast : 9 ≤ number) (atMost : number ≤ 14) (called : number ≠ 13)
    (types : List.Forall₂ Entry.Holds (rightSide number).reverse popped)
    (isValue : semanticValue function matched (valueAt (popped ++ rest)) val number = some value) :
    KeepsLeaves number popped rest unread tokens value := by
  unfold KeepsLeaves
  interval_cases number
  · obtain _ | ⟨close, _ | ⟨child, _ | ⟨opens, _ | _⟩⟩⟩ := types
    cases isValue
    rw [valueLeaves_eq (by decide)]
    simp [stackLeaves, close.leaves_token, close.pending_char, child.leaves_nonTerm,
      opens.leaves_token, leaves, valueAt]
  · obtain _ | ⟨right, _ | ⟨close, _ | ⟨center, _ | ⟨opens, _ | ⟨left, _ | _⟩⟩⟩⟩⟩ := types
    cases isValue
    rw [valueLeaves_eq (by decide)]
    simp [stackLeaves, right.leaves_nonTerm, right.pending_nonTerm, close.leaves_token,
      center.leaves_nonTerm, opens.leaves_token, left.leaves_nonTerm, leaves, valueAt]
  · obtain _ | ⟨arg, _ | _⟩ := types
    cases isValue
    rw [valueLeaves_eq (by decide)]
    simp [stackLeaves, arg.leaves_nonTerm, arg.pending_nonTerm, leaves, argLeaves, valueAt]
  · obtain _ | ⟨arg, _ | ⟨semicolon, _ | ⟨others, _ | _⟩⟩⟩ := types
    obtain ⟨args, isArgs⟩ := others.2
    cases (semanticValue_arguments isArgs matched val).symm.trans isValue
    rw [valueLeaves_eq (by decide)]
    simp [stackLeaves, arg.leaves_nonTerm, arg.pending_nonTerm, semicolon.leaves_token,
      others.leaves_nonTerm, isArgs, leaves, argLeaves_concat, valueAt]
  · exact absurd rfl called
  · obtain _ | ⟨close, _ | ⟨arguments, _ | ⟨opens, _ | ⟨name, _ | _⟩⟩⟩⟩ := types
    obtain ⟨args, isArgs⟩ := arguments.2
    obtain ⟨w, isWord⟩ := name.2
    cases (semanticValue_call isWord isArgs matched val).symm.trans isValue
    rw [valueLeaves_eq (by decide)]
    simp [stackLeaves, close.leaves_token, close.pending_char, arguments.leaves_nonTerm,
      opens.leaves_token, name.leaves_functionName, isArgs, leaves]

/-- The text of a token that has just been shifted. -/
theorem keepsLeaves_of_token (isToken : number ∈ [13, 15, 16, 17, 18, 19])
    (types : List.Forall₂ Entry.Holds (rightSide number).reverse popped)
    (isValue : semanticValue function matched (valueAt (popped ++ rest))
      (defaultValue (popped ++ rest) number) number = some value) :
    KeepsLeaves number popped rest (some matched) tokens value := by
  unfold KeepsLeaves
  simp only [List.mem_cons, List.not_mem_nil, or_false] at isToken
  rcases isToken with rfl | rfl | rfl | rfl | rfl | rfl
  · obtain _ | ⟨name, _ | _⟩ := types
    cases isValue
    simp [stackLeaves, name.leaves_token, name.pending_token, tokenLeaf, valueLeaves, leaves,
      production, productionInfo]
  · obtain _ | ⟨token, _ | _⟩ := types
    cases isValue
    rw [valueLeaves_eq (by decide)]
    simp [stackLeaves, token.leaves_token, token.pending_token, tokenLeaf, leaves]
  · -- The production has no action, and the value of a token is empty.
    obtain _ | @⟨_, entry, _, _, token, _ | _⟩ := types
    have isEmpty : defaultValue (entry :: rest) 16 = emptyValue := token.2
    cases isValue
    rw [valueLeaves_eq (by decide)]
    simp [stackLeaves, token.leaves_token, token.pending_token, tokenLeaf, isEmpty, emptyWord,
      emptyValue, leaves]
  · obtain _ | ⟨token, _ | _⟩ := types
    cases isValue
    rw [valueLeaves_eq (by decide)]
    simp [stackLeaves, token.leaves_token, token.pending_token, tokenLeaf, leaves]
  · obtain _ | ⟨token, _ | _⟩ := types
    cases isValue
    rw [valueLeaves_eq (by decide)]
    simp [stackLeaves, token.leaves_token, token.pending_token, tokenLeaf, leaves]
  · obtain _ | ⟨token, _ | ⟨sign, _ | _⟩⟩ := types
    cases isValue
    rw [valueLeaves_eq (by decide)]
    simp [stackLeaves, sign.leaves_token, token.leaves_token, token.pending_token, tokenLeaf,
      leaves]

/-- The productions that take the value of their symbol. -/
theorem keepsLeaves_of_unit (atLeast : 21 ≤ number) (atMost : number ≤ 37)
    (uncalled : number = 23 → ahead tokens ≠ .token (.char '('))
    (types : List.Forall₂ Entry.Holds (rightSide number).reverse popped)
    (isValue : semanticValue function matched (valueAt (popped ++ rest))
      (defaultValue (popped ++ rest) number) number = some value) :
    KeepsLeaves number popped rest unread tokens value := by
  unfold KeepsLeaves
  by_cases named : number = 23
  · subst named
    obtain _ | @⟨_, entry, _, _, name, _ | _⟩ := types
    have before : symbolBefore entry.state = some (.nonTerm .functionName) := name.1
    cases isValue
    rw [valueLeaves_eq (by decide)]
    simp [stackLeaves, name.leaves_functionName, pendingLeaves, top, before, valueLeaves,
      uncalled rfl, defaultValue, production, productionInfo]
  · interval_cases number
    all_goals first
      | exact absurd rfl named
      | obtain _ | ⟨child, _ | _⟩ := types
        cases isValue
        rw [valueLeaves_eq (by decide)]
        simp [stackLeaves, child.leaves_nonTerm, child.pending_nonTerm, defaultValue, production,
          productionInfo, valueAt]

/-! ## What a turn keeps -/

/-- The tokens that have leaves. -/
def leafKinds : List TokenKind :=
  [.function, .bareword, .singlequoted, .doublequoted, .regex]

example : leafKinds.Nodup := by decide +kernel

/-- A token with a leaf is reduced at once, and a name when it is not called. -/
theorem reduction_table :
    ∀ state < 55, ∀ number ∈ (stateTable state).reduction, number ∈ List.range' 1 37 ∧
      (number ∉ [13, 15, 16, 17, 18, 19] ∨ (stateTable state).reqToken = false ∧
        ∃ kind ∈ leafKinds, symbolBefore state = some (.token kind)) ∧
      (number ≠ 23 ∨ state = 5 ∧ (stateTable state).reqToken) ∧
        (number = 37 ∨ (production number).nonTerm ≠ .start) := by
  decide +kernel

theorem leaves_table :
    (∀ state < 55, ∀ kind ∈ leafKinds,
        symbolBefore state = some (.token kind) → (stateTable state).elements = []) ∧
      ∀ state ∈ beforeStates, symbolBefore state ∈ some .eof ::
        ['(', '%', '^', '*', ',', '-', '&', '{', '}', ';'].map fun ch =>
          some (.token (.char ch)) := by
  decide +kernel

theorem functionName_table :
    ∀ state < 55, symbolBefore state = some (.nonTerm .functionName) → state = 5 := by
  decide +kernel

theorem start_table :
    ∀ below < 55, ∀ element ∈ (stateTable below).elements,
      (element.2 ≠ 0 ∨ below = 1 ∧ element.1 = .eof) ∧
        (element.2 ≠ 1 ∨ below = 0 ∧ element.1 = .nonTerm .start) := by
  decide +kernel

example : symbolBefore 0 = some .eof := by decide +kernel

theorem symbolOf_eq {token : Token} (read : symbolOf token ≠ .eof) :
    symbolOf token = .token token.kind := by
  unfold symbolOf at read ⊢
  split
  · rename_i ch isChar
    rw [isChar] at read ⊢
    split
    · rfl
    · rename_i ends
      exact absurd (if_neg ends) read
  · rfl

theorem pendingLeaves_before (before : top stack ∈ beforeStates) :
    pendingLeaves stack unread tokens = [] := by
  unfold pendingLeaves
  rcases List.mem_cons.mp (leaves_table.2 _ before) with first | isChar
  · rw [first]
  · obtain ⟨ch, -, isChar⟩ := List.mem_map.mp isChar
    rw [← isChar]
    cases unread <;> rfl

/-- A token has a leaf only in a state from which nothing is shifted. -/
theorem pendingLeaves_of_target (valid : ValidStack stack)
    (goes : target (top stack) (ahead tokens) = some state) :
    pendingLeaves stack unread tokens = [] := by
  have member := mem_of_target goes
  have no_leaf (kind : TokenKind) (isLeaf : kind ∈ leafKinds) :
      symbolBefore (top stack) ≠ some (.token kind) := by
    intro before
    rw [leaves_table.1 _ valid.top_lt kind isLeaf before] at member
    cases member
  unfold pendingLeaves
  split
  · rename_i kind text before
    cases kind with
    | function | bareword | singlequoted | doublequoted | regex =>
        exact absurd before (no_leaf _ (by decide))
    | _ => rfl
  · rename_i before
    rw [functionName_table _ valid.top_lt before] at member
    have opens : ahead tokens = .token (.char '(') := (Prod.mk.inj (List.mem_singleton.mp member)).1
    exact if_pos ⟨rfl, opens⟩
  · rfl

theorem leaves_shift (valid : ValidStack stack) (goes : target (top stack) (ahead tokens) = some state)
    (later : state ≠ 0) (ast : ASTNode) :
    (Form.config (⟨state, emptyValue⟩ :: stack) (some (aheadText tokens)) tokens.tail ast).leaves =
      (Form.config stack unread tokens ast).leaves := by
  obtain ⟨token, rest, rfl⟩ := exists_cons_of_shift goes later
  have isRead : symbolOf token ≠ .eof := read_of_shift goes later
  have holds : Entry.Holds (.token token.kind) ⟨state, emptyValue⟩ :=
    ⟨(symbolBefore_eq goes later).trans (congrArg some (symbolOf_eq isRead)), rfl⟩
  simp only [Form.leaves, stackLeaves, tokenLeaves, if_neg isRead, List.tail_cons]
  rw [pendingLeaves_of_target valid goes, holds.leaves_token, holds.pending_token]
  simp only [List.append_nil, List.append_assoc]
  rfl

theorem leaves_goto (goes : target (top stack) (.nonTerm nonTerm) = some state) (later : state ≠ 0)
    (typed : Typed (.nonTerm nonTerm) value) :
    (Form.config (⟨state, value⟩ :: stack) unread tokens ast).leaves =
      (Form.reduced stack nonTerm value unread tokens ast).leaves := by
  have holds : Entry.Holds (.nonTerm nonTerm) ⟨state, value⟩ := ⟨symbolBefore_eq goes later, typed⟩
  simp only [Form.leaves, stackLeaves]
  by_cases named : nonTerm = .functionName
  · subst named
    have before : symbolBefore (top (⟨state, value⟩ :: stack)) = some (.nonTerm .functionName) :=
      holds.1
    have pending : pendingLeaves (⟨state, value⟩ :: stack) unread tokens =
        valueLeaves .functionName value tokens := by
      unfold pendingLeaves
      rw [before]
      cases unread <;> rfl
    rw [holds.leaves_functionName, pending, List.append_nil]
  · rw [holds.leaves_nonTerm named, holds.pending_nonTerm named, valueLeaves_eq named,
      List.append_nil]

/-- What the scanner has matched when the production of a token is reduced. -/
theorem unread_of_token (fresh : unread = none → ∀ kind, symbolBefore (top stack) ≠ some (.token kind))
    (looks : Looks stack unread after) (silent : (stateTable (top stack)).reqToken = false)
    {kind : TokenKind} (before : symbolBefore (top stack) = some (.token kind)) :
    ∃ matched, unread = some matched ∧ after = some matched := by
  cases looks with
  | already => exact absurd before (fresh rfl kind)
  | reads asks => exact absurd (silent.symm.trans asks) Bool.false_ne_true
  | quiet => exact ⟨_, rfl, rfl⟩

theorem keepsLeaves {below : Entry}
    (fresh : unread = none →
      ∀ kind, symbolBefore (top (popped ++ below :: rest)) ≠ some (.token kind))
    (looks : Looks (popped ++ below :: rest) unread after)
    (unmatched : after = none → target (top (popped ++ below :: rest)) (ahead tokens) = none)
    (reduces : number ∈ (stateTable (top (popped ++ below :: rest))).reduction)
    (types : List.Forall₂ Entry.Holds (rightSide number).reverse popped)
    (isValue : semanticValue function (after.getD (aheadText tokens))
      (valueAt (popped ++ below :: rest)) (defaultValue (popped ++ below :: rest) number) number =
        some value) :
    KeepsLeaves number popped (below :: rest) unread tokens value := by
  obtain ⟨inRange, isToken, isName, -⟩ := reduction_table _ (reduction_lt reduces) number reduces
  rw [List.mem_range'_1] at inRange
  by_cases token : number ∈ [13, 15, 16, 17, 18, 19]
  · obtain ⟨silent, kind, -, before⟩ := isToken.resolve_left (not_not_intro token)
    obtain ⟨matched, rfl, rfl⟩ := unread_of_token fresh looks silent before
    exact keepsLeaves_of_token token types isValue
  have others : number ≠ 13 ∧ ¬ (15 ≤ number ∧ number ≤ 19) := by
    refine ⟨fun same => token (by rw [same]; decide), fun between => token ?_⟩
    obtain ⟨atLeast, atMost⟩ := between
    interval_cases number <;> decide
  by_cases empty : number = 20
  · subst empty
    cases types
    cases isValue
    have before := (rank_table.2 _ (reduction_lt reduces) 20 reduces).1.resolve_left (absurd rfl)
    unfold KeepsLeaves
    rw [pendingLeaves_before before, valueLeaves_eq (by decide)]
    rfl
  rcases Nat.lt_or_ge number 6 with binary | large
  · exact keepsLeaves_of_binary inRange.1 (by omega) types isValue
  rcases Nat.lt_or_ge number 9 with unary | larger
  · exact keepsLeaves_of_unary large (by omega) types isValue
  rcases Nat.lt_or_ge number 15 with brackets | unit
  · exact keepsLeaves_of_brackets larger (by omega) others.1 types isValue
  · refine keepsLeaves_of_unit (by omega) (by omega) ?_ types isValue
    intro named opens
    obtain ⟨isState, asks⟩ := isName.resolve_left (not_not_intro named)
    have looked : after = none := by
      cases looks with
      | already | reads => rfl
      | quiet silent => exact absurd asks silent
    have unmatched := unmatched looked
    rw [isState, opens] at unmatched
    cases unmatched

theorem FormTurn.leaves_eq {form next : Form} (turn : FormTurn function form next)
    (valid : form.Valid) (fresh : form.Fresh) : next.leaves = form.leaves := by
  cases turn with
  | shift _ goes later => exact leaves_shift valid goes later _
  | goto goes later =>
      obtain ⟨-, typed, -⟩ := valid
      exact leaves_goto goes later typed
  | reduce looks unmatched reduces types isValue =>
      have kept := keepsLeaves fresh.1 looks unmatched reduces types isValue
      unfold KeepsLeaves at kept
      simp only [Form.leaves, stackLeaves_append, ← kept, List.append_assoc]

theorem FormTurn.fresh {form next : Form} (turn : FormTurn function form next) (fresh : form.Fresh) :
    next.Fresh := by
  cases turn with
  | @shift stack unread tokens ast state looks goes later =>
      refine ⟨nofun, fun first => ?_⟩
      have member := mem_of_target goes
      obtain ⟨-, isStart⟩ := (start_table _ (lt_of_mem_elements member) _ member).2.resolve_left
        (not_not_intro first)
      obtain ⟨token, rest, rfl⟩ := exists_cons_of_shift goes later
      have isRead := symbolOf_eq (read_of_shift goes later)
      cases isRead.symm.trans isStart
  | @goto stack nonTerm value unread tokens ast state goes later =>
      have before : symbolBefore state = some (.nonTerm nonTerm) := symbolBefore_eq goes later
      constructor
      · intro _ kind isToken
        cases before.symm.trans isToken
      · intro first
        have member := mem_of_target goes
        obtain ⟨-, isStart⟩ := (start_table _ (lt_of_mem_elements member) _ member).2.resolve_left
          (not_not_intro first)
        exact fresh (Symbol.nonTerm.inj isStart)
  | @reduce popped rest below unread after tokens ast value number state looks unmatched reduces types
      isValue =>
      intro isStart
      rcases (reduction_table _ (reduction_lt reduces) number reduces).2.2.2 with rfl | other
      · exact Option.some.inj isValue
      · exact absurd isStart other

theorem ValidStack.eq_of_first {first : Entry} (valid : ValidStack (first :: rest))
    (isFirst : first.state = 0) : rest = [] := by
  cases valid with
  | bottom => rfl
  | push _ _ later => exact absurd isFirst later

theorem entryLeaves_of_first (isFirst : entry.state = 0) : entryLeaves entry = [] := by
  have before : symbolBefore 0 = some .eof := by decide +kernel
  unfold entryLeaves
  rw [isFirst, before]

/-- The leaves when the parser accepts. -/
theorem leaves_of_accept (valid : ValidStack stack) (fresh : (Form.config stack unread tokens ast).Fresh)
    (goes : target (top stack) (ahead tokens) = some 0) :
    (Form.config stack unread tokens ast).leaves = leaves ast := by
  have member := mem_of_target goes
  obtain ⟨isTop, isEnd⟩ := (start_table _ (lt_of_mem_elements member) _ member).1.resolve_left
    (absurd rfl)
  have isAst : ast = valueAt stack 0 := fresh.2 isTop
  have noTokens : tokenLeaves emptyWord tokens = [] := by
    cases tokens with
    | nil => rfl
    | cons token tokens => exact if_pos isEnd
  cases valid with
  | bottom => cases isTop
  | @push entry below rest symbol others above later typed =>
      have isEntry : entry.state = 1 := isTop
      have isMember := mem_of_target above
      obtain ⟨isFirst, rfl⟩ := (start_table _ (lt_of_mem_elements isMember) _ isMember).2.resolve_left
        (not_not_intro isEntry)
      have holds : entry.Holds (.nonTerm .start) := ⟨symbolBefore_eq above later, typed⟩
      rw [others.eq_of_first isFirst]
      simp [Form.leaves, stackLeaves, entryLeaves_of_first isFirst, holds.leaves_nonTerm, holds.pending_nonTerm, noTokens,
        isAst, valueAt]

/-- The words, literals and regexes of a tree are those of its tokens. -/
theorem leaves_eq_tokenLeaves (accepted : Parses function tokens (.accept ast)) :
    leaves ast = tokenLeaves emptyWord tokens := by
  have start : (startForm tokens).Valid ∧ (startForm tokens).Fresh ∧
      (startForm tokens).leaves = tokenLeaves emptyWord tokens := by
    refine ⟨.bottom, ⟨nofun, nofun⟩, ?_⟩
    have before : top [⟨0, emptyValue⟩] ∈ beforeStates := by decide
    simp [startForm, Form.leaves, stackLeaves, entryLeaves_of_first, pendingLeaves_before before]
  have turns (form : Form) (kept : form.Valid ∧ form.Fresh ∧
      form.leaves = tokenLeaves emptyWord tokens) :
      (∃ next, FormTurn function form next ∧ next.Valid ∧ next.Fresh ∧
        next.leaves = tokenLeaves emptyWord tokens) ∨
      ∃ outcome, LastTurn form outcome ∧
        ∀ ast, outcome = .accept ast → leaves ast = tokenLeaves emptyWord tokens := by
    obtain ⟨valid, fresh, same⟩ := kept
    rcases valid.exists_turn function with ⟨next, turn⟩ | ⟨outcome, last⟩
    · exact Or.inl ⟨next, turn, turn.valid valid, turn.fresh fresh,
        (turn.leaves_eq valid fresh).trans same⟩
    · refine Or.inr ⟨outcome, last, ?_⟩
      rintro ast rfl
      cases last with
      | accept looks goes => exact (leaves_of_accept valid fresh goes).symm.trans same
  exact Parses.keeps turns start accepted ast rfl

end RangeParser

end Rangexx
