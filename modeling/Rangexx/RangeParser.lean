import Rangexx.RangeExpressions
import Rangexx.ReturningRuns
import Rangexx.Scanner

/-!
# The parser

`RangeParser_v1`, made by Bisonc++ from `grammar.ycpp`: its tables, the actions
of its productions, and the loop of `parse` on the tokens of a scanner.
-/

namespace Rangexx

namespace RangeParser

open RangeScanner ReturningRun

/-! ## The tables -/

inductive NonTerm where
  | keyexpand
  | expr
  | word
  | union
  | difference
  | intersection
  | sequence
  | expand
  | getCluster
  | admin
  | group
  | braceexpand
  | functionArguments
  | functionName
  | function
  | literal
  | regex
  | null
  | start
  | startEnd
  deriving DecidableEq, Repr

/-- What a state of the parser looks at. -/
inductive Symbol where
  | eof
  | token (kind : TokenKind)
  | nonTerm (nonTerm : NonTerm)
  deriving DecidableEq, Repr

/-- `PI__`. -/
structure Production where
  nonTerm : NonTerm
  size : Nat
  deriving DecidableEq, Repr

/-- `s_productionInfo`, of which the first is not used. -/
def productionInfo : List Production :=
  [⟨.startEnd, 0⟩, ⟨.keyexpand, 3⟩, ⟨.union, 3⟩, ⟨.difference, 3⟩, ⟨.intersection, 3⟩,
    ⟨.sequence, 3⟩, ⟨.expand, 2⟩, ⟨.getCluster, 2⟩, ⟨.admin, 2⟩, ⟨.group, 3⟩, ⟨.braceexpand, 5⟩,
    ⟨.functionArguments, 1⟩, ⟨.functionArguments, 3⟩, ⟨.functionName, 1⟩, ⟨.function, 4⟩,
    ⟨.word, 1⟩, ⟨.literal, 1⟩, ⟨.literal, 1⟩, ⟨.regex, 1⟩, ⟨.regex, 2⟩, ⟨.null, 0⟩,
    ⟨.expr, 1⟩, ⟨.expr, 1⟩, ⟨.expr, 1⟩, ⟨.expr, 1⟩, ⟨.expr, 1⟩, ⟨.expr, 1⟩, ⟨.expr, 1⟩,
    ⟨.expr, 1⟩, ⟨.expr, 1⟩, ⟨.expr, 1⟩, ⟨.expr, 1⟩, ⟨.expr, 1⟩, ⟨.expr, 1⟩, ⟨.expr, 1⟩,
    ⟨.expr, 1⟩, ⟨.expr, 1⟩, ⟨.start, 1⟩, ⟨.startEnd, 1⟩]

def production (number : Nat) : Production :=
  productionInfo.getD number ⟨.startEnd, 0⟩

/-- A table `s_0` to `s_54`: whether the state asks for a token, its elements,
of which 0 stands for `PARSE_ACCEPT`, and the production of the last one. -/
structure StateTable where
  reqToken : Bool
  elements : List (Symbol × Nat)
  reduction : Option Nat
  deriving DecidableEq, Repr

/-- The elements that the states before an expression share. -/
def operands : List (Symbol × Nat) :=
  [(.nonTerm .regex, 3), (.nonTerm .literal, 4), (.nonTerm .functionName, 5), (.nonTerm .word, 6),
    (.nonTerm .sequence, 7), (.nonTerm .group, 8), (.nonTerm .union, 9),
    (.nonTerm .difference, 10), (.nonTerm .intersection, 11), (.nonTerm .braceexpand, 12),
    (.nonTerm .keyexpand, 13), (.nonTerm .expand, 14), (.nonTerm .admin, 15),
    (.nonTerm .getCluster, 16), (.nonTerm .function, 17), (.nonTerm .null, 18),
    (.token .regex, 19), (.token (.char '!'), 20), (.token .singlequoted, 21),
    (.token .doublequoted, 22), (.token .function, 23), (.token .bareword, 24),
    (.token (.char '('), 25), (.token (.char '%'), 26), (.token (.char '^'), 27),
    (.token (.char '*'), 28)]

/-- The elements that bind tighter than the other operators. -/
def tightOperators : List (Symbol × Nat) :=
  [(.token (.char '{'), 32), (.token (.char ':'), 33)]

def operators : List (Symbol × Nat) :=
  [(.token (.char ','), 29), (.token (.char '-'), 30), (.token (.char '&'), 31)] ++ tightOperators

/-- A state before an expression, with the state after it. -/
def beforeExpr (expr : Nat) : StateTable :=
  ⟨true, (.nonTerm .expr, expr) :: operands, some 20⟩

/-- A state with nothing but its reduction, for which no token is needed. -/
def reduces (number : Nat) : StateTable :=
  ⟨false, [], some number⟩

/-- `s_state`. -/
def stateTables : List StateTable :=
  [⟨true, (.nonTerm .start, 1) :: (.nonTerm .expr, 2) :: operands, some 20⟩,
    ⟨true, [(.eof, 0)], none⟩,
    ⟨true, operators, some 37⟩,
    reduces 21, reduces 22,
    ⟨true, [(.token (.char '('), 34)], some 23⟩,
    ⟨true, [(.token .sequence, 35)], some 24⟩,
    reduces 25, reduces 26, reduces 27, reduces 28, reduces 29, reduces 30, reduces 31, reduces 32,
    reduces 33, reduces 34, reduces 35, reduces 36, reduces 18,
    ⟨true, [(.token .regex, 36)], none⟩,
    reduces 16, reduces 17, reduces 13, reduces 15,
    beforeExpr 37, beforeExpr 38, beforeExpr 39, beforeExpr 40, beforeExpr 41, beforeExpr 42,
    beforeExpr 43, beforeExpr 44,
    ⟨true, [(.nonTerm .word, 45), (.token .bareword, 24)], none⟩,
    ⟨true, (.nonTerm .functionArguments, 46) :: (.nonTerm .expr, 47) :: operands, some 20⟩,
    ⟨true, [(.nonTerm .word, 48), (.token .bareword, 24)], none⟩,
    reduces 19,
    ⟨true, (.token (.char ')'), 49) :: operators, none⟩,
    ⟨true, tightOperators, some 6⟩, ⟨true, tightOperators, some 8⟩,
    ⟨true, tightOperators, some 7⟩, ⟨true, tightOperators, some 2⟩,
    ⟨true, tightOperators, some 3⟩, ⟨true, tightOperators, some 4⟩,
    ⟨true, (.token (.char '}'), 50) :: operators, none⟩,
    reduces 1,
    ⟨true, [(.token (.char ')'), 51), (.token (.char ';'), 52)], none⟩,
    ⟨true, operators, some 11⟩,
    reduces 5, reduces 9,
    beforeExpr 53,
    reduces 14,
    beforeExpr 54,
    ⟨true, [], some 10⟩,
    ⟨true, operators, some 12⟩]

def stateTable (state : Nat) : StateTable :=
  stateTables.getD state ⟨true, [], none⟩

/-! ## The parser's members -/

/-- The value of a `STYPE__()`. -/
def emptyValue : ASTNode :=
  .word ""

/-- An element of the two stacks. -/
structure Entry where
  state : Nat
  value : ASTNode

/-- The parser on what is left of its tokens.  The top of the stacks comes
first, `none` is an undetermined token, and `matched` is the scanner's. -/
structure Parser where
  stack : List Entry
  token : Option Symbol
  val : ASTNode
  nextToken : Option Symbol
  nextVal : ASTNode
  tokens : List Token
  matched : List Char
  ast : ASTNode

/-- The parser at the beginning of the loop. -/
def parserOn (tokens : List Token) : Parser :=
  ⟨[⟨0, emptyValue⟩], none, emptyValue, none, emptyValue, tokens, [], emptyValue⟩

/-- What `parse` comes to: 0, with the tree that `ast` gives, or 1; or an
exception passes. -/
inductive Outcome where
  | accept (ast : ASTNode)
  | abort
  | thrown

/-- The token that `nextToken` makes of what `lex` returns.  A character is
signed, and one that is not positive ends the text. -/
def symbolOf (token : Token) : Symbol :=
  match token.kind with
  | .char ch => if 0 < ch.toNat ∧ ch.toNat < 0x80 then .token (.char ch) else .eof
  | kind => .token kind

namespace Parser

def state (parser : Parser) : Nat :=
  (parser.stack.headD ⟨0, emptyValue⟩).state

/-- `d_vsp__[-depth]`. -/
def vsp (parser : Parser) (depth : Nat) : ASTNode :=
  (parser.stack.getD depth ⟨0, emptyValue⟩).value

def push (parser : Parser) (state : Nat) : Parser :=
  { parser with stack := ⟨state, parser.val⟩ :: parser.stack }

def popToken (parser : Parser) : Parser :=
  { parser with
    token := parser.nextToken
    val := parser.nextVal
    nextToken := none
    nextVal := emptyValue }

def pushToken (parser : Parser) (token : Symbol) : Parser :=
  { parser with
    nextToken := parser.token
    nextVal := parser.val
    token := some token }

/-- `lex` of the scanner. -/
def lex (parser : Parser) : Parser :=
  match parser.tokens with
  | [] => { parser with token := some .eof, matched := [] }
  | token :: tokens =>
      { parser with token := some (symbolOf token), tokens, matched := token.text }

/-- `nextToken`. -/
def getToken (parser : Parser) : Parser :=
  if parser.token.isSome then parser
  else if parser.nextToken.isSome then parser.popToken
  else parser.lex

end Parser

/-- What `lookup` comes to, of which the last is `UNEXPECTED_TOKEN__`. -/
inductive Action where
  | shift (state : Nat)
  | reduce (number : Nat)
  | accept
  | unexpected
  deriving DecidableEq, Repr

/-- `lookup`. -/
def lookup (state : Nat) (token : Option Symbol) : Action :=
  match token.bind fun symbol => (stateTable state).elements.lookup symbol with
  | some 0 => .accept
  | some state => .shift state
  | none =>
      match (stateTable state).reduction with
      | some number => .reduce number
      | none => .unexpected

/-- `boost::get<ASTFunctionArguments>`. -/
def asArguments : ASTNode → Option (List ASTNode)
  | .functionArguments args => some args
  | _ => none

variable (function : String → RangeFunction)

/-- The switch of `executeAction`, with what `d_scanner` gives: the value that
becomes `d_val__`.  It throws where a `boost::get` does. -/
def semanticValue (matched : List Char) (vsp : Nat → ASTNode) (val : ASTNode) :
    Nat → Option ASTNode
  | 1 => some (.keyExpand (vsp 2) (vsp 0))
  | 2 => some (.union (vsp 2) (vsp 0))
  | 3 => some (.difference (vsp 2) (vsp 0))
  | 4 => some (.intersection (vsp 2) (vsp 0))
  | 5 => some (.sequence (vsp 2) (vsp 0))
  | 6 => some (.expand (vsp 0))
  | 7 => some (.getCluster (vsp 0))
  | 8 => some (.admin (vsp 0))
  | 9 => some (.group (vsp 1))
  | 10 => some (.braceExpand (vsp 4) (vsp 2) (vsp 0))
  | 11 => some (.functionArguments [vsp 0])
  | 12 => do
      let args ← asArguments (vsp 2)
      return .functionArguments (args ++ [vsp 0])
  | 13 => some (.word (String.ofList matched))
  | 14 => do
      let w ← (vsp 3).asWord
      let args ← asArguments (vsp 1)
      return .function (function w) args
  | 15 => some (.word (String.ofList matched))
  | 17 => some (.literal (String.ofList matched))
  | 18 => some (.regex (String.ofList matched) true)
  | 19 => some (.regex (String.ofList matched) false)
  | 20 => some .null
  | _ => some val

namespace Parser

/-- `executeAction`, where the default value is that of the first symbol. -/
def executeAction (parser : Parser) (number : Nat) : Option Parser := do
  let parser := match parser.token with
    | some token => parser.pushToken token
    | none => parser
  let size := (production number).size
  let val := if size = 0 then parser.val else parser.vsp (size - 1)
  let val ← semanticValue function parser.matched parser.vsp val number
  return { parser with val, ast := if number = 37 then parser.vsp 0 else parser.ast }

/-- `reduce__`, or nothing where `pop__` aborts. -/
def reduce (parser : Parser) (number : Nat) : Option Parser :=
  let production := production number
  if parser.stack.length - 1 < production.size then none
  else some { parser with
    token := some (.nonTerm production.nonTerm)
    stack := parser.stack.drop production.size }

/-- A round of the loop of `parse`.  No state has an error item, so that the
error recovery pops the whole stack and aborts. -/
def step (parser : Parser) : Step Parser Outcome :=
  let parser := if (stateTable parser.state).reqToken then parser.getToken else parser
  match lookup parser.state parser.token with
  | .shift state => .next (parser.push state).popToken
  | .reduce number =>
      match parser.executeAction function number with
      | none => .done .thrown
      | some parser =>
          match parser.reduce number with
          | none => .done .abort
          | some parser => .next parser
  | .accept => .done (.accept parser.ast)
  | .unexpected => .done .abort

end Parser

/-- `parse`, with a bound on its rounds. -/
def parse (tokens : List Token) : Option Outcome :=
  run (Parser.step function) (40 * tokens.length + 27) (parserOn tokens)

/-- `parse` on some tokens returns an outcome, in some number of rounds. -/
def Parses (tokens : List Token) (outcome : Outcome) : Prop :=
  Returns (Parser.step function) (parserOn tokens) outcome

end RangeParser

end Rangexx
