import Rangexx.OutputRuns

/-!
# The scanner

`RangeScanner_v1`, made by Flexc++ from `lexer.lcpp`: its tables, the turns of
the loop in `lex__`, and the tokens that the parser gets from it.  A character
of a text stands for a byte.
-/

namespace Rangexx

namespace RangeScanner

/-! ## The tables -/

inductive StartCondition where
  | initial
  | squotedstring
  | dquotedstring
  | regex
  | escape
  | setoperation
  | bareword
  deriving DecidableEq, Repr

/-- `s_ranges__`. -/
def ranges : List Nat :=
   [0, 0, 0, 0, 0, 0, 0, 0, 0, 1, 2, 3, 3, 4, 5, 5, 5, 5, 5, 5, 5, 5, 5, 5, 5, 5, 5, 5, 5, 5, 5,
    5, 6, 7, 8, 9, 10, 11, 12, 13, 14, 14, 14, 15, 16, 17, 18, 19, 20, 20, 20, 20, 20, 20, 20,
    20, 20, 20, 21, 21, 22, 22, 22, 22, 22, 23, 23, 23, 23, 23, 23, 23, 23, 23, 23, 23, 23, 23,
    23, 23, 23, 23, 23, 23, 23, 23, 23, 23, 23, 23, 23, 24, 25, 26, 27, 28, 29, 30, 30, 30, 30,
    30, 30, 30, 30, 30, 30, 30, 30, 30, 30, 30, 30, 30, 30, 30, 30, 30, 30, 30, 30, 30, 30, 31,
    32, 33, 34, 34, 34, 34, 34, 34, 34, 34, 34, 34, 34, 34, 34, 34, 34, 34, 34, 34, 34, 34, 34,
    34, 34, 34, 34, 34, 34, 34, 34, 34, 34, 34, 34, 34, 34, 34, 34, 34, 34, 34, 34, 34, 34, 34,
    34, 34, 34, 34, 34, 34, 34, 34, 34, 34, 34, 34, 34, 34, 34, 34, 34, 34, 34, 34, 34, 34, 34,
    34, 34, 34, 34, 34, 34, 34, 34, 34, 34, 34, 34, 34, 34, 34, 34, 34, 34, 34, 34, 34, 34, 34,
    34, 34, 34, 34, 34, 34, 34, 34, 34, 34, 34, 34, 34, 34, 34, 34, 34, 34, 34, 34, 34, 34, 34,
    34, 34, 34, 34, 34, 34, 34, 34, 34, 34, 34, 34, 34, 34, 34, 34, 34]

/-- A row of `s_dfa__` without a continuation. -/
def finalRow (rule : Int) : List Int :=
  List.replicate 36 (-1) ++ [rule, -1]

def initialRows : List (List Int) :=
  [[-1, 1, 1, -1, 1, -1, 1, 2, 3, 4, -1, 2, 2, 5, 2, -1, 6, 2, 7, 8, 4, 2, -1, 4, -1, -1, -1, 2,
     4, -1, 4, 2, -1, 2, -1, -1, -1, -1],
    [-1, 1, 1, -1, 1, -1, 1, -1, -1, -1, -1, -1, -1, -1, -1, -1, -1, -1, -1, -1, -1, -1, -1, -1,
     -1, -1, -1, -1, -1, -1, -1, -1, -1, -1, -1, -1, 0, -1],
    finalRow 25, finalRow 6, finalRow 19, finalRow 10, finalRow 14,
    [-1, -1, -1, -1, -1, -1, -1, -1, -1, -1, -1, -1, -1, -1, -1, -1, -1, -1, 9, -1, -1, -1, -1,
     -1, -1, -1, -1, -1, -1, -1, -1, -1, -1, -1, -1, -1, -1, -1],
    finalRow 2, finalRow 18]

def squotedstringRows : List (List Int) :=
  [[-1, 1, -1, 1, 1, 1, 1, 1, 1, 1, 1, 1, 1, 2, 1, 1, 1, 1, 1, 1, 1, 1, 1, 1, 1, 3, 1, 1, 1, 1,
     1, 1, 1, 1, 1, -1, -1, -1],
    finalRow 13, finalRow 12, finalRow 11]

def dquotedstringRows : List (List Int) :=
  [[-1, 1, -1, 1, 1, 1, 1, 1, 2, 1, 1, 1, 1, 1, 1, 1, 1, 1, 1, 1, 1, 1, 1, 1, 1, 3, 1, 1, 1, 1,
     1, 1, 1, 1, 1, -1, -1, -1],
    finalRow 9, finalRow 8, finalRow 7]

def regexRows : List (List Int) :=
  [[-1, 1, -1, 1, 1, 1, 1, 1, 1, 1, 1, 1, 1, 1, 1, 1, 1, 1, 1, 2, 1, 1, 1, 1, 1, 3, 1, 1, 1, 1,
     1, 1, 1, 1, 1, -1, -1, -1],
    finalRow 5, finalRow 4, finalRow 3]

def escapeRows : List (List Int) :=
  [[-1, 1, -1, 1, 1, 1, 1, 1, 1, 1, 1, 1, 1, 1, 1, 1, 1, 1, 1, 1, 1, 1, 1, 1, 1, 1, 1, 1, 1, 1,
     1, 1, 1, 1, 1, -1, -1, -1],
    finalRow 1]

def setoperationRows : List (List Int) :=
  [[-1, 1, -1, 1, 1, 1, 1, 1, 1, 1, 1, 1, 2, 1, 1, 1, 1, 3, 1, 1, 1, 1, 1, 1, 1, 1, 1, 1, 1, 1,
     1, 1, 1, 1, 1, -1, -1, -1],
    finalRow 17, finalRow 16, finalRow 15]

def barewordRows : List (List Int) :=
  [[-1, 1, -1, 1, 1, 1, 1, 1, 1, 2, 1, 1, 1, 1, 1, 1, 1, 2, 3, 1, 2, 1, 1, 2, 1, 1, 1, 1, 2, 1,
     2, 1, 1, 1, 1, 4, -1, -1],
    finalRow 23, finalRow 20,
    [-1, -1, -1, -1, -1, -1, -1, -1, -1, -1, -1, -1, -1, -1, -1, -1, -1, -1, 5, -1, -1, -1, -1,
     -1, -1, -1, -1, -1, -1, -1, -1, -1, -1, -1, -1, -1, 22, -1],
    finalRow 24, finalRow 21]

/-- `s_dfa__`, the rows of all the start conditions. -/
def dfa : List (List Int) :=
  initialRows ++ squotedstringRows ++ dquotedstringRows ++ regexRows ++ escapeRows ++
    setoperationRows ++ barewordRows

/-- `s_dfaBase__`. -/
def dfaBase : StartCondition → Nat
  | .initial => 0
  | .squotedstring => 10
  | .dquotedstring => 14
  | .regex => 18
  | .escape => 22
  | .setoperation => 24
  | .bareword => 28

/-- `s_rangeOfEOF__`. -/
def rangeOfEof : Nat := 35

/-- `s_finIdx__`. -/
def finIdx : Nat := 36

/-- `getRange__` on what `get__` gives, which is nothing at the end. -/
def getRange : Option Char → Nat
  | none => rangeOfEof
  | some ch => ranges.getD ch.toNat 34

/-- An entry of `d_dfaBase__`. -/
def entry (startCondition : StartCondition) (state column : Nat) : Option Nat :=
  let value := (dfa.getD (dfaBase startCondition + state) []).getD column (-1)
  if value = -1 then none else some value.toNat

/-- The rule that is matched in a state.  There are none for the beginning of
a line, so the flag for it is left out. -/
def ruleAt (startCondition : StartCondition) (state : Nat) : Option Nat :=
  entry startCondition state finIdx

/-! ## The turns of the loop -/

/-- The scanner as `reset__` leaves it.  The input is the characters put back
and those not yet read, `d_matched` and the rest are the members' own. -/
structure Scanner where
  startCondition : StartCondition
  statestack : List StartCondition
  matched : List Char
  input : List Char
  deriving DecidableEq, Repr

/-- A scanner on a text. -/
def scannerOn (input : List Char) : Scanner :=
  ⟨.initial, [], [], input⟩

/-- `FinalData`. -/
structure FinalData where
  rule : Nat
  length : Nat
  deriving DecidableEq, Repr

/-- `ActionType__`, of which the first has the next state. -/
inductive ActionType where
  | advance (nextState : Nat)
  | matched
  | echoFirst
  | echoCh
  | leave
  deriving DecidableEq, Repr

/-- `updateFinals__`. -/
def updateFinals (startCondition : StartCondition) (state : Nat) (matched : List Char)
    (final : Option FinalData) : Option FinalData :=
  match ruleAt startCondition state with
  | some rule => some ⟨rule, matched.length⟩
  | none => final

/-- `actionType__`. -/
def actionType (startCondition : StartCondition) (state range : Nat) (matched : List Char)
    (final : Option FinalData) : ActionType :=
  match entry startCondition state range with
  | some nextState => .advance nextState
  | none =>
      if final.isSome then .matched
      else if matched ≠ [] then .echoFirst
      else if range ≠ rangeOfEof then .echoCh
      else .leave

/-- What has been read when there is no continuation: the action, the last
character, if it is not the end, and the members. -/
structure Reading where
  action : ActionType
  ch : Option Char
  matched : List Char
  final : Option FinalData
  input : List Char
  deriving DecidableEq, Repr

/-- The turns that end in `continue__`, and the action of the one after them.
No state has a continuation at the end that can be continued there again. -/
def readOn (startCondition : StartCondition) :
    Nat → List Char → Option FinalData → List Char → Reading
  | state, matched, final, ch :: input =>
      let final := updateFinals startCondition state matched final
      match actionType startCondition state (getRange (some ch)) matched final with
      | .advance nextState => readOn startCondition nextState (matched ++ [ch]) final input
      | action => ⟨action, some ch, matched, final, input⟩
  | state, matched, final, [] =>
      let final := updateFinals startCondition state matched final
      match actionType startCondition state (getRange none) matched final with
      | .advance nextState =>
          let final := updateFinals startCondition nextState matched final
          ⟨actionType startCondition nextState (getRange none) matched final, none, matched,
            final, []⟩
      | action => ⟨action, none, matched, final, []⟩

/-- `reRead` of a text.  Its characters are signed, and those that are negative
are not put back. -/
def reRead (text input : List Char) : List Char :=
  text.filter (fun ch => ch.toNat < 0x80) ++ input

/-- `reRead` of the character read last. -/
def reReadCh (ch : Option Char) (input : List Char) : List Char :=
  ch.toList ++ input

/-- The tokens, of which those without a name are characters. -/
inductive TokenKind where
  | function
  | bareword
  | regex
  | singlequoted
  | doublequoted
  | sequence
  | char (ch : Char)
  deriving DecidableEq, Repr

/-- A token and its `matched()`. -/
@[ext]
structure Token where
  kind : TokenKind
  text : List Char
  deriving DecidableEq, Repr

/-- The scanner after an action, with `d_more` and the token returned. -/
structure Acted where
  scanner : Scanner
  more : Bool
  kind : Option TokenKind
  deriving DecidableEq, Repr

namespace Scanner

def begin (scanner : Scanner) (startCondition : StartCondition) : Scanner :=
  { scanner with startCondition }

/-- `discard`, which also sets `d_more`. -/
def discard (scanner : Scanner) (n : Nat) : Scanner :=
  { scanner with matched := scanner.matched.take (scanner.matched.length - n) }

def push (scanner : Scanner) (startCondition : StartCondition) : Scanner :=
  { scanner with statestack := startCondition :: scanner.statestack }

/-- `begin(statestack.top())` and `statestack.pop()`. -/
def beginTop (scanner : Scanner) : Scanner :=
  { scanner with
    startCondition := scanner.statestack.headD .initial
    statestack := scanner.statestack.tail }

def redo (scanner : Scanner) (nChars : Nat) : Scanner :=
  let first := scanner.matched.length - nChars
  { scanner with
    matched := scanner.matched.take first
    input := reRead (scanner.matched.drop first) scanner.input }

end Scanner

/-- What the scanner takes from outside: the names of `function_st_`. -/
abbrev SymbolTable := List Char → Bool

/-- The end of the actions of the words. -/
def wordKind (functions : SymbolTable) (matched : List Char) : TokenKind :=
  if functions matched then .function else .bareword

/-- `executeAction__`. -/
def executeAction (functions : SymbolTable) (scanner : Scanner) : Nat → Acted
  | 1 => ⟨scanner.beginTop, true, none⟩
  | 2 => ⟨scanner.begin .regex, false, none⟩
  | 3 => ⟨((scanner.discard 1).push .regex).begin .escape, true, none⟩
  | 4 => ⟨(scanner.discard 1).begin .initial, true, some .regex⟩
  | 5 => ⟨scanner, true, none⟩
  | 6 => ⟨scanner.begin .dquotedstring, false, none⟩
  | 7 => ⟨((scanner.discard 1).push .dquotedstring).begin .escape, true, none⟩
  | 8 => ⟨(scanner.discard 1).begin .initial, true, some .doublequoted⟩
  | 9 => ⟨scanner, true, none⟩
  | 10 => ⟨scanner.begin .squotedstring, false, none⟩
  | 11 => ⟨((scanner.discard 1).push .squotedstring).begin .escape, true, none⟩
  | 12 => ⟨(scanner.discard 1).begin .initial, true, some .singlequoted⟩
  | 13 => ⟨scanner, true, none⟩
  | 14 => ⟨scanner.begin .setoperation, false, none⟩
  | 15 => ⟨scanner.begin .initial, false, some (.char '-')⟩
  | 16 => ⟨scanner.begin .initial, false, some (.char '&')⟩
  | 17 => ⟨(scanner.redo 1).begin .initial, false, some (.char ',')⟩
  | 18 => ⟨scanner, false, some .sequence⟩
  | 19 => ⟨scanner.begin .bareword, true, none⟩
  | 20 => ⟨scanner, true, none⟩
  | 21 =>
      let scanner := (scanner.redo 2).begin .initial
      ⟨scanner, false, some (wordKind functions scanner.matched)⟩
  | 22 => ⟨scanner, true, none⟩
  | 23 =>
      let scanner := (scanner.redo 1).begin .initial
      ⟨scanner, false, some (wordKind functions scanner.matched)⟩
  | 24 =>
      let scanner := scanner.begin .initial
      ⟨scanner, false, some (wordKind functions scanner.matched)⟩
  | 25 => ⟨scanner, false, some (.char (scanner.matched.headD (Char.ofNat 0)))⟩
  | _ => ⟨scanner, false, none⟩

/-- `reset__` after an action. -/
def Acted.reset (acted : Acted) : Scanner :=
  { acted.scanner with matched := if acted.more then acted.scanner.matched else [] }

/-- The end of a turn after an action: the loop goes on, or the token is
returned and the next call of `lex__` begins. -/
def Acted.turn (acted : Acted) : OutputRun.Turn Scanner Token :=
  match acted.kind with
  | none => .quiet acted.reset
  | some kind => .emit ⟨kind, acted.scanner.matched⟩ acted.reset

open OutputRun

/-- The loop of `lex__` from one `reset__` to the next. -/
def lexTurn (functions : SymbolTable) (scanner : Scanner) : Turn Scanner Token :=
  let reading := readOn scanner.startCondition 0 scanner.matched none scanner.input
  match reading.action with
  | .matched =>
      -- `matched__`: the last character goes back, and what the rule does not cover.
      let final := reading.final.getD ⟨0, 0⟩
      let scanner := { scanner with
        matched := reading.matched.take final.length
        input := reRead (reading.matched.drop final.length) (reReadCh reading.ch reading.input) }
      (executeAction functions scanner final.rule).turn
  | .echoFirst =>
      .quiet { scanner with
        matched := []
        input := reRead (reading.matched.drop 1) (reReadCh reading.ch reading.input) }
  | .echoCh => .quiet { scanner with matched := [], input := reading.input }
  | _ => .finish

end RangeScanner

end Rangexx
