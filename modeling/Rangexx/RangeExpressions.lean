import Mathlib.Data.String.Basic
import Rangexx.SequenceExpansion
import Rangexx.SortedLists

/-!
# Range expressions

The syntax trees of range expressions, and `RangeExpandingVisitor` with
`FetchChildrenVisitor`, which evaluate them.  A tree comes from the parser with
no children on any node, so evaluating a node and fetching its children gives
the names that the visit appended.
-/

namespace Rangexx

/-- A function that expressions can call, on the name of the environment and
the arguments. -/
abbrev RangeFunction :=
  String → List (List String) → Except ExpansionError (List String)

inductive ASTNode where
  | word (word : String)
  | literal (word : String)
  | regex (word : String) (positive : Bool)
  | null
  | union (lhs rhs : ASTNode)
  | difference (lhs rhs : ASTNode)
  | intersection (lhs rhs : ASTNode)
  | sequence (lhs rhs : ASTNode)
  | expand (child : ASTNode)
  | getCluster (child : ASTNode)
  | admin (child : ASTNode)
  | group (child : ASTNode)
  | braceExpand (left center right : ASTNode)
  | functionArguments (args : List ASTNode)
  | function (fn : RangeFunction) (args : List ASTNode)
  | keyExpand (lhs rhs : ASTNode)

namespace ASTNode

/-- `boost::get<ASTWord>`. -/
def asWord : ASTNode → Option String
  | .word text => some text
  | _ => none

/-- `boost::get<ASTRegex>`. -/
def asRegex : ASTNode → Option (String × Bool)
  | .regex text positive => some (text, positive)
  | _ => none

def isKeyExpand : ASTNode → Bool
  | .keyExpand _ _ => true
  | _ => false

end ASTNode

/-- The visitor, with what it takes from outside. -/
structure ExpressionVisitor extends RangeExpandingVisitor where
  envName : String
  /-- `boost::regex_search` with a `boost::regex`, or the text of its error. -/
  regex : String → Except String (String → Bool)
  /-- The order in which an `unordered_map` with some keys is read. -/
  mapOrder : List String → List String
  mapOrder_perm : ∀ names, (mapOrder names).Perm names

namespace ExpressionVisitor

open RangeExpandingVisitor RangeApi SortedLists

variable (visitor : ExpressionVisitor)

/-- `get_node` on a child with its prefix. -/
def resolve (child : String) : Except ExpansionError Node :=
  match visitor.graph.getNode (visitor.prefixChild child) with
  | some node => .ok node
  | none => .error (.thrown (.invalidRangeExpression
      ("cannot resolve node" ++ visitor.prefixChild child)))

/-- The loops over the children that append the edges of each. -/
def edgeNames (direction : Direction) : List String → Except ExpansionError (List String)
  | [] => .ok []
  | child :: rest => do
      let node ← visitor.resolve child
      let names ← edgeNames direction rest
      return (node.neighbours direction visitor.graph.inst).map Node.name ++ names

/-- The loop of `operator()(ASTKeyExpand&)`. -/
def keyValues (key : ASTNode) : List String → Except ExpansionError (List String)
  | [] => .ok []
  | child :: rest => do
      let node ← visitor.resolve child
      let tags := node.tags visitor.graph.inst
      match key.asWord with
      | none => .error .badGet
      | some word =>
          let values ← keyValues key rest
          if word = "KEYS" then return visitor.mapOrder tags.keys ++ values
          else return (tags.lookup word).getD [] ++ values

/-- `regex_filter`. -/
def regexFilter (word : String) (positive : Bool) (lchildren : List String) :
    Except ExpansionError (List String) :=
  let positive := !positive
  match visitor.regex word with
  | .error text => .error (.thrown (.invalidRangeExpression text))
  | .ok search => .ok (lchildren.filter fun w => if positive then !search w else search w)

/-- The products of `operator()(ASTBraceExpand&)`. -/
def braceProducts (lchildren cchildren rchildren : List String) : List String :=
  let tmp :=
    if lchildren ≠ [] then
      lchildren.flatMap fun lchild => cchildren.map fun cchild => lchild ++ cchild
    else cchildren
  if rchildren ≠ [] then tmp.flatMap fun t => rchildren.map fun rchild => t ++ rchild else tmp

mutual

/-- The visit of a node and its children. -/
def children : ASTNode → Except ExpansionError (List String)
  | .word word => .ok [word]
  | .literal word => .ok [word]
  | .regex word _ => .ok [word]
  | .null => .ok []
  | .union lhs rhs => do
      let lchildren ← children lhs
      let rchildren ← children rhs
      return union (sorted lchildren) (sorted rchildren)
  | .difference lhs rhs => do
      let lchildren ← children lhs
      match rhs.asRegex with
      | some (word, positive) =>
          -- The flag is flipped in the tree; nothing reads it there again.
          visitor.regexFilter word (!positive) (sorted lchildren)
      | none =>
          let rchildren ← children rhs
          return difference (sorted lchildren) (sorted rchildren)
  | .intersection lhs rhs => do
      let lchildren ← children lhs
      match rhs.asRegex with
      | some (word, positive) => visitor.regexFilter word positive (sorted lchildren)
      | none =>
          let rchildren ← children rhs
          return intersection (sorted lchildren) (sorted rchildren)
  | .sequence lhs rhs =>
      match lhs.asWord, rhs.asWord with
      | some lword, some rword => expandSequence lword rword
      | _, _ => .error .badGet
  | .expand child => do
      let found ← children child
      if child.isKeyExpand then return unique (sorted found)
      else
        let names ← visitor.edgeNames .forward found
        return unique (sorted names)
  | .getCluster child => do
      let found ← children child
      visitor.edgeNames .reverse found
  | .admin child => do
      let found ← children child
      match visitor.admins found [] with
      | .error error => .error (.thrown error)
      | .ok admins => return visitor.mapOrder admins
  | .group child => children child
  | .braceExpand left center right => do
      let lchildren ← children left
      let cchildren ← children center
      let rchildren ← children right
      return braceProducts lchildren cchildren rchildren
  | .functionArguments args => do
      let _ ← argumentVecs args
      return []
  | .function fn args => do
      let vecs ← argumentVecs args
      fn visitor.envName vecs
  | .keyExpand lhs rhs => do
      let found ← children lhs
      visitor.keyValues rhs found

/-- The arguments of a function, of which those that are empty are left out. -/
def argumentVecs : List ASTNode → Except ExpansionError (List (List String))
  | [] => .ok []
  | arg :: rest => do
      let found ← children arg
      let vecs ← argumentVecs rest
      return if found = [] then vecs else found :: vecs

end

end ExpressionVisitor

end Rangexx
