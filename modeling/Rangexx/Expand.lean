import Rangexx.PathUnfolding
import Rangexx.ReadStarts

/-!
# Expanding a node

`expand` returns a node with everything below it as one nested object.  It
keeps a stack of frames, each with the edges still to follow and the object as
far as it is built, and leaves out a child that is on the stack.
-/

namespace Rangexx

open StateProgram Worklist PathUnfolding

namespace RangeApi

open Api

/-- `fetch_all_keys`. -/
def fetchAllKeys (envName nodeName : String) (version : Option Nat) :
    Api (AList fun _ : String => List String) := do
  graphdb .primary version
  match ← getNode .primary envName nodeName with
  | none => StateProgram.raise (.nodeNotFound (prefixedNodeName envName nodeName))
  | some node => StateProgram.read fun world => node.tags world.primary.inst

/-- The entries of a nested object other than its children. -/
structure NodeObject where
  type : String
  name : String
  tags : AList fun _ : String => List String
  dependencies : List String
  deriving DecidableEq

/-- A nested object; the children are entered under their names. -/
abbrev Expansion :=
  Tree String NodeObject

/-- `children[name] = child`. -/
def addChild (name : String) (child : Expansion) : Expansion → Expansion
  | .node object children =>
      .node object ((name, child) :: children.filter fun entry => entry.1 ≠ name)

/-- `PostOrderDFSStackFrame`; the object is missing until the frame is at the
top for the first time. -/
structure StackFrame where
  name : String
  outEdges : List String
  ret : Option Expansion

/-- The edges a frame loads. -/
def frameEdges (inst : GraphInstance) (wanted : Option Nat) (name : String) : List String :=
  if (inst.readNode name).nodeType = .cluster ∨ (inst.readNode name).nodeType = .environment then
    nextNames inst .forward wanted name
  else []

def StackFrame.ofName (inst : GraphInstance) (wanted : Option Nat) (name : String) :
    StackFrame where
  name := name
  outEdges := frameEdges inst wanted name
  ret := none

structure ExpandState where
  stack : List StackFrame
  onstack : List String

/-- The names in `dependency->get_node(name)->forward_edges()`. -/
def dependencyNames (dependency : GraphDB) (name : String) : List String :=
  match dependency.getNode name with
  | none => []
  | some node => (node.neighbours .forward dependency.inst).map Node.name

/-- The object a frame starts with. -/
def initialObject (envName nodeName : String) (version : Option Nat) (name : String) :
    Api Expansion := do
  let tags ← fetchAllKeys envName nodeName version
  StateProgram.read fun world => .node {
    type := (world.primary.inst.readNode name).nodeType.name
    name := unprefixNodeName envName name
    tags := tags
    dependencies := dependencyNames world.dependency name } []

/-- Enter the object of a child in the one of its parent. -/
def StackFrame.enter (parent : StackFrame) (name : String) (child : Option Expansion) :
    StackFrame :=
  { parent with ret := parent.ret.bind (fun object => child.map (addChild name · object)) }

/-- Pop the top frame and enter its object in the one below, or return it. -/
def popFrame (top : StackFrame) (below : List StackFrame) (onstack : List String) :
    ExpandState ⊕ Option Expansion :=
  match below with
  | [] => .inr top.ret
  | parent :: rest => .inl ⟨parent.enter top.name top.ret :: rest, onstack.erase top.name⟩

/-- The second half of a round: follow the last edge of the top frame, or pop
it. -/
def advance (inst : GraphInstance) (wanted depth : Option Nat) (top : StackFrame)
    (below : List StackFrame) (onstack : List String) : ExpandState ⊕ Option Expansion :=
  match top.outEdges.getLast? with
  | none => popFrame top below onstack
  | some edge =>
      if depth.all fun depth => below.length + 1 ≤ depth then
        let rest := { top with outEdges := top.outEdges.dropLast } :: below
        if edge ∈ onstack then .inl ⟨rest, onstack⟩
        else .inl ⟨StackFrame.ofName inst wanted edge :: rest, onstack⟩
      else popFrame top below onstack

/-- One round of the loop of `expand`. -/
def expandRound (envName nodeName : String) (version wanted depth : Option Nat)
    (state : ExpandState) : Api (ExpandState ⊕ Option Expansion) :=
  match state.stack with
  | [] => return .inr none
  | top :: below => do
      let ret ← if top.name ∈ state.onstack then pure top.ret
        else some <$> initialObject envName nodeName version top.name
      StateProgram.read fun world => advance world.primary.inst wanted depth
        { top with ret := ret } below (state.onstack.insert top.name)

/-- The loop of `expand`, for so many rounds; `none` when they are not
enough. -/
def expandLoop (envName nodeName : String) (version wanted depth : Option Nat) :
    Nat → ExpandState → Api (Option (Option Expansion))
  | 0, _ => return none
  | rounds + 1, state => do
      match ← expandRound envName nodeName version wanted depth state with
      | .inl state => expandLoop envName nodeName version wanted depth rounds state
      | .inr result => return some result

/-- `expand`, for so many rounds of its loop.  A missing depth is the source's
`-1`, which no stack reaches. -/
def expand (rounds : Nat) (envName nodeName : String) (version depth : Option Nat) :
    Api (Option (Option Expansion)) := do
  graphdb .primary version
  graphdb .dependency version
  match ← getNode .primary envName nodeName with
  | none => StateProgram.raise (.nodeNotFound (prefixedNodeName envName nodeName))
  | some start =>
      let frame ← StateProgram.read fun world =>
        StackFrame.ofName world.primary.inst start.wantedVersion start.name
      expandLoop envName nodeName version start.wantedVersion depth rounds ⟨[frame], []⟩

/-! ## One round -/

variable {world opened both : World} {version wanted depth : Option Nat}
  {envName nodeName : String} {start : Node}

/-- The graph the children are read from is the one that was opened, and so is
the dependency graph. -/
structure StillOpened (opened both world : World) : Prop where
  told : Told opened world
  dependency : world.dependency = both.dependency

theorem StillOpened.inst (isOpened : StillOpened opened both world) :
    world.primary.inst = opened.primary.inst :=
  congrArg Tables.primary isOpened.told.tables

/-- The object of a name, with the tags of the node the call starts from. -/
def expandedObject (opened both : World) (envName : String) (start : Node) (name : String) :
    NodeObject where
  type := (opened.primary.inst.readNode name).nodeType.name
  name := unprefixNodeName envName name
  tags := start.tags opened.primary.inst
  dependencies := dependencyNames both.dependency name

theorem Starts.fetchAllKeys_again (starts : Starts world version envName nodeName opened start)
    {told : World} (isTold : Told opened told) :
    ∃ again, fetchAllKeys envName nodeName version told =
        (.ok (start.tags opened.primary.inst), again) ∧
      Told opened again ∧ again.dependency = told.dependency := by
  obtain ⟨again, opens, samePrimary, others⟩ := isTold.again starts.opens
  have found := starts.getNode_eq
  rw [getNode_apply] at found
  have foundAgain : getNode .primary envName nodeName again = (.ok (some start), again) := by
    rw [getNode_apply, samePrimary, (Prod.mk.inj found).1]
  refine ⟨again, ?_, isTold.opens starts.opens opens, others .dependency (by decide)⟩
  unfold fetchAllKeys
  rw [bind_of_ok opens, bind_of_ok foundAgain]
  have samePrimary' : again.primary = opened.primary := samePrimary
  change (Except.ok (start.tags again.primary.inst), again) = _
  rw [samePrimary']

theorem Starts.initialObject_again
    (starts : Starts world version envName nodeName opened start) {told : World}
    (isOpened : StillOpened opened both told) (name : String) :
    ∃ again, initialObject envName nodeName version name told =
        (.ok (.node (expandedObject opened both envName start name) []), again) ∧
      StillOpened opened both again := by
  obtain ⟨again, fetched, isTold, sameDependency⟩ := starts.fetchAllKeys_again isOpened.told
  have againOpened : StillOpened opened both again := ⟨isTold, sameDependency.trans isOpened.dependency⟩
  refine ⟨again, ?_, againOpened⟩
  unfold initialObject
  rw [bind_of_ok fetched, read_apply, againOpened.inst, againOpened.dependency]
  rfl

end RangeApi

end Rangexx
