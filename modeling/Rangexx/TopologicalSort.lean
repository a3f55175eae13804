import Rangexx.ExpandUnfolding
import Rangexx.PostOrder
import Rangexx.ReachabilityListings
import Rangexx.StoreContracts

/-!
# Topological sort

`environment_topological_sort` searches the dependency graph from the nodes
below an environment, keeps marks for what it has finished and what it is at,
and returns the names in the reverse of the order in which they were finished.
Its frames follow the edges of clusters and environments only.
-/

namespace Rangexx

open StateProgram Worklist PathUnfolding PostOrder

namespace RangeApi

open Api

structure SortState where
  stack : List StackFrame
  onstack : List String
  visited : List String
  visiting : List String
  sorted : List String

/-- A round of the inner loop, with the frame at the top of the stack.  It asks
whether the node the search started from was visited. -/
def sortRound (inst : GraphInstance) (wanted : Option Nat) (envName start : String)
    (top : StackFrame) (below : List StackFrame) (state : SortState) :
    Except ApiError SortState :=
  if start ∈ state.visited then .ok { state with stack := below }
  else
    let onstack := state.onstack.insert top.name
    match top.outEdges.getLast? with
    | none => .ok {
        stack := below
        onstack := onstack.erase top.name
        visited := state.visited.insert top.name
        visiting := state.visiting.erase top.name
        sorted := state.sorted ++ [unprefixNodeName envName top.name] }
    | some edge =>
        let rest := { top with outEdges := top.outEdges.dropLast } :: below
        if edge ∈ onstack then .error (.graphCycle "dependency cycle detected")
        else if edge ∉ state.visited ∧ edge ∉ state.visiting then .ok {
          stack := StackFrame.ofName inst wanted edge :: rest
          onstack := onstack
          visited := state.visited
          visiting := state.visiting.insert top.name
          sorted := state.sorted }
        else .ok { state with stack := rest, onstack := onstack }

/-- The inner loop, for so many rounds; `none` when they are not enough. -/
def sortLoop (inst : GraphInstance) (wanted : Option Nat) (envName start : String) :
    Nat → SortState → Option (Except ApiError SortState)
  | 0, _ => none
  | rounds + 1, state =>
      match state.stack with
      | [] => some (.ok state)
      | top :: below =>
          match sortRound inst wanted envName start top below state with
          | .error error => some (.error error)
          | .ok state => sortLoop inst wanted envName start rounds state

/-- A new stack with a frame for the node a search starts from. -/
def SortState.begin (inst : GraphInstance) (wanted : Option Nat) (start : String)
    (state : SortState) : SortState :=
  { state with
    stack := [StackFrame.ofName inst wanted start]
    onstack := []
    visiting := state.visiting.insert start }

/-- The loop over the dependency nodes, with so many rounds for each. -/
def sortNodes (inst : GraphInstance) (envName : String) (rounds : Nat) :
    List (Option Node) → SortState → Option (Except ApiError SortState)
  | [], state => some (.ok state)
  | none :: _, _ => some (.error .nullPointer)
  | some node :: rest, state =>
      match sortLoop inst node.wantedVersion envName node.name rounds
          (state.begin inst node.wantedVersion node.name) with
      | some (.ok state) => sortNodes inst envName rounds rest state
      | other => other

/-- The names below a node of the primary graph, without environments, in the
order of the search. -/
def sortedNames (inst : GraphInstance) (node : Node) : List String :=
  (search inst .forward node []).filter fun name =>
    (inst.readNode name).nodeType ≠ .environment

/-- `environment_topological_sort`, for so many rounds of its inner loop. -/
def environmentTopologicalSort (rounds : Nat) (envName : String) (version : Option Nat) :
    Api (Option (List String)) := do
  graphdb .primary version
  graphdb .dependency version
  match ← Api.getNode .primary envName with
  | none => StateProgram.raise (.nodeNotFound envName)
  | some node =>
      let nodes ← StateProgram.read fun world =>
        (sortedNames world.primary.inst node).map world.dependency.getNode
      match ← StateProgram.read fun world =>
        sortNodes world.dependency.inst envName rounds nodes ⟨[], [], [], [], []⟩ with
      | none => return none
      | some (.error error) => StateProgram.raise error
      | some (.ok state) => return some state.sorted.reverse

/-! ## Rounds -/

section Rounds

variable {inst : GraphInstance} {wanted : Option Nat} {envName start : String}

/-- The exception of a cycle. -/
def cycleDetected : ApiError :=
  .graphCycle "dependency cycle detected"

/-- After some rounds the inner loop goes on from another state. -/
def RunsTo (inst : GraphInstance) (wanted : Option Nat) (envName start : String)
    (state after : SortState) : Prop :=
  ∃ rounds, ∀ more, sortLoop inst wanted envName start (rounds + more) state =
    sortLoop inst wanted envName start more after

/-- After some rounds the inner loop ends with the exception of a cycle. -/
def EndsInCycle (inst : GraphInstance) (wanted : Option Nat) (envName start : String)
    (state : SortState) : Prop :=
  ∃ rounds, ∀ more, sortLoop inst wanted envName start (rounds + more) state =
    some (.error cycleDetected)

theorem RunsTo.refl (state : SortState) : RunsTo inst wanted envName start state state :=
  ⟨0, fun more => by rw [Nat.zero_add]⟩

theorem RunsTo.trans {state between after : SortState}
    (first : RunsTo inst wanted envName start state between)
    (second : RunsTo inst wanted envName start between after) :
    RunsTo inst wanted envName start state after := by
  obtain ⟨rounds, runs⟩ := first
  obtain ⟨roundsToo, runsToo⟩ := second
  exact ⟨rounds + roundsToo, fun more => by rw [Nat.add_assoc, runs, runsToo]⟩

theorem RunsTo.endsInCycle {state between : SortState}
    (first : RunsTo inst wanted envName start state between)
    (second : EndsInCycle inst wanted envName start between) :
    EndsInCycle inst wanted envName start state := by
  obtain ⟨rounds, runs⟩ := first
  obtain ⟨roundsToo, ends⟩ := second
  exact ⟨rounds + roundsToo, fun more => by rw [Nat.add_assoc, runs, ends]⟩

theorem RunsTo.round {state after : SortState} {top : StackFrame} {below : List StackFrame}
    (stack : state.stack = top :: below)
    (round : sortRound inst wanted envName start top below state = .ok after) :
    RunsTo inst wanted envName start state after := by
  refine ⟨1, fun more => ?_⟩
  rw [Nat.add_comm, sortLoop, stack]
  dsimp only
  rw [round]

theorem EndsInCycle.round {state : SortState} {top : StackFrame} {below : List StackFrame}
    (stack : state.stack = top :: below)
    (round : sortRound inst wanted envName start top below state = .error cycleDetected) :
    EndsInCycle inst wanted envName start state := by
  refine ⟨1, fun more => ?_⟩
  rw [Nat.add_comm, sortLoop, stack]
  dsimp only
  rw [round]

/-- The inner loop performs a search: it ends in a cycle when the search has no
result, and otherwise goes on from a state in which the result is finished. -/
structure Performs (inst : GraphInstance) (wanted : Option Nat) (envName start : String)
    (state : SortState) (result : Option (List String))
    (ended : List String → SortState → Prop) : Prop where
  cycle : result = none → EndsInCycle inst wanted envName start state
  finished : ∀ done, result = some done →
    ∃ after, RunsTo inst wanted envName start state after ∧ ended done after

namespace Performs

variable {state between after : SortState} {result : Option (List String)}
  {ended middle : List String → SortState → Prop}

theorem fails (ends : EndsInCycle inst wanted envName start state) :
    Performs inst wanted envName start state none ended :=
  ⟨fun _ => ends, by simp⟩

theorem ends {done : List String} (runs : RunsTo inst wanted envName start state after)
    (isEnded : ended done after) : Performs inst wanted envName start state (some done) ended := by
  refine ⟨by simp, ?_⟩
  rintro _ ⟨⟩
  exact ⟨after, runs, isEnded⟩

theorem after_runs (runs : RunsTo inst wanted envName start state between)
    (performs : Performs inst wanted envName start between result ended) :
    Performs inst wanted envName start state result ended := by
  refine ⟨fun isNone => runs.endsInCycle (performs.cycle isNone), fun done isDone => ?_⟩
  obtain ⟨after, runsOn, isEnded⟩ := performs.finished done isDone
  exact ⟨after, runs.trans runsOn, isEnded⟩

theorem bind (performs : Performs inst wanted envName start state result middle)
    {later : List String → Option (List String)}
    (onward : ∀ done between, middle done between →
      Performs inst wanted envName start between (later done) ended) :
    Performs inst wanted envName start state (result.bind later) ended := by
  cases isDone : result with
  | none => exact fails (performs.cycle isDone)
  | some done =>
      obtain ⟨between, runs, isMiddle⟩ := performs.finished done isDone
      exact after_runs runs (onward done between isMiddle)

end Performs

/-- The marks when the names on a path are on the stack and some are done. -/
structure Sorting (envName : String) (path done : List String) (state : SortState) : Prop where
  visited : ∀ name, name ∈ state.visited ↔ name ∈ done
  visiting : ∀ name ∈ state.visiting, name ∈ done ∨ name ∈ path
  sorted : state.sorted = done.map (unprefixNodeName envName)
  apart : ∀ name ∈ done, name ∉ path

variable {path done : List String} {name : String} {state : SortState}

/-- The frames below are at the top again, with their names marked as being on
the stack. -/
structure Popped (envName : String) (path : List String) (below : List StackFrame)
    (done : List String) (state : SortState) : Prop where
  sorting : Sorting envName path done state
  stack : state.stack = below
  onstack : state.onstack = path

/-- The frame of a name is at the top with some edges left. -/
structure AtFrame (envName name : String) (path : List String) (edges : List String)
    (below : List StackFrame) (done : List String) (state : SortState) : Prop where
  sorting : Sorting envName (name :: path) done state
  stack : state.stack = ⟨name, edges, none⟩ :: below
  onstack : state.onstack.insert name = name :: path

/-- From its push to its pop a frame finishes its name. -/
def Finishes (inst : GraphInstance) (wanted : Option Nat) (envName start : String) (levels : Nat)
    (path : List String) (name : String) : Prop :=
  ∀ done state below,
    AtFrame envName name path (frameEdges inst wanted name) below done state →
    Performs inst wanted envName start state
      (finish (frameEdges inst wanted) levels path name done) (Popped envName path below)

theorem Sorting.start_notVisited (sorting : Sorting envName path done state)
    (onPath : start ∈ path) : start ∉ state.visited :=
  fun visited => sorting.apart start ((sorting.visited start).mp visited) onPath

/-- A frame is pushed on top of a path. -/
theorem Sorting.push (sorting : Sorting envName path done state) (fresh : name ∉ path)
    (notDone : name ∉ done) (onstack : state.onstack = path) {edges : List String}
    {below : List StackFrame} (stack : state.stack = ⟨name, edges, none⟩ :: below) :
    AtFrame envName name path edges below done state := by
  refine ⟨⟨sorting.visited, fun other member => ?_, sorting.sorted, fun other member onPath => ?_⟩,
    stack, by rw [onstack, List.insert_of_not_mem fresh]⟩
  · exact (sorting.visiting other member).imp_right (List.mem_cons_of_mem name)
  · rcases List.mem_cons.mp onPath with rfl | above
    · exact notDone member
    · exact sorting.apart other member above

/-- The last round of a frame. -/
theorem AtFrame.pop {below : List StackFrame}
    (atFrame : AtFrame envName name path [] below done state) (fresh : name ∉ path)
    (onPath : start ∈ name :: path) :
    Performs inst wanted envName start state (some (done ++ [name]))
      (Popped envName path below) := by
  have sorting := atFrame.sorting
  refine @Performs.ends _ _ _ _ _ ⟨below, path, state.visited.insert name,
    state.visiting.erase name, state.sorted ++ [unprefixNodeName envName name]⟩ _ _
      (RunsTo.round atFrame.stack ?_) ⟨⟨fun other => ?_, fun other member => ?_, ?_,
        fun other member => ?_⟩, rfl, rfl⟩
  · unfold sortRound
    rw [if_neg (sorting.start_notVisited onPath)]
    dsimp only [List.getLast?_nil]
    rw [atFrame.onstack, List.erase_cons_head]
  · rw [List.mem_insert_iff, sorting.visited, List.mem_append, List.mem_singleton]
    exact or_comm
  · rcases sorting.visiting other (List.mem_of_mem_erase member) with isDone | onPath
    · exact Or.inl (List.mem_append_left _ isDone)
    · rcases List.mem_cons.mp onPath with rfl | above
      · exact Or.inl (List.mem_append_right _ (List.mem_singleton_self other))
      · exact Or.inr above
  · rw [List.map_append, ← sorting.sorted]
    rfl
  · rcases List.mem_append.mp member with isDone | isName
    · exact fun above => sorting.apart other isDone (List.mem_cons_of_mem name above)
    · rw [List.mem_singleton] at isName
      exact isName ▸ fresh

/-- Following the edges of the frame at the top, from the last to the first. -/
theorem AtFrame.follow {levels : Nat}
    (finishes : ∀ child, child ∉ name :: path →
      Finishes inst wanted envName start levels (name :: path) child)
    (onPath : start ∈ name :: path) (below : List StackFrame) (edges : List String)
    {done : List String} {state : SortState}
    (atFrame : AtFrame envName name path edges below done state) :
    Performs inst wanted envName start state
      (finishAll (finish (frameEdges inst wanted) levels (name :: path)) (name :: path) edges done)
      (AtFrame envName name path [] below) := by
  induction edges using List.reverseRecOn generalizing done state with
  | nil => exact Performs.ends (RunsTo.refl state) atFrame
  | append_singleton edges edge ih =>
      have sorting := atFrame.sorting
      have notVisited := sorting.start_notVisited onPath
      have again : (name :: path).insert name = name :: path :=
        List.insert_of_mem List.mem_cons_self
      rw [finishAll_append, finishAll, finishAll, Option.bind_some]
      by_cases closes : edge ∈ name :: path
      · -- the edge leads back to the path
        rw [if_pos closes, Option.bind_none]
        refine Performs.fails (EndsInCycle.round atFrame.stack ?_)
        unfold sortRound
        rw [if_neg notVisited]
        dsimp only
        rw [List.getLast?_concat, atFrame.onstack]
        dsimp only
        rw [if_pos closes]
        rfl
      · rw [if_neg closes]
        by_cases isDone : edge ∈ done
        · -- the edge leads to a finished name
          rw [if_pos isDone, Option.bind_some]
          have skips : RunsTo inst wanted envName start state
              { state with stack := ⟨name, edges, none⟩ :: below, onstack := name :: path } := by
            refine RunsTo.round atFrame.stack ?_
            unfold sortRound
            rw [if_neg notVisited]
            dsimp only
            rw [List.getLast?_concat, atFrame.onstack, List.dropLast_concat]
            dsimp only
            rw [if_neg closes, if_neg fun open' => open'.1 ((sorting.visited edge).mpr isDone)]
          exact Performs.after_runs skips
            (ih ⟨⟨sorting.visited, sorting.visiting, sorting.sorted, sorting.apart⟩, rfl, again⟩)
        · -- the edge leads to a new name
          rw [if_neg isDone]
          have notVisiting : edge ∉ state.visiting := fun visiting =>
            (sorting.visiting edge visiting).elim isDone closes
          have pushes : RunsTo inst wanted envName start state
              ⟨StackFrame.ofName inst wanted edge :: ⟨name, edges, none⟩ :: below, name :: path,
                state.visited, state.visiting.insert name, state.sorted⟩ := by
            refine RunsTo.round atFrame.stack ?_
            unfold sortRound
            rw [if_neg notVisited]
            dsimp only
            rw [List.getLast?_concat, atFrame.onstack, List.dropLast_concat]
            dsimp only
            rw [if_neg closes,
              if_pos ⟨fun visited => isDone ((sorting.visited edge).mp visited), notVisiting⟩]
          have marked : Sorting envName (name :: path) done
              ⟨StackFrame.ofName inst wanted edge :: ⟨name, edges, none⟩ :: below, name :: path,
                state.visited, state.visiting.insert name, state.sorted⟩ := by
            refine ⟨sorting.visited, fun other member => ?_, sorting.sorted, sorting.apart⟩
            rcases List.mem_insert_iff.mp member with rfl | old
            · exact Or.inr List.mem_cons_self
            · exact sorting.visiting other old
          have child := finishes edge closes done _ _ (marked.push closes isDone rfl rfl)
          refine (Performs.after_runs pushes child).bind fun mid popped isPopped => ih ?_
          exact ⟨isPopped.sorting, isPopped.stack, by rw [isPopped.onstack, again]⟩

theorem finishes_of_enough (committed : Committed inst) {levels : Nat}
    (enough : Enough (GraphDB.cursorNames inst) levels path) (fresh : name ∉ path)
    (onPath : start ∈ name :: path) :
    Finishes inst wanted envName start levels path name := by
  induction levels generalizing path name with
  | zero =>
      intro done state below atFrame
      have edges : frameEdges inst wanted name = [] := by
        by_contra some
        exact enough.bottom fresh (mem_cursorNames_of_frameEdges committed wanted name some)
      rw [edges] at atFrame
      exact atFrame.pop fresh onPath
  | succ levels ih =>
      intro done state below atFrame
      have followed : Performs inst wanted envName start state
          (finishAll (finish (frameEdges inst wanted) levels (name :: path)) (name :: path)
            (frameEdges inst wanted name) done) (AtFrame envName name path [] below) := by
        by_cases edges : frameEdges inst wanted name = []
        · rw [edges] at atFrame ⊢
          exact Performs.ends (RunsTo.refl state) atFrame
        · have inNodes := mem_cursorNames_of_frameEdges committed wanted name edges
          exact AtFrame.follow (fun child childFresh => ih (enough.down fresh inNodes) childFresh
            (List.mem_cons_of_mem child onPath)) onPath below _ atFrame
      rw [finish, Option.map_eq_bind]
      exact followed.bind fun mid last isLast => isLast.pop fresh onPath

/-- The search from one node. -/
theorem Sorting.search (committed : Committed inst) {levels : Nat}
    (enough : (GraphDB.cursorNames inst).length ≤ levels) {done : List String}
    {state : SortState} (sorting : Sorting envName [] done state) (root : String) :
    Performs inst wanted envName root (state.begin inst wanted root)
      (finishAll (finish (frameEdges inst wanted) levels []) [] [root] done) fun after searched =>
        Sorting envName [] after searched ∧ searched.stack = [] := by
  rw [finishAll, finishAll, Option.bind_some, if_neg List.not_mem_nil]
  by_cases isDone : root ∈ done
  · rw [if_pos isDone]
    refine @Performs.ends _ _ _ _ _ { state.begin inst wanted root with stack := [] } _ _
      (RunsTo.round rfl ?_) ⟨⟨sorting.visited, fun other member => ?_, sorting.sorted,
        sorting.apart⟩, rfl⟩
    · unfold sortRound
      exact if_pos ((sorting.visited root).mpr isDone)
    · rcases List.mem_insert_iff.mp member with rfl | old
      · exact Or.inl isDone
      · exact sorting.visiting other old
  · rw [if_neg isDone]
    have begun : AtFrame envName root [] (frameEdges inst wanted root) [] done
        (state.begin inst wanted root) := by
      refine ⟨⟨sorting.visited, fun other member => ?_, sorting.sorted,
        fun other member isRoot => ?_⟩, rfl, rfl⟩
      · rcases List.mem_insert_iff.mp member with rfl | old
        · exact Or.inr (List.mem_singleton_self other)
        · exact (sorting.visiting other old).imp_right fun above => absurd above List.not_mem_nil
      · rw [List.mem_singleton] at isRoot
        exact isDone (isRoot ▸ member)
    have finishes := @finishes_of_enough inst wanted envName root [] root committed levels
      (Enough.root enough) List.not_mem_nil (List.mem_singleton_self root) done _ [] begun
    refine ⟨finishes.cycle, fun after isAfter => ?_⟩
    obtain ⟨searched, runs, popped⟩ := finishes.finished after isAfter
    exact ⟨searched, runs, popped.sorting, popped.stack⟩

/-- The loop over the dependency nodes finishes their names in the order of the
list, or ends with the exception of a cycle. -/
theorem Sorting.nodes (committed : Committed inst) {levels : Nat}
    (enough : (GraphDB.cursorNames inst).length ≤ levels) {roots : List String}
    {nodeOf : String → Option Node} (loaded : ∀ root ∈ roots, ∃ node, nodeOf root = some node ∧
      node.name = root ∧ node.wantedVersion = wanted) {done : List String} {state : SortState}
    (sorting : Sorting envName [] done state) :
    (finishAll (finish (frameEdges inst wanted) levels []) [] roots.reverse done = none →
      ∃ rounds, ∀ more, sortNodes inst envName (rounds + more) (roots.map nodeOf) state =
        some (.error cycleDetected)) ∧
    ∀ order, finishAll (finish (frameEdges inst wanted) levels []) [] roots.reverse done =
        some order →
      ∃ rounds sorted, Sorting envName [] order sorted ∧ ∀ more,
        sortNodes inst envName (rounds + more) (roots.map nodeOf) state = some (.ok sorted) := by
  induction roots generalizing done state with
  | nil =>
      refine ⟨by simp [finishAll], ?_⟩
      rintro order ⟨⟩
      exact ⟨0, state, sorting, fun _ => rfl⟩
  | cons root rest ih =>
      obtain ⟨node, isNode, rfl, rfl⟩ := loaded root List.mem_cons_self
      have searches := @Sorting.search inst node.wantedVersion envName committed levels
        enough done state sorting node.name
      rw [List.reverse_cons, finishAll_append]
      cases isMid : finishAll (finish (frameEdges inst node.wantedVersion) levels []) []
          [node.name] done with
      | none =>
          refine ⟨fun _ => ?_, by simp⟩
          obtain ⟨rounds, ends⟩ := searches.cycle isMid
          refine ⟨rounds, fun more => ?_⟩
          rw [List.map_cons, isNode, sortNodes, ends]
      | some mid =>
          obtain ⟨after, ⟨rounds, runs⟩, sortingMid, stack⟩ := searches.finished mid isMid
          obtain ⟨cycleLater, sortedLater⟩ := ih
            (fun other member => loaded other (List.mem_cons_of_mem node.name member)) sortingMid
          have goesOn : ∀ more, sortNodes inst envName (rounds + 1 + more)
              ((node.name :: rest).map nodeOf) state =
                sortNodes inst envName (rounds + 1 + more) (rest.map nodeOf) after := by
            intro more
            rw [List.map_cons, isNode, sortNodes, Nat.add_assoc, runs, Nat.add_comm 1, sortLoop,
              stack]
          rw [Option.bind_some]
          refine ⟨fun isNone => ?_, fun order isOrder => ?_⟩
          · obtain ⟨roundsLater, ends⟩ := cycleLater isNone
            refine ⟨rounds + 1 + roundsLater, fun more => ?_⟩
            rw [Nat.add_assoc, goesOn, Nat.add_left_comm, ends]
          · obtain ⟨roundsLater, sorted, sortingAll, returns⟩ := sortedLater order isOrder
            refine ⟨rounds + 1 + roundsLater, sorted, sortingAll, fun more => ?_⟩
            rw [Nat.add_assoc, goesOn, Nat.add_left_comm, returns]

end Rounds

/-! ## The call -/

theorem frameEdges_isPart (inst : GraphInstance) (wanted : Option Nat) (name : String) :
    frameEdges inst wanted name = nextNames inst .forward wanted name ∨
      frameEdges inst wanted name = [] := by
  unfold frameEdges
  split
  · exact Or.inl rfl
  · exact Or.inr rfl

end RangeApi

namespace World

open RangeApi

/-- The dependencies of a name in the newly opened dependency graph. -/
def dependencies (world : World) : String → List String :=
  nextNames world.dependency.inst .forward none

/-- The dependencies that a frame for a name loads. -/
def loadedDependencies (world : World) : String → List String :=
  frameEdges world.dependency.inst none

/-- The node is below another in the primary graph and is no environment. -/
def NodeBelow (world : World) (env name : String) : Prop :=
  world.roster .primary name ≠ some .environment ∧ Reaches world.children env name

/-- The nodes the search of the dependency graph starts from, in their order. -/
def nodesBelow (world : World) (env : String) : List String :=
  sortedNames world.primary.inst (Node.loaded world.primary.inst env)

/-- A cycle along some edges is in reach of the nodes below an environment. -/
def CycleBelow (world : World) (next : String → List String) (env : String) : Prop :=
  ∃ root, world.NodeBelow env root ∧ ∃ name, Reaches next root name ∧
    Relation.TransGen (fun key successor => successor ∈ next key) name name

variable {world : World} {env : String} {type : NodeType}

theorem LiveEnds.mem_nodesBelow (ends : world.LiveEnds)
    (inUse : world.roster .primary env = some type) (name : String) :
    name ∈ world.nodesBelow env ↔ world.NodeBelow env name := by
  have quiet := ends.regular.quiet
  have searched := mem_search quiet.primary .forward (Node.loaded world.primary.inst env) []
    (by simp) name
  simp only [List.not_mem_nil, false_or] at searched
  unfold nodesBelow sortedNames NodeBelow
  rw [List.mem_filter, decide_eq_true_eq, searched, and_comm]
  refine and_congr_left fun reaches => ?_
  obtain ⟨found, isLive⟩ := ends.reached_inUse ⟨type, inUse⟩ reaches
  rw [isLive, (quiet.type_of_roster isLive).2, Ne, Ne, Option.some.injEq]

theorem LiveEnds.reachesCycle_iff (ends : world.LiveEnds)
    (inUse : world.roster .primary env = some type) (next : String → List String) :
    ReachesCycle next (world.nodesBelow env) ↔ world.CycleBelow next env := by
  unfold ReachesCycle CycleBelow
  simp only [ends.mem_nodesBelow inUse]

theorem environmentTopologicalSort_none
    (found : (GraphDB.ofInstance world.primary.inst).getNode env =
      some (Node.loaded world.primary.inst env)) (rounds : Nat) :
    (environmentTopologicalSort rounds env none world).1 =
      (sortNodes world.dependency.inst env rounds ((world.nodesBelow env).map
        (GraphDB.ofInstance world.dependency.inst).getNode) ⟨[], [], [], [], []⟩).elim
          (.ok none) fun result => result.map fun state => some state.sorted.reverse := by
  have isFound : ((((world.setGraph .primary (.ofInstance (world.graph .primary).inst)).setGraph
      .dependency (.ofInstance ((world.setGraph .primary
        (.ofInstance (world.graph .primary).inst)).graph .dependency).inst)).graph
          .primary).getNode env) = some (Node.loaded world.primary.inst env) := found
  unfold environmentTopologicalSort
  rw [bind_of_ok (graphdb_none .primary world), bind_of_ok (graphdb_none .dependency _),
    Api.getNode, read_bind, isFound]
  dsimp only
  rw [read_bind, read_bind]
  generalize outcome : sortNodes _ env rounds _ _ = result
  have isOutcome : sortNodes world.dependency.inst env rounds ((world.nodesBelow env).map
      (GraphDB.ofInstance world.dependency.inst).getNode) ⟨[], [], [], [], []⟩ = result := outcome
  rw [isOutcome]
  rcases result with _ | error | state <;> rfl

theorem environmentTopologicalSort_eq (ends : world.LiveEnds) (mirrored : world.Mirrored)
    (inUse : world.roster .primary env = some type) {levels : Nat}
    (enough : (GraphDB.cursorNames world.dependency.inst).length ≤ levels) :
    ∃ rounds, ∀ more, (environmentTopologicalSort (rounds + more) env none world).1 =
      (postOrder world.loadedDependencies levels (world.nodesBelow env)).elim
        (.error cycleDetected) fun order =>
          .ok (some (order.reverse.map (unprefixNodeName env))) := by
  have quiet := ends.regular.quiet
  have found : (GraphDB.ofInstance world.primary.inst).getNode env =
      some (Node.loaded world.primary.inst env) := by
    rw [GraphDB.getNode_ofInstance quiet.primary, if_pos (quiet.type_of_roster inUse).1]
  have loaded : ∀ root ∈ world.nodesBelow env,
      ∃ node, (GraphDB.ofInstance world.dependency.inst).getNode root = some node ∧
        node.name = root ∧ node.wantedVersion = none := by
    intro root member
    obtain ⟨-, reaches⟩ := (ends.mem_nodesBelow inUse root).mp member
    obtain ⟨found, isLive⟩ := ends.reached_inUse ⟨type, inUse⟩ reaches
    have live := mirrored root (by simp [isLive])
    rw [Ne, WriteCall.roster_eq_none_iff quiet, not_not] at live
    refine ⟨Node.loaded world.dependency.inst root, ?_, rfl, rfl⟩
    rw [GraphDB.getNode_ofInstance quiet.dependency]
    exact if_pos live
  have begun : Sorting env [] [] ⟨[], [], [], [], []⟩ :=
    ⟨by simp, by simp, rfl, by simp⟩
  obtain ⟨cycle, finished⟩ := Sorting.nodes quiet.dependency enough loaded begun
  unfold postOrder loadedDependencies
  cases isOrder : finishAll (finish (frameEdges world.dependency.inst none) levels []) []
      (world.nodesBelow env).reverse [] with
  | none =>
      obtain ⟨rounds, ends⟩ := cycle isOrder
      refine ⟨rounds, fun more => ?_⟩
      rw [environmentTopologicalSort_none found, ends]
      rfl
  | some order =>
      obtain ⟨rounds, sorted, sorting, returns⟩ := finished order isOrder
      refine ⟨rounds, fun more => ?_⟩
      rw [environmentTopologicalSort_none found, returns]
      dsimp only [Option.elim, Except.map]
      rw [sorting.sorted, List.map_reverse]

/-- A dependency of a node of a type for which a frame loads none. -/
def SkippedDependency (world : World) (name other : String) : Prop :=
  ((world.dependency.inst.readNode name).nodeType ≠ .cluster ∧
    (world.dependency.inst.readNode name).nodeType ≠ .environment) ∧
      other ∈ world.dependencies name

theorem skipped_iff (world : World) (property : String → String → Prop) (name : String) :
    (∀ other, world.SkippedDependency name other → property name other) ↔
      (world.loadedDependencies name = [] →
        ∀ other ∈ world.dependencies name, property name other) := by
  unfold loadedDependencies frameEdges SkippedDependency
  by_cases follows : (world.dependency.inst.readNode name).nodeType = .cluster ∨
      (world.dependency.inst.readNode name).nodeType = .environment
  · rw [if_pos follows]
    constructor
    · intro _ none other member
      rw [dependencies, none] at member
      exact absurd member List.not_mem_nil
    · rintro _ other ⟨⟨notCluster, notEnvironment⟩, _⟩
      exact absurd follows (not_or.mpr ⟨notCluster, notEnvironment⟩)
  · rw [if_neg follows]
    exact ⟨fun all _ other member => all other ⟨not_or.mp follows, member⟩,
      fun all other skipped => all rfl other skipped.2⟩

theorem LiveEnds.sorts_iff (ends : world.LiveEnds)
    (inUse : world.roster .primary env = some type) {levels : Nat}
    (enough : (GraphDB.cursorNames world.dependency.inst).length ≤ levels) :
    ((∀ names, (postOrder world.loadedDependencies levels (world.nodesBelow env)).map
          List.reverse = some names → Sorts world.dependencies (world.NodeBelow env) names) ∧
      ((postOrder world.loadedDependencies levels (world.nodesBelow env)).map List.reverse =
        none ↔ world.CycleBelow world.dependencies env)) ↔
      world.CycleBelow world.loadedDependencies env ∨
        ∀ name, (∃ root, world.NodeBelow env root ∧ Reaches world.loadedDependencies root name) →
          ∀ other, world.SkippedDependency name other →
            Before world.loadedDependencies other name (world.nodesBelow env).reverse := by
  have sorts := @postOrder_sorts_iff String _ world.loadedDependencies world.dependencies
    (world.nodesBelow env) (frameEdges_isPart world.dependency.inst none) _
    (mem_cursorNames_of_frameEdges ends.regular.quiet.dependency none) levels enough
  simp only [ends.reachesCycle_iff inUse, ends.mem_nodesBelow inUse] at sorts
  have listed : (∀ names, (postOrder world.loadedDependencies levels (world.nodesBelow env)).map
      List.reverse = some names → Sorts world.dependencies (world.NodeBelow env) names) ↔
      ∀ order, postOrder world.loadedDependencies levels (world.nodesBelow env) = some order →
        Sorts world.dependencies (world.NodeBelow env) order.reverse := by
    simp only [Option.map_eq_some_iff, forall_exists_index, and_imp, forall_apply_eq_imp_iff₂]
  rw [Option.map_eq_none_iff, listed]
  refine sorts.trans (or_congr_right (forall_congr' fun name => imp_congr_right fun _ => ?_))
  exact (world.skipped_iff (fun name other => Before world.loadedDependencies other name
    (world.nodesBelow env).reverse) name).symm

/-- After any calls the sort ends with a list or with the exception of a cycle,
which does not say yet that the list is sorted or that there is a cycle.  The
list has the nodes below the environment and everything they depend on once,
each before what it depends on, and the exception is thrown exactly when the
dependencies have a cycle, if and only if the loaded dependencies have a cycle
or the search is through with every skipped dependency when it meets the node
that has it. -/
theorem topological_sort_iff (sequence : List WriteCall) {env : String} {type : NodeType}
    (inUse : (empty.calls sequence).roster .primary env = some type) :
    ∃ (rounds : Nat) (result : Option (List String)),
      (∀ more, (environmentTopologicalSort (rounds + more) env none (empty.calls sequence)).1 =
        result.elim (.error (.graphCycle "dependency cycle detected")) fun names =>
          .ok (some (names.map (unprefixNodeName env)))) ∧
      (((∀ names, result = some names → Sorts (empty.calls sequence).dependencies
            ((empty.calls sequence).NodeBelow env) names) ∧
          (result = none ↔
            (empty.calls sequence).CycleBelow (empty.calls sequence).dependencies env)) ↔
        (empty.calls sequence).CycleBelow (empty.calls sequence).loadedDependencies env ∨
          ∀ name, (∃ root, (empty.calls sequence).NodeBelow env root ∧
              Reaches (empty.calls sequence).loadedDependencies root name) →
            ∀ other, (empty.calls sequence).SkippedDependency name other →
              Before (empty.calls sequence).loadedDependencies other name
                ((empty.calls sequence).nodesBelow env).reverse) := by
  have ends := liveEnds_calls sequence
  obtain ⟨rounds, runs⟩ := environmentTopologicalSort_eq ends (mirrored_calls sequence) inUse
    (Nat.le_refl _)
  refine ⟨rounds, _, fun more => ?_, ends.sorts_iff inUse (Nat.le_refl _)⟩
  rw [runs more]
  cases postOrder (empty.calls sequence).loadedDependencies _ _ <;> rfl

/-- A cluster with two hosts that depend on each other. -/
def hostCycle : List WriteCall :=
  [⟨.createEnv, ["e"], 1⟩, ⟨.addClusterToEnv, ["e", "c"], 2⟩,
    ⟨.addHostToCluster, ["e", "c", "h"], 3⟩, ⟨.addHostToCluster, ["e", "c", "g"], 4⟩,
    ⟨.addNodeExtDependency, ["", "h", "", "g"], 5⟩, ⟨.addNodeExtDependency, ["", "g", "", "h"], 6⟩]

theorem topological_sort_iff_hostCycle :
    ∃ (rounds : Nat) (result : Option (List String)),
      (∀ more, (environmentTopologicalSort (rounds + more) "e" none (empty.calls hostCycle)).1 =
        result.elim (.error (.graphCycle "dependency cycle detected")) fun names =>
          .ok (some (names.map (unprefixNodeName "e")))) ∧
      (((∀ names, result = some names → Sorts (empty.calls hostCycle).dependencies
            ((empty.calls hostCycle).NodeBelow "e") names) ∧
          (result = none ↔
            (empty.calls hostCycle).CycleBelow (empty.calls hostCycle).dependencies "e")) ↔
        (empty.calls hostCycle).CycleBelow (empty.calls hostCycle).loadedDependencies "e" ∨
          ∀ name, (∃ root, (empty.calls hostCycle).NodeBelow "e" root ∧
              Reaches (empty.calls hostCycle).loadedDependencies root name) →
            ∀ other, (empty.calls hostCycle).SkippedDependency name other →
              Before (empty.calls hostCycle).loadedDependencies other name
                ((empty.calls hostCycle).nodesBelow "e").reverse) :=
  @topological_sort_iff hostCycle "e" .environment (by decide +kernel)

/-- The hosts below the environment have a cycle of dependencies, and a list is
returned. -/
theorem cycle_unnoticed_hostCycle :
    (environmentTopologicalSort 20 "e" none (empty.calls hostCycle)).1 =
        .ok (some ["h", "g", "c"]) ∧
      (empty.calls hostCycle).CycleBelow (empty.calls hostCycle).dependencies "e" := by
  have toCluster : "e#c" ∈ (empty.calls hostCycle).children "e" := by
    decide +kernel
  have toHost : "h" ∈ (empty.calls hostCycle).children "e#c" := by
    decide +kernel
  have first : "g" ∈ (empty.calls hostCycle).dependencies "h" := by
    decide +kernel
  have second : "h" ∈ (empty.calls hostCycle).dependencies "g" := by
    decide +kernel
  refine ⟨by decide +kernel, "h", ⟨by decide +kernel, ?_⟩, "h", Relation.ReflTransGen.refl, ?_⟩
  · exact Relation.ReflTransGen.head toCluster (Relation.ReflTransGen.single toHost)
  · exact Relation.TransGen.head first (Relation.TransGen.single second)

end World

end Rangexx
