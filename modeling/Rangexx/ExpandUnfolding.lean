import Rangexx.Expand

/-!
# The unfolding that `expand` returns

The loop of `expand` builds the unfolding of the graph along the edges of
clusters and environments.  What a frame still has to do is said by the number
of levels below it: the rounds from its push to its pop leave the frames below
as they are and enter the unfolding from its name in the frame under it.
-/

namespace Rangexx

open StateProgram Worklist PathUnfolding

namespace RangeApi

open Api

variable {world opened both : World} {version wanted depth : Option Nat}
  {envName nodeName : String} {start : Node}

theorem frameEdges_nodup {inst : GraphInstance} (committed : Committed inst)
    (wanted : Option Nat) (name : String) : (frameEdges inst wanted name).Nodup := by
  unfold frameEdges
  split
  · unfold nextNames Node.neighbours
    rw [List.map_map]
    simpa [Function.comp_def, Node.initInfo] using
      NodeInfo.nodup_getEdges (committed.wf name) .forward wanted
  · exact List.nodup_nil

theorem mem_cursorNames_of_frameEdges {inst : GraphInstance} (committed : Committed inst)
    (wanted : Option Nat) (name : String) (edges : frameEdges inst wanted name ≠ []) :
    name ∈ GraphDB.cursorNames inst := by
  unfold frameEdges at edges
  split at edges
  · exact mem_cursorNames_of_nextNames committed .forward wanted name edges
  · exact absurd rfl edges

/-! ## Rounds -/

/-- What is left of the loop after a round. -/
def proceed (envName nodeName : String) (version wanted depth : Option Nat) (rounds : Nat) :
    ExpandState ⊕ Option Expansion → Api (Option (Option Expansion))
  | .inl state => expandLoop envName nodeName version wanted depth rounds state
  | .inr result => return some result

theorem expandLoop_succ (rounds : Nat) (state : ExpandState) :
    expandLoop envName nodeName version wanted depth (rounds + 1) state =
      expandRound envName nodeName version wanted depth state >>=
        proceed envName nodeName version wanted depth rounds := by
  rw [expandLoop]
  congr

/-- A round at a frame whose object is there already. -/
theorem expandLoop_known (rounds : Nat) {top : StackFrame} {below : List StackFrame}
    {onstack : List String} (known : top.name ∈ onstack) (world : World) :
    expandLoop envName nodeName version wanted depth (rounds + 1) ⟨top :: below, onstack⟩ world =
      proceed envName nodeName version wanted depth rounds
        (advance world.primary.inst wanted depth top below onstack) world := by
  rw [expandLoop_succ]
  apply bind_of_ok
  unfold expandRound
  dsimp only
  rw [if_pos known, List.insert_of_mem known]
  rfl

/-- The first round at a frame. -/
theorem expandLoop_fresh (starts : Starts world version envName nodeName opened start)
    {name : String} {below : List StackFrame} {onstack : List String} (fresh : name ∉ onstack)
    {told : World} (isOpened : StillOpened opened both told) :
    ∃ again, StillOpened opened both again ∧ ∀ rounds,
      expandLoop envName nodeName version wanted depth (rounds + 1)
          ⟨StackFrame.ofName opened.primary.inst wanted name :: below, onstack⟩ told =
        proceed envName nodeName version wanted depth rounds
          (advance opened.primary.inst wanted depth
            ⟨name, frameEdges opened.primary.inst wanted name,
              some (.node (expandedObject opened both envName start name) [])⟩
            below (name :: onstack)) again := by
  obtain ⟨again, initial, againOpened⟩ := starts.initialObject_again isOpened name
  refine ⟨again, againOpened, fun rounds => ?_⟩
  rw [expandLoop_succ]
  apply bind_of_ok
  unfold expandRound
  dsimp only [StackFrame.ofName]
  rw [if_neg fresh, List.insert_of_not_mem fresh]
  have object : ((some <$> initialObject envName nodeName version name) :
      Api (Option Expansion)) told =
      (.ok (some (.node (expandedObject opened both envName start name) [])), again) := by
    change (initialObject envName nodeName version name >>= fun tree => pure (some tree)) told = _
    rw [bind_of_ok initial]
    rfl
  rw [bind_of_ok object, read_apply, againOpened.inst]

/-! ## Levels -/

/-- A path has so many levels below it: those the depth leaves, or enough for
every simple path. -/
def Fits (nodes : List String) (levels : Nat) (path : List String) : Option Nat → Prop
  | some depth => levels + path.length = depth
  | none => Enough nodes levels path

theorem Fits.down {nodes : List String} {levels : Nat} {path : List String}
    (fits : Fits nodes (levels + 1) path depth) {name : String} (fresh : name ∉ path)
    (inNodes : name ∈ nodes) :
    (depth.all fun depth => path.length + 1 ≤ depth) = true ∧
      Fits nodes levels (name :: path) depth := by
  cases depth with
  | some depth =>
      have total : levels + 1 + path.length = depth := fits
      constructor
      · rw [Option.all_some, decide_eq_true_eq]
        omega
      · change levels + (path.length + 1) = depth
        omega
  | none => exact ⟨rfl, Enough.down fits fresh inNodes⟩

/-- At the last level the depth is reached, or there is no other name. -/
theorem Fits.bottom {nodes : List String} {path : List String} (fits : Fits nodes 0 path depth)
    {name : String} (fresh : name ∉ path)
    (allowed : (depth.all fun depth => path.length + 1 ≤ depth) = true) : name ∉ nodes := by
  cases depth with
  | some depth =>
      have total : 0 + path.length = depth := fits
      rw [Option.all_some, decide_eq_true_eq] at allowed
      omega
  | none => exact Enough.bottom fits fresh

/-! ## From push to pop -/

/-- The unfolding from a name in the opened graph. -/
abbrev expansionFrom (opened both : World) (envName : String) (start : Node)
    (wanted : Option Nat) (levels : Nat) (path : List String) (name : String) : Expansion :=
  unfolding (frameEdges opened.primary.inst wanted) (expandedObject opened both envName start)
    levels path name

/-- A frame that has its object when it is popped. -/
def StackFrame.finished (name : String) (object : Expansion) : StackFrame :=
  ⟨name, [], some object⟩

/-- From its push to its pop a frame builds the unfolding of so many levels. -/
def BuildsUnfolding (opened both : World) (envName nodeName : String)
    (version wanted depth : Option Nat) (start : Node) (levels : Nat) (path : List String)
    (name : String) : Prop :=
  ∀ (below : List StackFrame), below.length = path.length → ∀ told, StillOpened opened both told →
    ∃ rounds again, StillOpened opened both again ∧ ∀ more,
      expandLoop envName nodeName version wanted depth (rounds + 1 + more)
          ⟨StackFrame.ofName opened.primary.inst wanted name :: below, path⟩ told =
        proceed envName nodeName version wanted depth more
          (popFrame (.finished name
            (expansionFrom opened both envName start wanted levels path name)) below
            (name :: path)) again

theorem advance_nil {inst : GraphInstance} {name : String} {object : Expansion}
    {below : List StackFrame} {onstack : List String} :
    advance inst wanted depth ⟨name, [], some object⟩ below onstack =
      popFrame (.finished name object) below onstack :=
  rfl

theorem advance_append {inst : GraphInstance} {name edge : String} {edges : List String}
    {ret : Option Expansion} {below : List StackFrame} {onstack : List String}
    (allowed : (depth.all fun depth => below.length + 1 ≤ depth) = true) :
    advance inst wanted depth ⟨name, edges ++ [edge], ret⟩ below onstack =
      .inl (if edge ∈ onstack then ⟨⟨name, edges, ret⟩ :: below, onstack⟩
        else ⟨StackFrame.ofName inst wanted edge :: ⟨name, edges, ret⟩ :: below, onstack⟩) := by
  unfold advance
  rw [List.getLast?_append_of_ne_nil _ (List.cons_ne_nil edge [])]
  dsimp only [List.getLast?_singleton]
  rw [if_pos allowed, List.dropLast_concat]
  split <;> rfl

/-- Following the edges of the frame at the top, from the last to the first. -/
theorem proceed_edges {levels : Nat} {path : List String} {name : String}
    (builds : ∀ child, child ∉ name :: path → BuildsUnfolding opened both envName nodeName version
      wanted depth start levels (name :: path) child)
    {below : List StackFrame} (height : below.length = path.length)
    (allowed : (depth.all fun depth => path.length + 1 ≤ depth) = true)
    (object : NodeObject) (edges : List String) (nodup : edges.Nodup)
    (done : List (String × Expansion)) (notDone : ∀ entry ∈ done, entry.1 ∉ edges)
    {told : World} (isOpened : StillOpened opened both told) :
    ∃ rounds again, StillOpened opened both again ∧ ∀ more,
      proceed envName nodeName version wanted depth (rounds + more)
          (advance opened.primary.inst wanted depth ⟨name, edges, some (.node object done)⟩ below
            (name :: path)) told =
        proceed envName nodeName version wanted depth more
          (popFrame (.finished name (.node object
            (((edges.filter fun child => child ∉ name :: path).map fun child =>
              (child, expansionFrom opened both envName start wanted levels (name :: path)
                child)) ++ done))) below (name :: path)) again := by
  induction edges using List.reverseRecOn generalizing done told with
  | nil => exact ⟨0, told, isOpened, fun more => by rw [Nat.zero_add, advance_nil]; rfl⟩
  | append_singleton edges edge ih =>
      have allowedBelow : (depth.all fun depth => below.length + 1 ≤ depth) = true := by
        rw [height]
        exact allowed
      obtain ⟨nodupEdges, -, apart⟩ := List.nodup_append.mp nodup
      have edgeNotEarlier : edge ∉ edges := fun member =>
        apart edge member edge (List.mem_singleton_self edge) rfl
      have notDoneEarlier : ∀ entry ∈ done, entry.1 ∉ edges := fun entry member inEdges =>
        notDone entry member (List.mem_append_left _ inEdges)
      rw [advance_append allowedBelow]
      by_cases onstack : edge ∈ name :: path
      · -- the edge closes a cycle and is skipped
        obtain ⟨rounds, again, againOpened, runs⟩ := ih nodupEdges done notDoneEarlier isOpened
        refine ⟨rounds + 1, again, againOpened, fun more => ?_⟩
        rw [if_pos onstack, Nat.add_right_comm]
        change expandLoop _ _ _ _ _ (rounds + more + 1) _ told = _
        rw [expandLoop_known _ (List.mem_cons_self ..), isOpened.inst, runs more,
          List.filter_append, List.filter_singleton]
        simp only [onstack, not_true_eq_false, decide_false, cond_false, List.append_nil]
      · obtain ⟨childRounds, between, betweenOpened, childRuns⟩ :=
          builds edge onstack (⟨name, edges, some (.node object done)⟩ :: below)
            (by rw [List.length_cons, List.length_cons, height]) told isOpened
        obtain ⟨rounds, again, againOpened, runs⟩ := ih nodupEdges
          ((edge, expansionFrom opened both envName start wanted levels (name :: path) edge) ::
            done) (by
              intro entry member
              rcases List.mem_cons.mp member with rfl | old
              · exact edgeNotEarlier
              · exact notDoneEarlier entry old) betweenOpened
        refine ⟨childRounds + 1 + (rounds + 1), again, againOpened, fun more => ?_⟩
        have entered : popFrame (.finished edge
              (expansionFrom opened both envName start wanted levels (name :: path) edge))
            (⟨name, edges, some (.node object done)⟩ :: below) (edge :: name :: path) =
            .inl ⟨⟨name, edges, some (.node object
              ((edge, expansionFrom opened both envName start wanted levels (name :: path) edge) ::
                done))⟩ :: below, name :: path⟩ := by
          have kept : (done.filter fun entry => entry.1 ≠ edge) = done := by
            rw [List.filter_eq_self]
            intro entry member
            rw [decide_eq_true_eq]
            rintro same
            exact notDone entry member (List.mem_append_right _ (by simp [same]))
          unfold popFrame StackFrame.finished StackFrame.enter
          simp only [Option.bind_some, Option.map_some, addChild, kept, List.erase_cons_head]
        rw [if_neg onstack, Nat.add_assoc]
        change expandLoop _ _ _ _ _ (childRounds + 1 + (rounds + 1 + more)) _ told = _
        rw [childRuns, entered, Nat.add_right_comm]
        change expandLoop _ _ _ _ _ (rounds + more + 1) _ between = _
        rw [expandLoop_known _ (List.mem_cons_self ..), betweenOpened.inst, runs more,
          List.filter_append, List.filter_singleton]
        simp only [onstack, not_false_eq_true, decide_true, cond_true, List.map_append,
          List.map_cons, List.map_nil, List.append_assoc, List.cons_append, List.nil_append]

theorem buildsUnfolding (starts : Starts world version envName nodeName opened start)
    {levels : Nat} {path : List String} {name : String} (fresh : name ∉ path)
    (fits : Fits (GraphDB.cursorNames opened.primary.inst) levels path depth) :
    BuildsUnfolding opened both envName nodeName version wanted depth start levels path name := by
  induction levels generalizing path name with
  | zero =>
      intro below height told isOpened
      obtain ⟨again, againOpened, runs⟩ := @expandLoop_fresh _ _ both version wanted depth _ _ _
        starts name below path fresh told isOpened
      refine ⟨0, again, againOpened, fun more => ?_⟩
      rw [Nat.add_right_comm, Nat.zero_add, runs]
      congr 1
      unfold advance
      cases last : (frameEdges opened.primary.inst wanted name).getLast? with
      | none => rfl
      | some edge =>
          have edges : frameEdges opened.primary.inst wanted name ≠ [] := by
            rintro none
            rw [none] at last
            simp at last
          have notAllowed : ¬ (depth.all fun depth => below.length + 1 ≤ depth) = true := by
            rw [height]
            exact fun allowed => fits.bottom fresh allowed
              (mem_cursorNames_of_frameEdges starts.committed wanted name edges)
          dsimp only
          rw [if_neg notAllowed]
          rfl
  | succ levels ih =>
      intro below height told isOpened
      obtain ⟨first, firstOpened, runsFirst⟩ := @expandLoop_fresh _ _ both version wanted depth
        _ _ _ starts name below path fresh told isOpened
      by_cases edges : frameEdges opened.primary.inst wanted name = []
      · refine ⟨0, first, firstOpened, fun more => ?_⟩
        rw [Nat.add_right_comm, Nat.zero_add, runsFirst, edges, advance_nil, expansionFrom,
          unfolding, edges]
        rfl
      · have inNodes := mem_cursorNames_of_frameEdges starts.committed wanted name edges
        obtain ⟨allowed, fitsBelow⟩ := fits.down fresh inNodes
        obtain ⟨rounds, again, againOpened, runs⟩ := proceed_edges
          (fun child freshChild => ih freshChild fitsBelow) height allowed
          (expandedObject opened both envName start name)
          (frameEdges opened.primary.inst wanted name)
          (frameEdges_nodup starts.committed wanted name) [] (by simp) firstOpened
        refine ⟨rounds, again, againOpened, fun more => ?_⟩
        rw [Nat.add_right_comm, runsFirst, runs, List.append_nil, expansionFrom, unfolding]

/-! ## The call -/

/-- With enough rounds the call returns the unfolding from its node. -/
theorem expand_eq (starts : Starts world version envName nodeName opened start)
    (opensDependency : graphdb .dependency version opened = (.ok (), both)) {levels : Nat}
    (fits : Fits (GraphDB.cursorNames opened.primary.inst) levels [] depth) :
    ∃ rounds, ∀ more, (expand (rounds + more) envName nodeName version depth world).1 =
      .ok (some (some (expansionFrom opened both envName start start.wantedVersion levels []
        start.name))) := by
  have samePrimary : both.graph .primary = opened.graph .primary :=
    graph_of_opens (by decide) opensDependency
  have bothTold := (Told.refl opened).opens starts.opens opensDependency
  have isOpened : StillOpened opened both both := ⟨bothTold, rfl⟩
  have found : getNode .primary envName nodeName both = (.ok (some start), both) := by
    have foundBefore := starts.getNode_eq
    rw [getNode_apply] at foundBefore ⊢
    rw [samePrimary, (Prod.mk.inj foundBefore).1]
  obtain ⟨rounds, again, -, runs⟩ := @buildsUnfolding _ opened both version start.wantedVersion
    depth envName nodeName start starts levels [] start.name List.not_mem_nil fits [] rfl both
    isOpened
  refine ⟨rounds + 1, fun more => ?_⟩
  unfold expand
  rw [bind_of_ok starts.opens, bind_of_ok opensDependency, bind_of_ok found]
  change (expandLoop envName nodeName version start.wantedVersion depth (rounds + 1 + more)
    ⟨[StackFrame.ofName both.primary.inst start.wantedVersion start.name], []⟩ both).1 = _
  rw [isOpened.inst, runs]
  rfl

/-- How deep a depth shows what is below a node. -/
def DepthAllows (depth : Option Nat) (length : Nat) : Prop :=
  ∀ most, depth = some most → length ≤ most

/-- The keys of the objects are the names within the depth. -/
theorem exists_levels {inst : GraphInstance} (committed : Committed inst)
    (wanted depth : Option Nat) :
    ∃ levels, Fits (GraphDB.cursorNames inst) levels [] depth ∧
      ∀ root name, (∃ length ≤ levels,
          SimpleSteps (frameEdges inst wanted) [] length root name) ↔
        ∃ length, DepthAllows depth length ∧
          BreadthFirst.StepsTo (frameEdges inst wanted) length root name := by
  cases depth with
  | some depth =>
      refine ⟨depth, rfl, fun root name => ?_⟩
      rw [exists_simpleSteps_iff]
      simp [DepthAllows]
  | none =>
      refine ⟨(GraphDB.cursorNames inst).length,
        Enough.root (Nat.le_refl _), fun root name => ?_⟩
      rw [exists_simpleSteps_iff_reaches (mem_cursorNames_of_frameEdges committed wanted)
        (Nat.le_refl _), BreadthFirst.reaches_iff_stepsTo]
      simp [DepthAllows]

/-- `expand` returns the unfolding of the graph from its node along the edges
of clusters and environments, with as many levels below the node as the depth
says, and each object has the name, the type and the dependencies of the node
it stands for.  The name is given without the prefix of the environment. -/
theorem expand_unfolds (starts : Starts world version envName nodeName opened start)
    (opensDependency : graphdb .dependency version opened = (.ok (), both)) :
    (∀ depth, ∃ rounds, ∀ more,
      (expand (rounds + more) envName nodeName version (some depth) world).1 =
        .ok (some (some (unfolding (frameEdges opened.primary.inst start.wantedVersion)
          (expandedObject opened both envName start) depth [] start.name)))) ∧
    (∀ levels, (GraphDB.cursorNames opened.primary.inst).length ≤ levels →
      ∃ rounds, ∀ more, (expand (rounds + more) envName nodeName version none world).1 =
        .ok (some (some (unfolding (frameEdges opened.primary.inst start.wantedVersion)
          (expandedObject opened both envName start) levels [] start.name)))) ∧
    ∀ levels name object,
      (name, object) ∈ (unfolding (frameEdges opened.primary.inst start.wantedVersion)
        (expandedObject opened both envName start) levels [] start.name).labels start.name →
      object.name = unprefixNodeName envName name ∧
        object.type = (opened.primary.inst.readNode name).nodeType.name ∧
        object.dependencies = dependencyNames both.dependency name := by
  refine ⟨fun depth => ?_, fun levels enough => ?_, fun levels name object shown => ?_⟩
  · exact @expand_eq _ _ _ _ (some depth) _ _ _ starts opensDependency depth rfl
  · exact @expand_eq _ _ _ _ none _ _ _ starts opensDependency levels
      (Enough.root enough)
  · rw [mem_labels_unfolding] at shown
    obtain ⟨rfl, -⟩ := shown
    exact ⟨rfl, rfl, rfl⟩

/-- An environment with two clusters that contain each other; one has a tag and
depends on the other, which has a host. -/
def circular : List WriteCall :=
  [⟨.createEnv, ["e"], 1⟩, ⟨.addClusterToEnv, ["e", "c"], 2⟩,
    ⟨.addClusterToCluster, ["e", "c", "d"], 3⟩, ⟨.addClusterToCluster, ["e", "d", "c"], 4⟩,
    ⟨.addHostToCluster, ["e", "d", "h"], 5⟩, ⟨.addNodeKeyValue, ["e", "c", "k", "v"], 6⟩,
    ⟨.addNodeExtDependency, ["e", "c", "e", "d"], 7⟩]

theorem expand_unfolds_circular :
    ∃ rounds, ∀ more, (expand (rounds + more) "e" "c" none (some 2)
        (World.empty.calls circular)).1 =
      .ok (some (some (unfolding
        (frameEdges (atCurrent .primary (World.empty.calls circular)).primary.inst none)
        (expandedObject (atCurrent .primary (World.empty.calls circular))
          (atCurrent .dependency (atCurrent .primary (World.empty.calls circular))) "e"
          ⟨"e#c", none, some ((World.empty.calls circular).primary.inst.readNode "e#c")⟩)
        2 [] "e#c"))) :=
  (@expand_unfolds (World.empty.calls circular) (atCurrent .primary (World.empty.calls circular))
    (atCurrent .dependency (atCurrent .primary (World.empty.calls circular))) none "e" "c"
    ⟨"e#c", none, some ((World.empty.calls circular).primary.inst.readNode "e#c")⟩
    ⟨World.empty_quiet.calls circular, rfl, by decide +kernel⟩ rfl).1 2

/-! ## Tags -/

/-- The tags that a node of the graph has itself. -/
def OwnTags (graph : GraphDB) (name : String) (tags : AList fun _ : String => List String) :
    Prop :=
  ∃ node, graph.getNode name = some node ∧
    ∀ key, tags.lookup key = (node.tags graph.inst).lookup key

theorem fetchAllKeys_eq (opens : graphdb .primary version world = (.ok (), opened))
    {env name : String} {node : Node}
    (found : (getNode .primary env name opened).1 = .ok (some node)) :
    (fetchAllKeys env name version world).1 = .ok (node.tags opened.primary.inst) := by
  have foundHere : getNode .primary env name opened = (.ok (some node), opened) := by
    rw [getNode_apply] at found ⊢
    rw [← found]
  unfold fetchAllKeys
  rw [bind_of_ok opens, bind_of_ok foundHere]
  rfl

/-- `fetch_all_keys` gives the tags of the node it is asked for.  Every object
in what `expand` returns has the tags of its own node if and only if all nodes
within the depth have the tags of the node the call starts from. -/
theorem own_tags_iff (starts : Starts world version envName nodeName opened start)
    (opensDependency : graphdb .dependency version opened = (.ok (), both))
    (depth : Option Nat) :
    (∀ env name node, (getNode .primary env name opened).1 = .ok (some node) →
      (fetchAllKeys env name version world).1 = .ok (node.tags opened.primary.inst)) ∧
    ∃ rounds tree,
      (∀ more, (expand (rounds + more) envName nodeName version depth world).1 =
        .ok (some (some tree))) ∧
      ((∀ name object, (name, object) ∈ tree.labels start.name →
          OwnTags opened.primary name object.tags) ↔
        ∀ name length, DepthAllows depth length →
          BreadthFirst.StepsTo (frameEdges opened.primary.inst start.wantedVersion) length
            start.name name →
          OwnTags opened.primary name (start.tags opened.primary.inst)) := by
  refine ⟨fun env name node found => fetchAllKeys_eq starts.opens found, ?_⟩
  obtain ⟨levels, fits, within⟩ := exists_levels starts.committed start.wantedVersion depth
  obtain ⟨rounds, runs⟩ := expand_eq starts opensDependency fits
  refine ⟨rounds, _, runs, ?_⟩
  simp only [mem_labels_unfolding, within]
  constructor
  · intro own name length allowed steps
    exact own name _ ⟨rfl, length, allowed, steps⟩
  · rintro same name object ⟨rfl, length, allowed, steps⟩
    exact same name length allowed steps

theorem own_tags_iff_circular :
    ∃ rounds tree,
      (∀ more, (expand (rounds + more) "e" "c" none none (World.empty.calls circular)).1 =
        .ok (some (some tree))) ∧
      ((∀ name object, (name, object) ∈ tree.labels "e#c" →
          OwnTags (atCurrent .primary (World.empty.calls circular)).primary name object.tags) ↔
        ∀ name length, DepthAllows none length →
          BreadthFirst.StepsTo
            (frameEdges (atCurrent .primary (World.empty.calls circular)).primary.inst none) length
            "e#c" name →
          OwnTags (atCurrent .primary (World.empty.calls circular)).primary name
            (Node.tags ⟨"e#c", none,
              some ((World.empty.calls circular).primary.inst.readNode "e#c")⟩
              (World.empty.calls circular).primary.inst)) :=
  (@own_tags_iff (World.empty.calls circular) (atCurrent .primary (World.empty.calls circular))
    (atCurrent .dependency (atCurrent .primary (World.empty.calls circular))) none "e" "c"
    ⟨"e#c", none, some ((World.empty.calls circular).primary.inst.readNode "e#c")⟩
    ⟨World.empty_quiet.calls circular, rfl, by decide +kernel⟩ rfl none).2

theorem exists_ok_of_toOption {Error Value Result : Type} {outcome : Except Error Value}
    {view : Value → Result} {result : Result}
    (viewed : outcome.toOption.map view = some result) :
    ∃ value, outcome = .ok value ∧ view value = result := by
  cases outcome with
  | error error => simp [Except.toOption] at viewed
  | ok value => exact ⟨value, rfl, by simpa [Except.toOption] using viewed⟩

/-- The host has no tags, but the tags of the cluster in its object. -/
theorem foreign_tags_circular :
    ∃ tree object tags,
      (expand 60 "e" "c" none none (World.empty.calls circular)).1 = .ok (some (some tree)) ∧
      ("h", object) ∈ tree.labels "e#c" ∧ object.tags.lookup "k" = some ["v"] ∧
      (fetchAllKeys "" "h" none (World.empty.calls circular)).1 = .ok tags ∧
      tags.lookup "k" = none := by
  obtain ⟨returned, expands, shown⟩ := @exists_ok_of_toOption _ _ _
    (expand 60 "e" "c" none none (World.empty.calls circular)).1
    (fun returned => returned.bind fun tree => tree.map fun tree =>
      ((Tree.labels "e#c" tree).map fun entry => (entry.1, entry.2.tags.lookup "k")))
    (some [("e#c", some ["v"]), ("e#d", some ["v"]), ("h", some ["v"])]) (by decide +kernel)
  obtain ⟨tags, fetched, isEmpty⟩ := @exists_ok_of_toOption _ _ _
    (fetchAllKeys "" "h" none (World.empty.calls circular)).1 (fun tags => tags.lookup "k") none
    (by decide +kernel)
  rw [Option.bind_eq_some_iff] at shown
  obtain ⟨_, rfl, shown⟩ := shown
  obtain ⟨tree, rfl, labels⟩ := Option.map_eq_some_iff.mp shown
  have member : ("h", some ["v"]) ∈
      (Tree.labels "e#c" tree).map fun entry => (entry.1, entry.2.tags.lookup "k") := by
    rw [labels]
    simp
  obtain ⟨⟨name, object⟩, isLabel, same⟩ := List.mem_map.mp member
  obtain ⟨rfl, isValue⟩ := Prod.mk.inj same
  exact ⟨tree, object, tags, expands, isLabel, isValue, fetched, isEmpty⟩

end RangeApi

end Rangexx
