import Rangexx.RangeVersions

/-!
# Queries one after another

The backend keeps a map from graphs to wanted versions.  Opening a graph at a
version below the number of range versions sets the map from the entry of that
version; opening it at any higher version leaves the map, and the graph is
positioned by what an earlier query put there.  A query is a program that opens
graphs at one version and computes its answer from the opened objects; the
calls of the read API have this form.
-/

namespace Rangexx

open StateProgram

/-- A computation that opens graphs at one version and answers. -/
inductive Query (Value : Type) where
  | answer (result : Except ApiError Value)
  | opened (graph : GraphName) (next : GraphDB → Query Value)

namespace Query

/-- The query as a program. -/
def run {Value : Type} (version : Option Nat) : Query Value → Api Value
  | answer result => fun world => (result, world)
  | opened graph next => do
      RangeApi.graphdb graph version
      let object ← StateProgram.read fun world => world.graph graph
      (next object).run version

end Query

/-- A call of the read API: it opens a graph before anything else. -/
structure ReadCall where
  Value : Type
  version : Option Nat
  graph : GraphName
  next : GraphDB → Query Value

namespace ReadCall

/-- Run the call. -/
def run (call : ReadCall) : Api call.Value :=
  (Query.opened call.graph call.next).run call.version

/-- A call that opens the primary graph once. -/
def reading {Value : Type} (version : Option Nat) (answer : GraphDB → Except ApiError Value) :
    ReadCall :=
  ⟨Value, version, .primary, fun graph => .answer (answer graph)⟩

theorem run_reading {Value : Type} (version : Option Nat)
    (answer : GraphDB → Except ApiError Value) :
    (reading version answer).run = RangeApi.answering version answer :=
  rfl

theorem run_of_eq {Value : Type} {version : Option Nat} {graph : GraphName}
    {next : GraphDB → Query Value} {rest : Api Value}
    (same : ∀ opened, rest opened = (next (opened.graph graph)).run version opened) :
    (RangeApi.graphdb graph version >>= fun _ => rest) =
      ReadCall.run ⟨Value, version, graph, next⟩ := by
  change _ = (RangeApi.graphdb graph version >>= fun _ => _)
  congr
  funext _ opened
  exact same opened

end ReadCall

/-! ## The calls of the read API -/

namespace RangeApi

open Api

/-- What `all_clusters` reads. -/
def clustersBelow (graph : GraphDB) (envName : String) : Except ApiError (List String) :=
  match graph.getNode envName with
  | none => .error (.nodeNotFound envName)
  | some node => .ok (((search graph.inst .forward node []).filter fun name =>
      (graph.inst.readNode name).nodeType = .cluster).map (unprefixNodeName envName))

/-- What `all_environments` and `all_hosts` read. -/
def ofType (graph : GraphDB) (type : NodeType) (version : Option Nat) : List String :=
  (versionFilter graph.inst (version.getD graph.version)).filter fun name =>
    (graph.inst.readNode name).nodeType = type

/-- What `find_orphaned_nodes` reads once it has the environments. -/
def orphans (graph : GraphDB) (envs : List String) (version : Option Nat) :
    Except ApiError (List (String × String)) :=
  match visitEnvironments graph envs [] with
  | none => .error .nullPointer
  | some visited => .ok (((versionFilter graph.inst (version.getD graph.version)).filter
      fun name => name ∉ visited).map fun name =>
        ((graph.inst.readNode name).nodeType.name, name))

theorem simpleExpand_run (envName nodeName : String) (version : Option Nat) (type : NodeType) :
    simpleExpand envName nodeName version type = (ReadCall.reading version fun graph =>
      inNode graph envName nodeName (expansion graph envName type)).run :=
  simpleExpand_eq envName nodeName version type

theorem getKeys_run (envName nodeName : String) (version : Option Nat) :
    getKeys envName nodeName version = (ReadCall.reading version fun graph =>
      inNode graph envName nodeName fun node => .ok (node.tags graph.inst).keys).run :=
  getKeys_eq envName nodeName version

theorem fetchKey_run (envName nodeName key : String) (version : Option Nat) :
    fetchKey envName nodeName key version = (ReadCall.reading version fun graph =>
      inNode graph envName nodeName (keyValues graph key)).run :=
  fetchKey_eq envName nodeName key version

theorem getClusters_run (envName nodeName : String) (version : Option Nat) :
    getClusters envName nodeName version = (ReadCall.reading version fun graph =>
      parents graph envName nodeName).run :=
  getClusters_eq envName nodeName version

theorem allClusters_run (envName : String) (version : Option Nat) :
    allClusters envName version =
      (ReadCall.reading version fun graph => clustersBelow graph envName).run := by
  rw [ReadCall.run_reading]
  apply eq_answering
  intro opened
  rw [Api.getNode, read_bind]
  unfold clustersBelow
  simp only [World.graph]
  cases opened.primary.getNode envName with
  | none => rfl
  | some node => rfl

theorem allOfType_run (type : NodeType) (version : Option Nat) :
    allOfType type version =
      (ReadCall.reading version fun graph => .ok (ofType graph type version)).run :=
  rfl

theorem findOrphanedNodes_run (version : Option Nat) :
    findOrphanedNodes version = ReadCall.run ⟨List (String × String), version, .primary,
      fun _ => .opened .primary fun graph =>
        .answer (orphans graph (ofType graph .environment version) version)⟩ := by
  apply ReadCall.run_of_eq
  intro world
  cases outcome : graphdb .primary version world with
  | mk result opened =>
      cases result with
      | error error =>
          have failed : allEnvironments version world = (.error error, opened) :=
            bind_of_error outcome
          rw [bind_of_error failed]
          exact (bind_of_error outcome).symm
      | ok value =>
          have listed : allEnvironments version world =
              (.ok (ofType opened.primary .environment version), opened) :=
            bind_of_ok outcome
          rw [bind_of_ok listed, read_bind]
          refine Eq.trans ?_ (bind_of_ok outcome).symm
          change _ = (orphans opened.primary (ofType opened.primary .environment version) version,
            opened)
          unfold orphans
          cases visitEnvironments opened.primary
              (ofType opened.primary .environment version) [] with
          | none => rfl
          | some visited => rfl

end RangeApi

/-! ## Opening a graph -/

/-- The version of a graph that an entry names. -/
def RangeChange.named (change : RangeChange) (graph : GraphName) : Option Nat :=
  (change.items.find? fun item => item.key = graph).map ChangeItem.version

namespace World

/-- The map after `BerkeleyDB::set_wanted_version`. -/
def seek (world : World) (version : Nat) : AList fun _ : GraphName => Nat :=
  (seekRangeVersion version world.rangeChanges.change.reverse
    world.graphWantedVersionMap).getD world.graphWantedVersionMap

/-- The graph object after both calls of `set_wanted_version`. -/
def positioned (inst : GraphInstance) (version : Nat) (wanted : Option Nat) :
    Except GraphError Bool × GraphDB :=
  ((GraphDB.ofInstance inst).setWantedVersion (some version)).2.setWantedVersion wanted

theorem seek_within {changes : List RangeChange} {version : Nat} (positive : 0 < version)
    (within : version < changes.length) (map : AList fun _ : GraphName => Nat) :
    ∃ later, seekRangeVersion version changes.reverse map =
      some (changes[version].items.foldl (fun map item => map.insert item.key item.version)
        later) := by
  have split : changes = changes.take version ++ changes[version] :: changes.drop (version + 1) := by
    rw [List.getElem_cons_drop, List.take_append_drop]
  have length : (changes.take version).length = version := List.length_take_of_le (by omega)
  have front : changes.take version ≠ [] := by
    intro nothing
    rw [nothing, List.length_nil] at length
    omega
  obtain ⟨later, found⟩ := seekRangeVersion_eq front changes[version]
    (changes.drop (version + 1)) map
  rw [← split, length] at found
  exact ⟨later, found⟩

theorem seek_beyond {changes : List RangeChange} (nonempty : changes ≠ []) {version : Nat}
    (beyond : changes.length ≤ version) (map : AList fun _ : GraphName => Nat) :
    seekRangeVersion version changes.reverse map = some map := by
  cases reversed : changes.reverse with
  | nil => exact absurd (List.reverse_eq_nil_iff.mp reversed) nonempty
  | cons change rest =>
      have length : changes.length = rest.length + 1 := by
        rw [← List.length_reverse, reversed, List.length_cons]
      rw [seekRangeVersion, if_neg (by omega)]

theorem seek_eq_some {world : World} (nonempty : world.rangeChanges.change ≠ []) {version : Nat}
    (positive : 0 < version) :
    seekRangeVersion version world.rangeChanges.change.reverse world.graphWantedVersionMap =
      some (world.seek version) := by
  unfold seek
  by_cases within : version < world.rangeChanges.change.length
  · obtain ⟨later, found⟩ := seek_within positive within world.graphWantedVersionMap
    rw [found]
    rfl
  · rw [seek_beyond nonempty (by omega)]
    rfl

/-- A version beyond the list leaves the map as it is. -/
theorem seek_of_le {world : World} (nonempty : world.rangeChanges.change ≠ []) {version : Nat}
    (beyond : world.rangeChanges.change.length ≤ version) :
    world.seek version = world.graphWantedVersionMap := by
  unfold seek
  rw [seek_beyond nonempty beyond]
  rfl

/-- Every entry of the range changelist names an earlier version of both
graphs. -/
def Listed (world : World) : Prop :=
  ∀ change ∈ world.rangeChanges.change, ∃ (earlier : World) (timestamp : Nat),
    change = earlier.versionEntry timestamp ∧
      ∀ graph, (earlier.graph graph).inst.changelist.currentVersion ≤
        (world.graph graph).inst.changelist.currentVersion

theorem lookup_insert_versionEntry (earlier : World) (timestamp : Nat)
    (map : AList fun _ : GraphName => Nat) (graph : GraphName) :
    ((earlier.versionEntry timestamp).items.foldl (fun map item =>
      map.insert item.key item.version) map).lookup graph =
      (earlier.versionEntry timestamp).named graph := by
  cases graph with
  | primary => exact earlier.lookup_versionEntry timestamp map
  | dependency =>
      simp only [versionEntry, List.foldl_cons, List.foldl_nil]
      exact AList.lookup_insert _

/-- A version within the list sets the map from its entry, whatever was there. -/
theorem lookup_seek_of_lt {world : World} (listed : world.Listed) {version : Nat}
    (positive : 0 < version) (within : version < world.rangeChanges.change.length)
    (graph : GraphName) :
    (world.seek version).lookup graph = (world.rangeChanges.change[version]).named graph := by
  obtain ⟨later, found⟩ := seek_within positive within world.graphWantedVersionMap
  unfold seek
  rw [found, Option.getD_some]
  obtain ⟨earlier, timestamp, isEntry, -⟩ := listed _ (List.getElem_mem within)
  rw [isEntry]
  exact lookup_insert_versionEntry earlier timestamp later graph

/-- The outcome of `set_wanted_version` as the API passes it on. -/
def passedOn : Except GraphError Bool → Except ApiError Unit
  | .error error => .error (.database error)
  | .ok _ => .ok ()

theorem setGraphVersion_eq (graph : GraphName) (version : Option Nat) (world : World) :
    Api.setGraphVersion graph version world =
      (passedOn ((world.graph graph).setWantedVersion version).1,
        world.setGraph graph ((world.graph graph).setWantedVersion version).2) := by
  unfold Api.setGraphVersion
  cases (world.graph graph).setWantedVersion version with
  | mk result after => cases result <;> rfl

theorem setGraph_setGraph (world : World) (graph : GraphName) (first second : GraphDB) :
    (world.setGraph graph first).setGraph graph second = world.setGraph graph second := by
  cases graph <;> rfl

/-- What opening a graph at a version does: it positions the map and then the
graph. -/
theorem graphdb_some {world : World} {graph : GraphName} {version : Nat}
    (committed : Committed (world.graph graph).inst)
    (nonempty : world.rangeChanges.change ≠ []) (positive : 0 < version) :
    RangeApi.graphdb graph (some version) world =
      (passedOn (positioned (world.graph graph).inst version
          ((world.seek version).lookup graph)).1,
        { world with graphWantedVersionMap := world.seek version }.setGraph graph
          (positioned (world.graph graph).inst version
            ((world.seek version).lookup graph)).2) := by
  obtain ⟨result, first, isSet, -, -⟩ := RangeApi.setWantedVersion_new committed positive
  have stepOne : Api.setGraphVersion graph (some version)
      (world.setGraph graph (.ofInstance (world.graph graph).inst)) =
      (.ok (), world.setGraph graph first) := by
    rw [setGraphVersion_eq, graph_setGraph, isSet, setGraph_setGraph]
    rfl
  have stepTwo : Api.setBackendVersion version (world.setGraph graph first) =
      (.ok (), { world with graphWantedVersionMap := world.seek version }.setGraph graph
        first) := by
    unfold Api.setBackendVersion
    have sought := seek_eq_some nonempty positive
    cases graph with
    | primary =>
        simp only [setGraph]
        rw [sought]
    | dependency =>
        simp only [setGraph]
        rw [sought]
  have wanted : (({ world with graphWantedVersionMap := world.seek version } : World).setGraph
      graph first).graphWantedVersionMap = world.seek version := by
    cases graph <;> rfl
  unfold RangeApi.graphdb
  rw [update_bind]
  dsimp only
  rw [bind_of_ok stepOne, bind_of_ok stepTwo, read_bind, wanted, setGraphVersion_eq,
    graph_setGraph, setGraph_setGraph]
  unfold positioned
  rw [isSet]

/-! ## What a query leaves and what it depends on -/

/-- A store with at least one range version, between two calls. -/
structure Stocked (world : World) : Prop where
  committed : ∀ graph, Committed (world.graph graph).inst
  nonempty : world.rangeChanges.change ≠ []
  listed : world.Listed

theorem Stocked.of_tables {world other : World} (stocked : world.Stocked)
    (same : other.tables = world.tables) : other.Stocked := by
  have ranges : other.rangeChanges = world.rangeChanges := congrArg Tables.rangeChanges same
  refine ⟨fun graph => ?_, ?_, ?_⟩
  · rw [inst_of_tables same graph]
    exact stocked.committed graph
  · rw [ranges]
    exact stocked.nonempty
  · intro change member
    rw [ranges] at member
    obtain ⟨earlier, timestamp, isEntry, below⟩ := stocked.listed change member
    refine ⟨earlier, timestamp, isEntry, fun graph => ?_⟩
    rw [inst_of_tables same graph]
    exact below graph

/-- The versions of the graphs once the backend was told a version. -/
def wantedBy (world : World) : Option Nat → GraphName → Option Nat
  | none, graph => world.graphWantedVersionMap.lookup graph
  | some version, graph => (world.seek version).lookup graph

theorem wantedBy_some {world : World} (stocked : world.Stocked) {version : Nat}
    (positive : 0 < version) (graph : GraphName) :
    world.wantedBy (some version) graph =
      if within : version < world.rangeChanges.change.length then
        (world.rangeChanges.change[version]).named graph
      else world.graphWantedVersionMap.lookup graph := by
  split
  · exact lookup_seek_of_lt stocked.listed positive ‹_› graph
  · rw [wantedBy, seek_of_le stocked.nonempty (by omega)]

/-- Telling the backend the same version again changes nothing. -/
theorem wantedBy_again {world other : World} (stocked : world.Stocked) {version : Option Nat}
    (positive : version ≠ some 0) (same : other.tables = world.tables)
    (told : ∀ graph, other.graphWantedVersionMap.lookup graph = world.wantedBy version graph)
    (graph : GraphName) : other.wantedBy version graph = world.wantedBy version graph := by
  cases version with
  | none => exact told graph
  | some version =>
      have above : 0 < version := by
        rw [Nat.pos_iff_ne_zero]
        rintro rfl
        exact positive rfl
      have ranges : other.rangeChanges = world.rangeChanges := congrArg Tables.rangeChanges same
      rw [wantedBy_some (stocked.of_tables same) above, ranges, told graph,
        wantedBy_some stocked above]
      split
      · rfl
      · rfl

theorem setWantedVersion_inst (graph : GraphDB) (wanted : Option Nat) :
    (graph.setWantedVersion wanted).2.inst = graph.inst := by
  unfold GraphDB.setWantedVersion
  split
  · rfl
  · split
    · rfl
    · split
      · dsimp only
        split
        · rfl
        · split
          · rfl
          · rfl
      · rfl

theorem tables_setGraph {world : World} {graph : GraphName} {object : GraphDB}
    (same : object.inst = (world.graph graph).inst) :
    (world.setGraph graph object).tables = world.tables := by
  cases graph with
  | primary =>
      unfold tables setGraph
      rw [same]
      rfl
  | dependency =>
      unfold tables setGraph
      rw [same]
      rfl

/-- Opening a graph leaves the stored data, and the map says what the backend
was told. -/
theorem graphdb_leaves {world : World} (stocked : world.Stocked) {version : Option Nat}
    (positive : version ≠ some 0) (graph : GraphName) :
    (RangeApi.graphdb graph version world).2.tables = world.tables ∧
      ∀ other, (RangeApi.graphdb graph version world).2.graphWantedVersionMap.lookup other =
        world.wantedBy version other := by
  cases version with
  | none =>
      refine ⟨tables_setGraph rfl, fun other => ?_⟩
      cases graph with
      | primary => rfl
      | dependency => rfl
  | some version =>
      rw [graphdb_some (stocked.committed graph) stocked.nonempty
        (Nat.pos_of_ne_zero fun zero => positive (congrArg some zero))]
      constructor
      · refine (tables_setGraph ?_).trans rfl
        unfold positioned
        rw [setWantedVersion_inst, setWantedVersion_inst]
        cases graph with
        | primary => rfl
        | dependency => rfl
      · intro other
        cases graph with
        | primary => rfl
        | dependency => rfl

/-- Two stores that a query at a version cannot tell apart. -/
structure Agrees (version : Option Nat) (world other : World) : Prop where
  tables : other.tables = world.tables
  wanted : version ≠ none → ∀ graph, other.wantedBy version graph = world.wantedBy version graph

/-- The same object is opened in both. -/
theorem Agrees.opens {version : Option Nat} {world other : World}
    (agrees : Agrees version world other) (stocked : world.Stocked) (positive : version ≠ some 0)
    (graph : GraphName) :
    (RangeApi.graphdb graph version other).1 = (RangeApi.graphdb graph version world).1 ∧
      (RangeApi.graphdb graph version other).2.graph graph =
        (RangeApi.graphdb graph version world).2.graph graph := by
  have sameInst := inst_of_tables agrees.tables graph
  cases version with
  | none =>
      rw [RangeApi.graphdb_none, RangeApi.graphdb_none]
      refine ⟨rfl, ?_⟩
      rw [graph_setGraph, graph_setGraph, sameInst]
  | some version =>
      have above : 0 < version := Nat.pos_of_ne_zero fun zero => positive (congrArg some zero)
      have otherStocked := stocked.of_tables agrees.tables
      have sought : (other.seek version).lookup graph = (world.seek version).lookup graph :=
        agrees.wanted (by simp) graph
      rw [graphdb_some (stocked.committed graph) stocked.nonempty above,
        graphdb_some (otherStocked.committed graph) otherStocked.nonempty above, sought, sameInst]
      refine ⟨rfl, ?_⟩
      rw [graph_setGraph, graph_setGraph]

theorem Agrees.after {version : Option Nat} {world other : World}
    (agrees : Agrees version world other) (stocked : world.Stocked) (positive : version ≠ some 0)
    (graph : GraphName) :
    Agrees version (RangeApi.graphdb graph version world).2
      (RangeApi.graphdb graph version other).2 := by
  have otherStocked := stocked.of_tables agrees.tables
  obtain ⟨kept, told⟩ := graphdb_leaves stocked positive graph
  obtain ⟨otherKept, otherTold⟩ := graphdb_leaves otherStocked positive graph
  refine ⟨otherKept.trans (agrees.tables.trans kept.symm), fun given graph => ?_⟩
  rw [wantedBy_again otherStocked positive otherKept otherTold,
    wantedBy_again stocked positive kept told]
  exact agrees.wanted given graph

end World

namespace Query

open World

variable {Value : Type} {version : Option Nat}

theorem run_opened (graph : GraphName) (next : GraphDB → Query Value) {world opened : World}
    (opens : RangeApi.graphdb graph version world = (.ok (), opened)) :
    (Query.opened graph next).run version world =
      (next (opened.graph graph)).run version opened := by
  rw [run, bind_of_ok opens, read_bind]

theorem run_unopened (graph : GraphName) (next : GraphDB → Query Value) {world after : World}
    {error : ApiError} (fails : RangeApi.graphdb graph version world = (.error error, after)) :
    (Query.opened graph next).run version world = (.error error, after) := by
  rw [run, bind_of_error fails]

/-- A query leaves what the opening of its first graph left. -/
theorem run_leaves (query : Query Value) (positive : version ≠ some 0) {start world : World}
    (stocked : start.Stocked) (kept : world.tables = start.tables)
    (told : ∀ graph, world.graphWantedVersionMap.lookup graph = start.wantedBy version graph) :
    (query.run version world).2.tables = start.tables ∧
      ∀ graph, (query.run version world).2.graphWantedVersionMap.lookup graph =
        start.wantedBy version graph := by
  induction query generalizing world with
  | answer result => exact ⟨kept, told⟩
  | opened graph next ih =>
      obtain ⟨keptNext, toldNext⟩ := graphdb_leaves (stocked.of_tables kept) positive graph
      have toldStart : ∀ other,
          (RangeApi.graphdb graph version world).2.graphWantedVersionMap.lookup other =
            start.wantedBy version other := by
        intro other
        rw [toldNext other]
        exact wantedBy_again stocked positive kept told other
      cases opens : RangeApi.graphdb graph version world with
      | mk result opened =>
          rw [opens] at keptNext toldStart
          cases result with
          | error error =>
              rw [run_unopened graph next opens]
              exact ⟨keptNext.trans kept, toldStart⟩
          | ok value =>
              rw [run_opened graph next opens]
              exact ih (opened.graph graph) (keptNext.trans kept) toldStart

/-- A query gives the same result in stores it cannot tell apart. -/
theorem run_agrees (query : Query Value) (positive : version ≠ some 0) {world other : World}
    (stocked : world.Stocked) (agrees : Agrees version world other) :
    (query.run version other).1 = (query.run version world).1 := by
  induction query generalizing world other with
  | answer result => rfl
  | opened graph next ih =>
      obtain ⟨sameResult, sameObject⟩ := agrees.opens stocked positive graph
      have agreesNext := agrees.after stocked positive graph
      have keptNext := (graphdb_leaves stocked positive graph).1
      cases opens : RangeApi.graphdb graph version world with
      | mk result opened =>
          cases opensOther : RangeApi.graphdb graph version other with
          | mk resultOther openedOther =>
              rw [opens, opensOther] at sameResult sameObject agreesNext
              rw [opens] at keptNext
              dsimp only at sameResult sameObject agreesNext keptNext
              subst sameResult
              cases resultOther with
              | error error => rw [run_unopened graph next opens, run_unopened graph next opensOther]
              | ok value =>
                  rw [run_opened graph next opens, run_opened graph next opensOther, sameObject]
                  exact ih (opened.graph graph) (stocked.of_tables keptNext) agreesNext

end Query

/-! ## Sequences of queries -/

namespace World

/-- A backend object that is new to the stored data. -/
def reopened (world : World) : World :=
  { world with graphWantedVersionMap := ∅ }

/-- The store after a sequence of read calls. -/
def reads (world : World) (calls : List ReadCall) : World :=
  calls.foldl (fun world call => (call.run world).2) world

/-- The last version among the calls that is within the range changelist. -/
def lastWithin (world : World) (calls : List ReadCall) : Option Nat :=
  calls.foldl (fun last call => match call.version with
    | none => last
    | some version =>
        if version < world.rangeChanges.change.length then some version else last) none

/-- The version of a graph that the calls leave in the map. -/
def leftBy (world : World) (calls : List ReadCall) (graph : GraphName) : Option Nat :=
  (world.lastWithin calls).bind fun version =>
    (world.rangeChanges.change[version]?).bind fun change => change.named graph

theorem leftBy_concat (world : World) (calls : List ReadCall) (call : ReadCall)
    (graph : GraphName) :
    world.leftBy (calls ++ [call]) graph = match call.version with
      | none => world.leftBy calls graph
      | some version =>
          if within : version < world.rangeChanges.change.length then
            (world.rangeChanges.change[version]).named graph
          else world.leftBy calls graph := by
  unfold leftBy lastWithin
  rw [List.foldl_concat]
  cases call.version with
  | none => rfl
  | some version =>
      dsimp only
      split
      · rw [Option.bind_some, List.getElem?_eq_getElem ‹_›, Option.bind_some]
      · rfl

/-- A call leaves the stored data, and the map says what the backend was
told. -/
theorem readCall_leaves {world : World} (stocked : world.Stocked) (call : ReadCall)
    (positive : call.version ≠ some 0) :
    (call.run world).2.tables = world.tables ∧
      ∀ graph, (call.run world).2.graphWantedVersionMap.lookup graph =
        world.wantedBy call.version graph := by
  obtain ⟨kept, told⟩ := graphdb_leaves stocked positive call.graph
  unfold ReadCall.run
  cases opens : RangeApi.graphdb call.graph call.version world with
  | mk result opened =>
      rw [opens] at kept told
      cases result with
      | error error =>
          rw [Query.run_unopened call.graph call.next opens]
          exact ⟨kept, told⟩
      | ok value =>
          rw [Query.run_opened call.graph call.next opens]
          exact (call.next (opened.graph call.graph)).run_leaves positive stocked kept told

/-- After any sequence of calls the stored data is as before and the map holds
what the last call within the range changelist put there. -/
theorem reads_leaves {store : World} (stocked : store.Stocked)
    (unread : store.graphWantedVersionMap = ∅) (calls : List ReadCall)
    (positive : ∀ call ∈ calls, call.version ≠ some 0) :
    (store.reads calls).tables = store.tables ∧
      ∀ graph, (store.reads calls).graphWantedVersionMap.lookup graph =
        store.leftBy calls graph := by
  induction calls using List.reverseRecOn with
  | nil =>
      refine ⟨rfl, fun graph => ?_⟩
      change store.graphWantedVersionMap.lookup graph = none
      rw [unread, AList.lookup_empty]
  | append_singleton calls call ih =>
      obtain ⟨kept, held⟩ := ih fun call member => positive call (List.mem_append_left _ member)
      have above : call.version ≠ some 0 := positive call (by simp)
      have between := stocked.of_tables kept
      have ranges : (store.reads calls).rangeChanges = store.rangeChanges :=
        congrArg Tables.rangeChanges kept
      obtain ⟨keptNext, told⟩ := readCall_leaves between call above
      rw [show store.reads (calls ++ [call]) = (call.run (store.reads calls)).2 from
        List.foldl_concat ..]
      refine ⟨keptNext.trans kept, fun graph => ?_⟩
      rw [told graph, leftBy_concat]
      cases isVersion : call.version with
      | none => exact held graph
      | some version =>
          have aboveZero : 0 < version := by
            rw [Nat.pos_iff_ne_zero]
            rintro rfl
            exact above isVersion
          rw [wantedBy_some between aboveZero, ranges, held graph]

/-! ## Stores that were written through the API -/

theorem listed_calls (writes : List WriteCall) : (empty.calls writes).Listed := by
  induction writes using List.reverseRecOn with
  | nil =>
      intro change member
      cases member
  | append_singleton before call ih =>
      have quiet := empty_quiet.calls before
      intro change member
      rw [calls_concat, quiet.ranges_run call, List.mem_append] at member
      rcases member with old | new
      · obtain ⟨earlier, timestamp, isEntry, below⟩ := ih change old
        refine ⟨earlier, timestamp, isEntry, fun graph => (below graph).trans ?_⟩
        rw [calls_concat]
        exact (WriteCall.run_passage quiet call graph).past.version
      · split at new
        · cases new
        · refine ⟨_, _, List.mem_singleton.mp new, fun graph => ?_⟩
          rw [calls_concat]

theorem stocked_reopened (writes : List WriteCall)
    (nonempty : (empty.calls writes).rangeChanges.change ≠ []) :
    (empty.calls writes).reopened.Stocked := by
  have stocked : (empty.calls writes).Stocked :=
    ⟨(empty_quiet.calls writes).graph, nonempty, listed_calls writes⟩
  exact stocked.of_tables rfl

/-! ## When queries do not interfere -/

/-- Opening a graph and reading its wanted version. -/
def probe (graph : GraphName) : Query (Option Nat) :=
  .opened graph fun object => .answer (.ok object.wantedVersion)

section Position

variable {inst : GraphInstance} (committed : Committed inst) {version : Nat}
  (positive : 0 < version)

include committed positive

/-- The graph ends up at the version the map names, if it is one of the
graph's. -/
theorem positioned_wanted {wanted : Option Nat}
    (within : ∀ target ∈ wanted, target ≤ inst.changelist.currentVersion) :
    (positioned inst version wanted).2.wantedVersion = wanted := by
  obtain ⟨_, first, isSet, sameInst, -⟩ := RangeApi.setWantedVersion_new committed positive
  unfold positioned
  rw [isSet]
  dsimp only
  unfold GraphDB.setWantedVersion
  split
  · exact Eq.symm ‹_›
  · cases wanted with
    | none => rfl
    | some target =>
        have le : target ≤ first.version := by
          have version_eq : first.version = inst.changelist.currentVersion := by
            unfold GraphDB.version
            rw [sameInst]
            exact committed.version_eq
          rw [version_eq]
          exact within target rfl
        dsimp only
        rw [if_pos le]
        split
        · rfl
        · split
          · rfl
          · rfl

/-- Only the version zero makes it throw. -/
theorem positioned_ok {wanted : Option Nat}
    (within : ∀ target ∈ wanted, target ≤ inst.changelist.currentVersion)
    (notZero : wanted ≠ some 0) :
    passedOn (positioned inst version wanted).1 = .ok () := by
  obtain ⟨_, first, isSet, sameInst, stands⟩ := RangeApi.setWantedVersion_new committed positive
  unfold positioned
  rw [isSet]
  cases wanted with
  | none =>
      unfold GraphDB.setWantedVersion
      split
      · rfl
      · rfl
  | some target =>
      have firstCommitted : Committed first.inst := by
        rw [sameInst]
        exact committed
      obtain ⟨_, again, -⟩ := GraphDB.setWantedVersion_eq firstCommitted stands
        (Nat.pos_of_ne_zero fun zero => notZero (congrArg some zero))
        (by rw [sameInst]; exact within target rfl)
      dsimp only
      rw [again]
      rfl

end Position

section Probe

variable {world : World} (stocked : world.Stocked) {version : Nat}
  (beyond : world.rangeChanges.change.length ≤ version) {graph : GraphName}
  (within : ∀ target ∈ world.graphWantedVersionMap.lookup graph,
    target ≤ (world.graph graph).inst.changelist.currentVersion)

include stocked beyond within

theorem probe_run :
    ((probe graph).run (some version) world).1 =
      (passedOn (positioned (world.graph graph).inst version
        (world.graphWantedVersionMap.lookup graph)).1).map
          fun _ => world.graphWantedVersionMap.lookup graph := by
  have committed := stocked.committed graph
  have positive : 0 < version :=
    Nat.lt_of_lt_of_le (List.length_pos_iff.mpr stocked.nonempty) beyond
  have opens := graphdb_some committed stocked.nonempty positive
  rw [seek_of_le stocked.nonempty beyond] at opens
  have reached := positioned_wanted committed positive within
  cases outcome : passedOn (positioned (world.graph graph).inst version
      (world.graphWantedVersionMap.lookup graph)).1 with
  | error error =>
      rw [outcome] at opens
      unfold probe
      rw [Query.run_unopened graph _ opens]
      rfl
  | ok value =>
      rw [outcome] at opens
      unfold probe
      rw [Query.run_opened graph _ opens, graph_setGraph]
      exact congrArg Except.ok reached

/-- What the map names can be read off, unless it is the version zero. -/
theorem probe_of_ne_zero (notZero : world.graphWantedVersionMap.lookup graph ≠ some 0) :
    ((probe graph).run (some version) world).1 =
      .ok (world.graphWantedVersionMap.lookup graph) := by
  have positive : 0 < version :=
    Nat.lt_of_lt_of_le (List.length_pos_iff.mpr stocked.nonempty) beyond
  rw [probe_run stocked beyond within,
    positioned_ok (stocked.committed graph) positive within notZero]
  rfl

theorem lookup_of_probe {wanted : Option Nat}
    (answers : ((probe graph).run (some version) world).1 = .ok wanted) :
    world.graphWantedVersionMap.lookup graph = wanted := by
  rw [probe_run stocked beyond within] at answers
  cases outcome : passedOn (positioned (world.graph graph).inst version
      (world.graphWantedVersionMap.lookup graph)).1 with
  | error error =>
      rw [outcome] at answers
      cases answers
  | ok value =>
      rw [outcome] at answers
      exact Except.ok.inj answers

end Probe

theorem leftBy_le {store : World} (listed : store.Listed) (calls : List ReadCall)
    (graph : GraphName) :
    ∀ target ∈ store.leftBy calls graph,
      target ≤ (store.graph graph).inst.changelist.currentVersion := by
  intro target member
  obtain ⟨version, -, found⟩ := Option.bind_eq_some_iff.mp member
  obtain ⟨change, isChange, named⟩ := Option.bind_eq_some_iff.mp found
  obtain ⟨earlier, timestamp, rfl, below⟩ := listed change (List.mem_of_getElem? isChange)
  have same : some (earlier.graph graph).inst.changelist.currentVersion = some target := by
    rw [← named]
    cases graph with
    | primary => rfl
    | dependency => rfl
  rw [← Option.some.inj same]
  exact below graph

/-- The queries made before change the result of some query at a version
exactly when the version is beyond the range changelist and they left the map
at different versions. -/
theorem reads_independent_iff (writes : List WriteCall)
    (nonempty : (empty.calls writes).rangeChanges.change ≠ []) (first second : List ReadCall)
    (firstPositive : ∀ call ∈ first, call.version ≠ some 0)
    (secondPositive : ∀ call ∈ second, call.version ≠ some 0) (version : Option Nat)
    (positive : version ≠ some 0) :
    (∀ call : ReadCall, call.version = version →
      (call.run ((empty.calls writes).reopened.reads first)).1 =
        (call.run ((empty.calls writes).reopened.reads second)).1) ↔
    ∀ index, version = some index → (empty.calls writes).rangeChanges.change.length ≤ index →
      ∀ graph, (empty.calls writes).reopened.leftBy first graph =
        (empty.calls writes).reopened.leftBy second graph := by
  have stocked := stocked_reopened writes nonempty
  obtain ⟨firstKept, firstHeld⟩ := reads_leaves stocked rfl first firstPositive
  obtain ⟨secondKept, secondHeld⟩ := reads_leaves stocked rfl second secondPositive
  have firstStocked := stocked.of_tables firstKept
  have secondStocked := stocked.of_tables secondKept
  have firstRanges : ((empty.calls writes).reopened.reads first).rangeChanges =
      (empty.calls writes).rangeChanges := congrArg Tables.rangeChanges firstKept
  have secondRanges : ((empty.calls writes).reopened.reads second).rangeChanges =
      (empty.calls writes).rangeChanges := congrArg Tables.rangeChanges secondKept
  constructor
  · -- The probe of the graph tells two positions apart.
    rintro same index rfl beyond graph
    have probed : ((probe graph).run (some index)
        ((empty.calls writes).reopened.reads first)).1 = ((probe graph).run (some index)
        ((empty.calls writes).reopened.reads second)).1 :=
      same ⟨Option Nat, some index, graph, fun object => .answer (.ok object.wantedVersion)⟩ rfl
    rw [← firstHeld, ← secondHeld]
    have firstBeyond := beyond
    have secondBeyond := beyond
    rw [← firstRanges] at firstBeyond
    rw [← secondRanges] at secondBeyond
    have firstWithin := leftBy_le stocked.listed first graph
    have secondWithin := leftBy_le stocked.listed second graph
    rw [← firstHeld, ← inst_of_tables firstKept graph] at firstWithin
    rw [← secondHeld, ← inst_of_tables secondKept graph] at secondWithin
    by_cases zero : ((empty.calls writes).reopened.reads first).graphWantedVersionMap.lookup
        graph = some 0
    · by_contra different
      have notZero : ((empty.calls writes).reopened.reads second).graphWantedVersionMap.lookup
          graph ≠ some 0 := fun alsoZero => different (zero.trans alsoZero.symm)
      rw [probe_of_ne_zero secondStocked secondBeyond secondWithin notZero] at probed
      exact different (lookup_of_probe firstStocked firstBeyond firstWithin probed)
    · rw [probe_of_ne_zero firstStocked firstBeyond firstWithin zero] at probed
      exact (lookup_of_probe secondStocked secondBeyond secondWithin probed.symm).symm
  · rintro left call rfl
    refine Query.run_agrees _ positive secondStocked ⟨firstKept.trans secondKept.symm, ?_⟩
    intro given graph
    cases isVersion : call.version with
    | none => exact absurd isVersion given
    | some index =>
        have above : 0 < index := by
          rw [Nat.pos_iff_ne_zero]
          rintro rfl
          exact positive isVersion
        rw [wantedBy_some firstStocked above, wantedBy_some secondStocked above, firstRanges,
          secondRanges, firstHeld, secondHeld]
        split
        · rfl
        · exact left index isVersion (by omega) graph

section ClusterLost

open RangeApi

/-- The members of `"e"` at a version. -/
def membersAt (version : Nat) : ReadCall :=
  .reading (some version) fun graph => inNode graph "e" "" (expansion graph "e" .unknown)

theorem reads_independent_clusterLost :
    (empty.calls clusterLost).rangeChanges.change.length = 3 ∧
      ((membersAt 2).run ((empty.calls clusterLost).reopened.reads [])).1 =
        ((membersAt 2).run ((empty.calls clusterLost).reopened.reads [membersAt 1])).1 := by
  have length : (empty.calls clusterLost).rangeChanges.change.length = 3 := by decide +kernel
  have nonempty : (empty.calls clusterLost).rangeChanges.change ≠ [] := by
    rw [← List.length_pos_iff, length]
    decide
  refine ⟨length, ?_⟩
  refine (reads_independent_iff clusterLost nonempty [] [membersAt 1] (by simp)
    (by simp [membersAt, ReadCall.reading]) (some 2) (by simp)).mpr ?_ (membersAt 2) rfl
  intro index isIndex beyond
  cases isIndex
  rw [length] at beyond
  omega

/-- Asking for a version that is not there gives the current members on a new
backend, and the members of an earlier version once that version was read. -/
theorem reads_interfere_clusterLost :
    (empty.calls clusterLost).rangeChanges.change.length = 3 ∧
      (simpleExpand "e" "" (some 5) .unknown (empty.calls clusterLost).reopened).1 = .ok [] ∧
      (simpleExpand "e" "" (some 5) .unknown
        (simpleExpand "e" "" (some 1) .unknown (empty.calls clusterLost).reopened).2).1 =
          .ok ["c"] := by
  refine ⟨?_, ?_, ?_⟩
  all_goals decide +kernel

end ClusterLost

end World

end Rangexx
