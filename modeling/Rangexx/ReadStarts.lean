import Rangexx.Queries
import Rangexx.Searches

/-!
# The start of a read call

A read call opens the primary graph at a version and looks up the node it is
to start from.  Both leave the stored data.
-/

namespace Rangexx

open StateProgram

namespace Keeps

open Api RangeApi World

theorem setGraphVersion_tables (graph : GraphName) (wanted : Option Nat) :
    Keeps World.tables (setGraphVersion graph wanted) := by
  intro world
  have sameInst := setWantedVersion_inst (world.graph graph) wanted
  unfold setGraphVersion
  cases outcome : (world.graph graph).setWantedVersion wanted with
  | mk result object =>
      rw [outcome] at sameInst
      cases result with
      | ok value => exact tables_setGraph sameInst
      | error error => exact tables_setGraph sameInst

/-- Opening a graph leaves the stored data, also when it fails. -/
theorem graphdb_tables (graph : GraphName) (version : Option Nat) :
    Keeps World.tables (graphdb graph version) := by
  apply Keeps.bind
  · intro world
    exact tables_setGraph rfl
  · intro _
    cases version with
    | none => exact Keeps.pure ()
    | some version =>
        apply Keeps.bind (setGraphVersion_tables graph _)
        intro _
        apply Keeps.bind
        · intro world
          unfold setBackendVersion
          split <;> rfl
        · intro _
          exact Keeps.bind (Keeps.read _) fun wanted => setGraphVersion_tables graph wanted

end Keeps

namespace RangeApi

open Api World

/-! ## Opening a graph again -/

/-- What the backend is told does not depend on what it was told before. -/
theorem seek_determined (version : Nat) (changes : List RangeChange) :
    (∀ map, seekRangeVersion version changes map = none) ∨
      ∃ told : GraphName → Option Nat, ∀ map, ∃ after,
        seekRangeVersion version changes map = some after ∧
          ∀ graph, after.lookup graph = (told graph).or (map.lookup graph) := by
  induction changes with
  | nil =>
      by_cases small : version ≤ 2 ^ 32 - 1
      · exact Or.inl fun map => if_pos small
      · exact Or.inr ⟨fun _ => none, fun map => ⟨map, if_neg small, fun _ => rfl⟩⟩
  | cons change rest ih =>
      by_cases onward : version ≤ rest.length
      · have noted : ∃ named : GraphName → Option Nat, ∀ (map : AList fun _ : GraphName => Nat) graph,
            (change.items.foldl (fun map item => map.insert item.key item.version) map).lookup
              graph = (named graph).or (map.lookup graph) := by
          generalize change.items = items
          induction items with
          | nil => exact ⟨fun _ => none, fun _ _ => rfl⟩
          | cons item items ihItems =>
              obtain ⟨named, isNamed⟩ := ihItems
              refine ⟨fun graph => (named graph).or
                (if graph = item.key then some item.version else none), fun map graph => ?_⟩
              rw [List.foldl_cons, isNamed, Option.or_assoc]
              by_cases same : graph = item.key
              · subst same
                simp
              · rw [AList.lookup_insert_ne same, if_neg same, Option.none_or]
        obtain ⟨named, isNamed⟩ := noted
        rcases ih with never | ⟨told, isTold⟩
        · exact Or.inl fun map => by rw [seekRangeVersion, if_pos onward, never]
        · refine Or.inr ⟨fun graph => (told graph).or (named graph), fun map => ?_⟩
          obtain ⟨after, found, lookups⟩ := isTold
            (change.items.foldl (fun map item => map.insert item.key item.version) map)
          refine ⟨after, by rw [seekRangeVersion, if_pos onward, found], fun graph => ?_⟩
          rw [lookups, isNamed, Option.or_assoc]
      · exact Or.inr ⟨fun _ => none, fun map =>
          ⟨map, by rw [seekRangeVersion, if_neg onward], fun _ => rfl⟩⟩

theorem graphdb_opens_iff (graph : GraphName) (version : Nat) (world opened : World) :
    graphdb graph (some version) world = (.ok (), opened) ↔
      passedOn ((GraphDB.ofInstance (world.graph graph).inst).setWantedVersion
        (some version)).1 = .ok () ∧
      ∃ map, seekRangeVersion version world.rangeChanges.change.reverse
          world.graphWantedVersionMap = some map ∧
        passedOn (World.positioned (world.graph graph).inst version (map.lookup graph)).1 = .ok () ∧
        opened = { world with graphWantedVersionMap := map }.setGraph graph
          (World.positioned (world.graph graph).inst version (map.lookup graph)).2 := by
  have first := setGraphVersion_eq graph (some version)
    (world.setGraph graph (.ofInstance (world.graph graph).inst))
  rw [graph_setGraph, setGraph_setGraph] at first
  unfold graphdb
  rw [update_bind]
  dsimp only
  cases isSet : passedOn ((GraphDB.ofInstance (world.graph graph).inst).setWantedVersion
      (some version)).1 with
  | error error =>
      rw [isSet] at first
      rw [bind_of_error first]
      simp
  | ok value =>
      rw [isSet] at first
      rw [bind_of_ok first]
      generalize isFirst : ((GraphDB.ofInstance (world.graph graph).inst).setWantedVersion
        (some version)).2 = object
      cases sought : seekRangeVersion version world.rangeChanges.change.reverse
          world.graphWantedVersionMap with
      | none =>
          have told : setBackendVersion version (world.setGraph graph object) =
              (.error .outOfBounds, world.setGraph graph object) := by
            cases graph <;> simp only [setBackendVersion, World.setGraph, sought]
          rw [bind_of_error told]
          simp
      | some map =>
          have told : setBackendVersion version (world.setGraph graph object) =
              (.ok (), { world with graphWantedVersionMap := map }.setGraph graph object) := by
            cases graph <;> simp only [setBackendVersion, World.setGraph, sought]
          rw [bind_of_ok told, read_bind, setGraphVersion_eq, graph_setGraph, setGraph_setGraph]
          have sameMap : (({ world with graphWantedVersionMap := map } : World).setGraph graph
              object).graphWantedVersionMap = map := by
            cases graph <;> rfl
          rw [sameMap]
          unfold World.positioned
          rw [isFirst]
          simp [eq_comm]

/-- The world after a read call opened a graph at the current version. -/
def atCurrent (graph : GraphName) (world : World) : World :=
  world.setGraph graph (.ofInstance (world.graph graph).inst)

/-- Opening a graph leaves the object of the other one. -/
theorem graph_of_opens {graph other : GraphName} (ne : other ≠ graph) {version : Option Nat}
    {world opened : World} (opens : graphdb graph version world = (.ok (), opened)) :
    opened.graph other = world.graph other := by
  cases version with
  | none =>
      rw [graphdb_none] at opens
      rw [← (Prod.mk.inj opens).2, graph_setGraph_ne world ne]
  | some version =>
      obtain ⟨-, map, -, -, rfl⟩ := (graphdb_opens_iff graph version world opened).mp opens
      rw [graph_setGraph_ne _ ne]
      cases other <;> rfl

/-- A world with the stored data of an opened one, where the backend was told
the same. -/
structure Told (opened world : World) : Prop where
  tables : world.tables = opened.tables
  map : ∀ graph, world.graphWantedVersionMap.lookup graph =
    opened.graphWantedVersionMap.lookup graph

theorem Told.refl (opened : World) : Told opened opened :=
  ⟨rfl, fun _ => rfl⟩

theorem map_setGraph (world : World) (graph : GraphName) (object : GraphDB) :
    (world.setGraph graph object).graphWantedVersionMap = world.graphWantedVersionMap := by
  cases graph <;> rfl

/-- Opening any graph at the same version tells the backend nothing new. -/
theorem Told.opens {graph other : GraphName} {version : Option Nat} {world opened told again : World}
    (opens : graphdb graph version world = (.ok (), opened)) (isTold : Told opened told)
    (opensOther : graphdb other version told = (.ok (), again)) : Told opened again := by
  have tables := Keeps.graphdb_tables other version told
  rw [opensOther] at tables
  refine ⟨tables.trans isTold.tables, fun name => ?_⟩
  cases version with
  | none =>
      rw [graphdb_none] at opensOther
      rw [← (Prod.mk.inj opensOther).2, map_setGraph, isTold.map]
  | some version =>
      obtain ⟨-, map, sought, -, rfl⟩ := (graphdb_opens_iff graph version world opened).mp opens
      obtain ⟨-, mapOther, soughtOther, -, rfl⟩ :=
        (graphdb_opens_iff other version told again).mp opensOther
      have ranges : told.rangeChanges = world.rangeChanges :=
        (congrArg Tables.rangeChanges isTold.tables).trans (by cases graph <;> rfl)
      rw [map_setGraph, map_setGraph]
      rw [ranges] at soughtOther
      rcases seek_determined version world.rangeChanges.change.reverse with never | ⟨named, isNamed⟩
      · rw [never] at sought
        simp at sought
      · obtain ⟨after, found, lookups⟩ := isNamed world.graphWantedVersionMap
        obtain ⟨afterOther, foundOther, lookupsOther⟩ := isNamed told.graphWantedVersionMap
        obtain rfl := Option.some.inj (sought.symm.trans found)
        obtain rfl := Option.some.inj (soughtOther.symm.trans foundOther)
        rw [lookupsOther, isTold.map, map_setGraph, lookups, ← Option.or_assoc, Option.or_self]

/-- The graph is opened again as it was. -/
theorem Told.again {graph : GraphName} {version : Option Nat} {world opened told : World}
    (opens : graphdb graph version world = (.ok (), opened)) (isTold : Told opened told) :
    ∃ again, graphdb graph version told = (.ok (), again) ∧
      again.graph graph = opened.graph graph ∧
      ∀ other, other ≠ graph → again.graph other = told.graph other := by
  have tables := Keeps.graphdb_tables graph version world
  rw [opens] at tables
  have sameInst : (told.graph graph).inst = (world.graph graph).inst :=
    inst_of_tables (isTold.tables.trans tables) graph
  cases version with
  | none =>
      rw [graphdb_none] at opens
      refine ⟨_, graphdb_none graph told, ?_, ?_⟩
      · rw [← (Prod.mk.inj opens).2, graph_setGraph, graph_setGraph, sameInst]
      · exact fun other ne => graph_setGraph_ne told ne _
  | some version =>
      obtain ⟨isSet, map, sought, isPositioned, rfl⟩ :=
        (graphdb_opens_iff graph version world opened).mp opens
      have ranges : told.rangeChanges = world.rangeChanges :=
        (congrArg Tables.rangeChanges isTold.tables).trans (by cases graph <;> rfl)
      rcases seek_determined version world.rangeChanges.change.reverse with never | ⟨named, isNamed⟩
      · rw [never] at sought
        simp at sought
      obtain ⟨after, found, lookups⟩ := isNamed world.graphWantedVersionMap
      obtain ⟨afterTold, foundTold, lookupsTold⟩ := isNamed told.graphWantedVersionMap
      obtain rfl := Option.some.inj (sought.symm.trans found)
      have same : afterTold.lookup graph = map.lookup graph := by
        rw [lookupsTold, isTold.map, map_setGraph, lookups, ← Option.or_assoc, Option.or_self]
      refine ⟨_, (graphdb_opens_iff graph version told _).mpr ⟨?_, afterTold, ?_, ?_, rfl⟩, ?_, ?_⟩
      · rw [sameInst]
        exact isSet
      · rw [ranges]
        exact foundTold
      · rw [sameInst, same]
        exact isPositioned
      · rw [graph_setGraph, graph_setGraph, sameInst, same]
      · intro other ne
        rw [graph_setGraph_ne _ ne]
        cases other <;> rfl

/-! ## The node of the call -/

/-- The call has opened the primary graph and found its node. -/
structure Starts (world : World) (version : Option Nat) (envName nodeName : String)
    (opened : World) (start : Node) : Prop where
  quiet : world.Quiet
  opens : graphdb .primary version world = (.ok (), opened)
  found : (getNode .primary envName nodeName opened).1 = .ok (some start)

namespace Starts

variable {world opened : World} {version : Option Nat} {envName nodeName : String} {start : Node}

theorem tables (starts : Starts world version envName nodeName opened start) :
    opened.tables = world.tables := by
  have kept := Keeps.graphdb_tables .primary version world
  rw [starts.opens] at kept
  exact kept

theorem inst (starts : Starts world version envName nodeName opened start) :
    opened.primary.inst = world.primary.inst :=
  congrArg Tables.primary starts.tables

theorem committed (starts : Starts world version envName nodeName opened start) :
    Committed opened.primary.inst := by
  rw [starts.inst]
  exact starts.quiet.primary

theorem getNode_eq (starts : Starts world version envName nodeName opened start) :
    RangeApi.getNode .primary envName nodeName opened = (.ok (some start), opened) := by
  have found := starts.found
  rw [getNode_apply] at found ⊢
  rw [← found]

end Starts

end RangeApi

end Rangexx
