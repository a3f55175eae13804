import Rangexx.DepthFirst
import Rangexx.NearestKey

/-!
# The first node with a key

`dfs_search_parents_for_first_key` searches the reverse edges depth first for a
node that carries a key, where `bfs_search_parents_for_first_key` looks for the
nearest one.
-/

namespace Rangexx

open StateProgram Worklist

namespace RangeApi

open Api

/-- The search of the function. -/
def firstKey (inst : GraphInstance) (start : Node) (key : String) :
    Option (String × List String) :=
  DepthFirst.firstFound (nextNames inst .reverse start.wantedVersion)
    (fun name => (tagsAt inst start.wantedVersion name).lookup key)
    (searchRounds inst .reverse) [start.name] []

/-- `dfs_search_parents_for_first_key`. -/
def dfsSearchParentsForFirstKey (envName nodeName key : String) (version : Option Nat) :
    Api (String × List String) := do
  graphdb .primary version
  match ← getNode .primary envName nodeName with
  | none => StateProgram.raise (.nodeNotFound (prefixedNodeName envName nodeName))
  | some start =>
      StateProgram.read fun world =>
        match firstKey world.primary.inst start key with
        | some (name, values) => (unprefixNodeName envName name, values)
        | none => ("", [])

/-! ## What it finds -/

/-- What the search gives: a node that carries the key, with the values, above
nodes that do not carry it, or nothing when no node above carries it. -/
structure FindsFirst (inst : GraphInstance) (start : Node) (key : String)
    (result : Option (String × List String)) : Prop where
  first : ∀ name values, result = some (name, values) →
    (tagsAt inst start.wantedVersion name).lookup key = some values ∧
      DepthFirst.LeadsTo (nextNames inst .reverse start.wantedVersion)
        (fun name => (tagsAt inst start.wantedVersion name).lookup key) start.name name
  nothing : result = none ↔ ∀ name,
    Reaches (nextNames inst .reverse start.wantedVersion) start.name name →
      (tagsAt inst start.wantedVersion name).lookup key = none

/-- No two nodes above the start, or the start and a node above it, carry the
key. -/
def OneCarrier (inst : GraphInstance) (start : Node) (key : String) : Prop :=
  ∀ name other, Reaches (nextNames inst .reverse start.wantedVersion) start.name name →
    Reaches (nextNames inst .reverse start.wantedVersion) start.name other →
      (tagsAt inst start.wantedVersion name).lookup key ≠ none →
        (tagsAt inst start.wantedVersion other).lookup key ≠ none → name = other

variable {inst : GraphInstance} {start : Node} {key : String}
  {result nearest : Option (String × List String)}

theorem firstKey_finds (committed : Committed inst) (start : Node) (key : String) :
    FindsFirst inst start key (firstKey inst start key) where
  first := by
    intro name values isFirst
    obtain ⟨carries, root, isRoot, leads⟩ := DepthFirst.firstFound_leads isFirst
    obtain rfl := List.mem_singleton.mp isRoot
    exact ⟨carries, leads⟩
  nothing := DepthFirst.firstFound_eq_none_iff (cursorNames_nodup inst)
    (mem_cursorNames_of_nextNames committed .reverse start.wantedVersion)
    (openEdges_le_searchRounds inst .reverse start.wantedVersion [])

theorem FindsFirst.eq_of_oneCarrier (finds : FindsFirst inst start key result)
    (findsNearest : FindsNearest inst start key nearest) (one : OneCarrier inst start key) :
    result = nearest := by
  cases result with
  | none => exact (findsNearest.nothing.mpr (finds.nothing.mp rfl)).symm
  | some first =>
      obtain ⟨carries, leads⟩ := finds.first first.1 first.2 rfl
      cases nearest with
      | none =>
          have missing := findsNearest.nothing.mp rfl first.1 leads.reaches
          rw [carries] at missing
          cases missing
      | some other =>
          obtain ⟨found, length, steps, -⟩ := findsNearest.nearest other.1 other.2 rfl
          have carriesToo : (tagsAt inst start.wantedVersion other.1).lookup key = some other.2 :=
            found
          have reaches := (BreadthFirst.reaches_iff_stepsTo start.name other.1).mpr ⟨length, steps⟩
          have same : first.1 = other.1 := by
            apply one first.1 other.1 leads.reaches reaches
            · rw [carries]
              exact Option.some_ne_none first.2
            · rw [carriesToo]
              exact Option.some_ne_none other.2
          have values : first.2 = other.2 := by
            rw [same, carriesToo] at carries
            exact (Option.some.inj carries).symm
          exact congrArg some (Prod.ext same values)

/-! ## The two calls -/

/-- Two programs throw the same in a world, and leave the same. -/
def ThrowAlike {Value : Type} (program other : Api Value) (world : World) : Prop :=
  (program world).2 = (other world).2 ∧
    ∀ error, (program world).1 = .error error ↔ (other world).1 = .error error

theorem ThrowAlike.bind {Value Result : Type} (program : Api Value)
    {next other : Value → Api Result}
    (alike : ∀ value world, ThrowAlike (next value) (other value) world) (world : World) :
    ThrowAlike (program >>= next) (program >>= other) world := by
  unfold ThrowAlike
  cases ran : program world with
  | mk outcome after =>
      cases outcome with
      | ok value =>
          rw [bind_of_ok ran, bind_of_ok ran]
          exact alike value after
      | error error =>
          rw [bind_of_error ran, bind_of_error ran]
          exact ⟨rfl, fun _ => Iff.rfl⟩

theorem searches_throwAlike (envName nodeName key : String) (version : Option Nat)
    (world : World) :
    ThrowAlike (dfsSearchParentsForFirstKey envName nodeName key version)
      (bfsSearchParentsForFirstKey envName nodeName key version) world := by
  apply ThrowAlike.bind
  intro _ opened
  apply ThrowAlike.bind
  intro found reached
  cases found with
  | none => exact ⟨rfl, fun _ => Iff.rfl⟩
  | some start =>
      refine ⟨rfl, fun error => ?_⟩
      constructor
      · intro thrown
        cases thrown
      · intro thrown
        cases thrown

variable {world opened : World} {version : Option Nat} {envName nodeName : String}

theorem Starts.dfsSearch_eq (starts : Starts world version envName nodeName opened start)
    (key : String) :
    (dfsSearchParentsForFirstKey envName nodeName key version world).1 =
      .ok ((firstKey opened.primary.inst start key).elim ("", [])
        fun result => (unprefixNodeName envName result.1, result.2)) := by
  unfold dfsSearchParentsForFirstKey
  rw [bind_of_ok starts.opens, bind_of_ok starts.getNode_eq]
  change Except.ok _ = _
  dsimp only
  cases firstKey opened.primary.inst start key with
  | none => rfl
  | some result => rfl

/-- The depth-first and the breadth-first search for a key throw the same and
leave the same store.  When they find their node, the depth-first one gives the
values of a node that carries the key at the end of a path on which no node
before it does, it finds nothing exactly when the other finds nothing, and the
two give the same unless two nodes above carry the key. -/
theorem first_key_above (world : World) (version : Option Nat)
    (envName nodeName key : String) :
    ThrowAlike (dfsSearchParentsForFirstKey envName nodeName key version)
        (bfsSearchParentsForFirstKey envName nodeName key version) world ∧
      ∀ opened start, Starts world version envName nodeName opened start →
        ∃ first nearest,
          FindsFirst opened.primary.inst start key first ∧
          (dfsSearchParentsForFirstKey envName nodeName key version world).1 =
            .ok (first.elim ("", []) fun found => (unprefixNodeName envName found.1, found.2)) ∧
          FindsNearest opened.primary.inst start key nearest ∧
          (bfsSearchParentsForFirstKey envName nodeName key version world).1 =
            .ok (nearest.elim ("", []) fun found =>
              (unprefixNodeName envName found.1, found.2)) ∧
          (first = none ↔ nearest = none) ∧
          (OneCarrier opened.primary.inst start key → first = nearest) := by
  refine ⟨searches_throwAlike envName nodeName key version world, ?_⟩
  intro opened start starts
  have first := firstKey_finds starts.committed start key
  have nearest := nearestKey_finds starts.committed start key
  exact ⟨_, _, first, starts.dfsSearch_eq key, nearest, starts.bfsSearch_eq key,
    first.nothing.trans nearest.nothing.symm, first.eq_of_oneCarrier nearest⟩

/-- A host in two clusters, of which the first carries a key and the second is in
a cluster that carries it too. -/
def twoCarriers : List WriteCall :=
  [⟨.createEnv, ["e"], 1⟩, ⟨.addClusterToEnv, ["e", "p"], 2⟩, ⟨.addClusterToEnv, ["e", "c"], 3⟩,
    ⟨.addClusterToCluster, ["e", "p", "d"], 4⟩, ⟨.addHostToCluster, ["e", "c", "h"], 5⟩,
    ⟨.addHostToCluster, ["e", "d", "h"], 6⟩, ⟨.addNodeKeyValue, ["e", "c", "k", "near"], 7⟩,
    ⟨.addNodeKeyValue, ["e", "p", "k", "far"], 8⟩]

theorem first_key_above_twoCarriers :
    ∃ first nearest,
      FindsFirst (World.empty.calls twoCarriers).primary.inst
        ⟨"h", none, some ((World.empty.calls twoCarriers).primary.inst.readNode "h")⟩ "k" first ∧
      FindsNearest (World.empty.calls twoCarriers).primary.inst
        ⟨"h", none, some ((World.empty.calls twoCarriers).primary.inst.readNode "h")⟩ "k" nearest ∧
      (dfsSearchParentsForFirstKey "e" "h" "k" none (World.empty.calls twoCarriers)).1 =
        .ok ("p", ["far"]) ∧
      (bfsSearchParentsForFirstKey "e" "h" "k" none (World.empty.calls twoCarriers)).1 =
        .ok ("c", ["near"]) := by
  obtain ⟨first, nearest, findsFirst, -, findsNearest, -⟩ :=
    (first_key_above (World.empty.calls twoCarriers) none "e" "h" "k").2
      ((World.empty.calls twoCarriers).setGraph .primary
        (.ofInstance (World.empty.calls twoCarriers).primary.inst))
      ⟨"h", none, some ((World.empty.calls twoCarriers).primary.inst.readNode "h")⟩
      ⟨World.empty_quiet.calls twoCarriers, rfl, by decide +kernel⟩
  exact ⟨first, nearest, findsFirst, findsNearest, by decide +kernel, by decide +kernel⟩

end RangeApi

end Rangexx
