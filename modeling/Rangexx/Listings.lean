import Rangexx.RangeHistory
import Rangexx.Searches

/-!
# Listings of an earlier range version

`all_environments`, `all_hosts` and `find_orphaned_nodes` open the primary
graph at a range version as the other reads do, but then filter its nodes with
the range version itself, as if it were a version of the graph.  The two agree
as long as no node is created or removed between them.
-/

namespace Rangexx

open AscendingScan StateProgram Worklist

namespace RangeApi

open Api

/-! ## The version filter -/

theorem mem_versionFilter {inst : GraphInstance} (committed : Committed inst) {version : Nat}
    {name : String} :
    name ∈ versionFilter inst version ↔ version ∈ (inst.readNode name).graphVersions := by
  unfold versionFilter
  rw [List.mem_filter, GraphDB.mem_cursorNames, decide_eq_true_eq,
    scan_eq_equal_iff (committed.wf name).graphVersions]
  apply and_iff_right_of_imp
  intro member
  rw [committed.readNode_eq] at member
  cases found : inst.records.lookup (.node, name) with
  | none => simp [found, NodeInfo.default] at member
  | some record => rfl

/-- The nodes that pass the filter are those that were live at an earlier
version. -/
theorem mem_versionFilter_past {earlier later : GraphInstance} (committed : Committed later)
    (past : Past earlier later) (unrevived : Unrevived earlier later) {name : String} :
    name ∈ versionFilter later earlier.changelist.currentVersion ↔ earlier.Live name := by
  rw [mem_versionFilter committed]
  constructor
  · intro member
    exact unrevived.liveness name _ member (Nat.le_refl _)
  · intro live
    exact (past.records name).graphVersions.subset live

/-! ## Orphans -/

section Orphans

variable {graph : GraphDB} (committed : Committed graph.inst) (next : String → List String)

include committed

/-- The first loop of `find_orphaned_nodes` ends when every environment is
found.  When the searches follow the edges `next`, it visits what the
environments reach along these. -/
theorem visitEnvironments_eq (envs visited : List String)
    (found : ∀ env ∈ envs, ∃ node, graph.getNode env = some node ∧ node.name = env) :
    ∃ result, visitEnvironments graph envs visited = some result ∧
      ((∀ env ∈ envs, ∀ node, graph.getNode env = some node → ∀ name, Reaches next env name →
          ∀ target, target ∈ nextNames graph.inst .forward node.wantedVersion name ↔
            target ∈ next name) →
        (∀ name ∈ visited, ∀ target ∈ next name, target ∈ visited) →
        ∀ name, name ∈ result ↔ name ∈ visited ∨ ∃ env ∈ envs, Reaches next env name) := by
  induction envs generalizing visited with
  | nil => exact ⟨visited, rfl, fun _ _ name => by simp⟩
  | cons env rest ih =>
      obtain ⟨node, isFound, sameName⟩ := found env List.mem_cons_self
      obtain ⟨result, visits, members⟩ := ih (visited ++ search graph.inst .forward node visited)
        fun other member => found other (List.mem_cons_of_mem env member)
      refine ⟨result, by rw [visitEnvironments, isFound]; exact visits, ?_⟩
      intro agree closed name
      have agreeHere := agree env List.mem_cons_self node isFound
      have reached := reaches_congr agreeHere
      have searched : ∀ name, name ∈ visited ++ search graph.inst .forward node visited ↔
          name ∈ visited ∨ Reaches next env name := by
        intro name
        rw [List.mem_append, mem_search committed .forward node visited, sameName, reached]
        intro other old reaches target edge
        rw [sameName, reached] at reaches
        exact closed other old target ((agreeHere other reaches target).mp edge)
      rw [members (fun other member => agree other (List.mem_cons_of_mem env member)), searched,
        List.exists_mem_cons_iff, or_assoc]
      -- What was visited stays closed: the new names are all that `env` reaches.
      intro other member target edge
      rw [searched] at member ⊢
      rcases member with old | reaches
      · exact Or.inl (closed other old target edge)
      · exact Or.inr (reaches.tail edge)

end Orphans

/-- Every node that an environment reaches has the same forward edges at the
list version of the environment as at its own. -/
def ForwardAligned (earlier later : GraphInstance) : Prop :=
  ∀ env name target, (GraphDB.ofInstance earlier).roster env = some .environment →
    Reaches (nextNames earlier .forward none) env name →
    (EdgeAt ((later.readNode name).edges .forward) (earlier.readNode env).listVersion target ↔
      EdgeAt ((later.readNode name).edges .forward) (earlier.readNode name).listVersion target)

/-- A search from an environment of a graph set to an earlier version follows
the edges of that version, if the nodes are aligned. -/
theorem nextNames_past {earlier : GraphInstance} {graph : GraphDB}
    (earlierCommitted : Committed earlier) (committed : Committed graph.inst)
    (past : Past earlier graph.inst) (positioned : graph.Positioned)
    (isWanted : graph.wantedVersion = some earlier.changelist.currentVersion)
    (positive : 0 < earlier.changelist.currentVersion)
    (aligned : graph.inst.changelist.currentVersion = earlier.changelist.currentVersion ∨
      ForwardAligned earlier graph.inst)
    {env : String} {node : Node} (isEnv : (GraphDB.ofInstance earlier).roster env =
      some .environment) (found : graph.getNode env = some node) {name : String}
    (reaches : Reaches (nextNames earlier .forward none) env name) (target : String) :
    target ∈ nextNames graph.inst .forward node.wantedVersion name ↔
      target ∈ nextNames earlier .forward none name := by
  have live : earlier.Live env := by
    rw [GraphDB.roster_ofInstance earlierCommitted] at isEnv
    by_contra absent
    simp [absent] at isEnv
  have version : graph.version = graph.inst.changelist.currentVersion := committed.version_eq
  have wanted : node.wantedVersion =
      if earlier.changelist.currentVersion ≠ graph.inst.changelist.currentVersion then
        some (earlier.readNode env).listVersion else none := by
    rw [GraphDB.getNode_eq committed, isWanted, Option.getD_some, version,
      if_pos ((past.records env).graphVersions.subset live)] at found
    rw [← Option.some.inj found, positioned _ isWanted,
      GraphDB.listedVersion_past earlierCommitted past positive live]
  rw [mem_nextNames committed, mem_nextNames earlierCommitted, wanted]
  by_cases same : earlier.changelist.currentVersion = graph.inst.changelist.currentVersion
  · rw [if_neg (not_not.mpr same), past.unchanged same.symm]
  · rw [if_pos same]
    have forward := aligned.resolve_left (Ne.symm same)
    exact (forward env name target isEnv reaches).trans
      ((past.records name).pastEdges .forward _ target (Nat.le_refl _))

/-! ## The listings as functions of the opened graph -/

variable {world opened reopened : World} {version : Option Nat}

theorem allOfType_apply (opens : graphdb .primary version world = (.ok (), opened))
    (type : NodeType) :
    allOfType type version world =
      (.ok ((versionFilter opened.primary.inst
        (version.getD opened.primary.version)).filter fun name =>
        (opened.primary.inst.readNode name).nodeType = type), opened) := by
  unfold allOfType
  rw [bind_of_ok opens]
  rfl

theorem findOrphanedNodes_apply
    (opens : graphdb .primary version world = (.ok (), opened)) {envs : List String}
    (listed : allOfType .environment version opened = (.ok envs, reopened))
    {visited : List String}
    (visits : visitEnvironments reopened.primary envs [] = some visited) :
    (findOrphanedNodes version world).1 =
      .ok (((versionFilter reopened.primary.inst
        (version.getD reopened.primary.version)).filter
        fun name => name ∉ visited).map fun name =>
          ((reopened.primary.inst.readNode name).nodeType.name, name)) := by
  unfold findOrphanedNodes allEnvironments
  rw [bind_of_ok opens, bind_of_ok listed, read_bind, visits]
  rfl

end RangeApi

/-! ## Calls that keep the nodes -/

theorem GraphStep.unrevived_of_roster {base after : GraphInstance}
    {change : Roster.Change String NodeType} {effect : Effect} {apart : Prop}
    (committed : Committed base)
    (step : GraphStep base change effect (¬ Revives base change) apart after)
    (same : (GraphDB.ofInstance after).roster = (GraphDB.ofInstance base).roster) :
    Unrevived base after := by
  apply step.unrevived
  intro revives
  cases change with
  | ensure name type =>
      have absent : (GraphDB.ofInstance base).roster name = none := by
        rw [GraphDB.roster_ofInstance committed, if_neg revives.1]
      have created := congrFun step.roster name
      rw [same, Roster.Change.apply_ensure_of_none absent, absent] at created
      simp at created
  | keep => exact revives
  | erase name => exact revives

namespace World

/-- No call of the sequence creates or removes a node of the primary graph. -/
def Steady : World → List WriteCall → Prop :=
  Along fun world call => (call.run world).2.roster .primary = world.roster .primary

/-- A call that is not meant to create or remove a node does not. -/
theorem Quiet.roster_run_of_keep {world : World} (quiet : world.Quiet) {call : WriteCall}
    (keeps : call.rosterChange .primary = .keep) :
    (call.run world).2.roster .primary = world.roster .primary := by
  cases outcome : call.run world with
  | mk result after =>
      cases result with
      | ok value =>
          have step := ((WriteCall.run_ok quiet outcome).graphs .primary).roster
          rw [keeps] at step
          exact step
      | error error =>
          rcases WriteCall.run_error quiet outcome with ⟨_, sameTables, _⟩ | ⟨_, step⟩
          · have unchanged : after.primary.inst = world.primary.inst :=
              congrArg Tables.primary sameTables
            unfold World.roster World.graph
            rw [unchanged]
          · have roster := step.primary.roster
            rw [keeps] at roster
            exact roster

theorem Quiet.unrevived_run {world : World} (quiet : world.Quiet) {call : WriteCall}
    (same : (call.run world).2.roster .primary = world.roster .primary) :
    Unrevived world.primary.inst (call.run world).2.primary.inst := by
  cases outcome : call.run world with
  | mk result after =>
      rw [outcome] at same
      cases result with
      | ok value =>
          exact ((WriteCall.run_ok quiet outcome).graphs .primary).unrevived_of_roster
            quiet.primary same
      | error error =>
          rcases WriteCall.run_error quiet outcome with ⟨_, sameTables, _⟩ | ⟨_, step⟩
          · have unchanged : after.primary.inst = world.primary.inst :=
              congrArg Tables.primary sameTables
            dsimp only
            rw [unchanged]
            exact Unrevived.refl _
          · exact step.primary.unrevived_of_roster quiet.primary same

theorem Quiet.steady {world : World} (quiet : world.Quiet) {sequence : List WriteCall}
    (steady : world.Steady sequence) :
    (world.calls sequence).roster .primary = world.roster .primary ∧
      Unrevived world.primary.inst (world.calls sequence).primary.inst := by
  induction sequence generalizing world with
  | nil => exact ⟨rfl, Unrevived.refl _⟩
  | cons call rest ih =>
      obtain ⟨sameRoster, unrevived⟩ := ih (WriteCall.run_quiet quiet call) steady.2
      exact ⟨sameRoster.trans steady.1,
        Unrevived.trans (WriteCall.run_passage quiet call .primary).past
          (quiet.unrevived_run steady.1) unrevived⟩

/-- The version of the primary graph. -/
def primaryVersion (world : World) : Nat :=
  world.primary.inst.changelist.currentVersion

/-- The primary graph has the range version of a call as its own version at
some point of the sequence, and no node is created or removed between there and
the end of the call. -/
def NodesKept (before after : List WriteCall) (call : WriteCall) : Prop :=
  (∃ front steady, before ++ [call] = front ++ steady ∧
    (empty.calls front).primaryVersion = empty.successes before ∧
    (empty.calls front).Steady steady) ∨
  ∃ steady rest, after = steady ++ rest ∧
    ((empty.calls (before ++ [call])).calls steady).primaryVersion = empty.successes before ∧
    (empty.calls (before ++ [call])).Steady steady

theorem along_append {property : World → WriteCall → Prop} {world : World}
    {first second : List WriteCall} (along : Along property world (first ++ second)) :
    Along property (world.calls first) second := by
  induction first generalizing world with
  | nil => exact along
  | cons call rest ih => exact ih along.2

theorem Quiet.live_iff_of_roster {world other : World} (quiet : world.Quiet)
    (otherQuiet : other.Quiet) (same : world.roster .primary = other.roster .primary)
    (name : String) : world.primary.inst.Live name ↔ other.primary.inst.Live name := by
  have here := WriteCall.roster_eq_none_iff quiet .primary name
  have there := WriteCall.roster_eq_none_iff otherQuiet .primary name
  rw [same] at here
  exact not_iff_not.mp (here.symm.trans there)

/-- When the nodes are kept, those that pass the filter of the range version
are those that were live when the call had returned. -/
theorem NodesKept.mem_versionFilter {before after : List WriteCall} {call : WriteCall}
    (kept : NodesKept before after call)
    (fresh : Along (fun world call => ¬ call.Revives world) (empty.calls (before ++ [call]))
      after) (name : String) :
    name ∈ RangeApi.versionFilter (empty.calls (before ++ call :: after)).primary.inst
        (empty.successes before) ↔
      (empty.calls (before ++ [call])).primary.inst.Live name := by
  have quiet := empty_quiet.calls (before ++ [call])
  rw [calls_cons_after]
  rcases kept with ⟨front, steady, split, version, isSteady⟩ |
    ⟨steady, rest, rfl, version, isSteady⟩
  · have frontQuiet := empty_quiet.calls front
    have unrevivedAfter := quiet.unrevived_calls fresh
    have pastAfter := quiet.past_calls after .primary
    obtain ⟨sameRoster, unrevived⟩ := frontQuiet.steady isSteady
    have past := frontQuiet.past_calls steady .primary
    have sameLive := quiet.live_iff_of_roster frontQuiet
      (by rw [split, calls_append]; exact sameRoster) name
    rw [split, calls_append] at pastAfter unrevivedAfter quiet sameLive ⊢
    rw [← version, sameLive]
    exact RangeApi.mem_versionFilter_past (quiet.calls after).primary (past.trans pastAfter)
      (Unrevived.trans past unrevived unrevivedAfter)
  · have steadyQuiet := quiet.calls steady
    obtain ⟨sameRoster, _⟩ := quiet.steady isSteady
    rw [calls_append, ← version, ← steadyQuiet.live_iff_of_roster quiet sameRoster name]
    exact RangeApi.mem_versionFilter_past (steadyQuiet.calls rest).primary
      (steadyQuiet.past_calls rest .primary) (steadyQuiet.unrevived_calls (along_append fresh))

/-- The filter finds the nodes of the call with the types they then had. -/
theorem NodesKept.roster_eq_some {before after : List WriteCall} {call : WriteCall}
    (kept : NodesKept before after call)
    (fresh : Along (fun world call => ¬ call.Revives world) (empty.calls (before ++ [call]))
      after) (name : String) (type : NodeType) :
    (name ∈ RangeApi.versionFilter (empty.calls (before ++ call :: after)).primary.inst
        (empty.successes before) ∧
      ((empty.calls (before ++ call :: after)).primary.inst.readNode name).nodeType = type) ↔
      (empty.calls (before ++ [call])).roster .primary name = some type := by
  have quiet := empty_quiet.calls (before ++ [call])
  have written := empty_quiet.written_calls empty_written (before ++ [call]) .primary
  have unrevived := quiet.unrevived_calls fresh
  rw [kept.mem_versionFilter fresh, World.roster,
    GraphDB.roster_ofInstance (quiet.graph .primary), calls_cons_after before after call]
  change (_ ∧ _) ↔ (if (empty.calls (before ++ [call])).primary.inst.Live name then _ else _) = _
  by_cases live : (empty.calls (before ++ [call])).primary.inst.Live name
  · rw [if_pos live, unrevived.types name (written name live), Option.some.injEq]
    exact and_iff_right live
  · simp [live]

section Listings

open RangeApi

/-- The nodes no environment reaches. -/
def Orphaned (world : World) (name : String) : Prop :=
  ∀ env, world.roster .primary env = some .environment →
    ¬ Reaches (nextNames world.primary.inst .forward none) env name

variable {before after : List WriteCall} {call : WriteCall}
  (fresh : Along (fun world call => ¬ call.Revives world) (empty.calls (before ++ [call])) after)
  (kept : NodesKept before after call) {world opened reopened : World}
  (same : world.tables = (empty.calls (before ++ call :: after)).tables)

include fresh kept same

theorem NodesKept.allOfType_eq
    (opens : graphdb .primary (some (empty.successes before)) world = (.ok (), opened))
    (sameTables : opened.tables = world.tables) (type : NodeType) :
    ∃ names, allOfType type (some (empty.successes before)) world = (.ok names, opened) ∧
      names.Nodup ∧ ∀ name, name ∈ names ↔
        (empty.calls (before ++ [call])).roster .primary name = some type := by
  have openedInst : opened.primary.inst =
      (empty.calls (before ++ call :: after)).primary.inst :=
    congrArg Tables.primary (sameTables.trans same)
  refine ⟨_, allOfType_apply opens type, ?_, ?_⟩
  · exact ((cursorNames_nodup _).filter _).filter _
  · intro name
    rw [List.mem_filter, decide_eq_true_eq, openedInst]
    exact kept.roster_eq_some fresh name type

/-- `find_orphaned_nodes` finds every environment it lists, and when the
searches follow the edges of the call it gives the nodes no environment
reached. -/
theorem NodesKept.findOrphanedNodes_eq
    (opens : graphdb .primary (some (empty.successes before)) world = (.ok (), opened))
    (sameTables : opened.tables = world.tables)
    (reopens : graphdb .primary (some (empty.successes before)) opened = (.ok (), reopened))
    (reopenedTables : reopened.tables = opened.tables)
    (isWanted : reopened.primary.wantedVersion =
      some (empty.calls (before ++ [call])).primary.inst.changelist.currentVersion)
    (positioned : reopened.primary.Positioned)
    (sameRoster : reopened.primary.roster = (empty.calls (before ++ [call])).roster .primary)
    (started : 0 < (empty.calls (before ++ [call])).primaryVersion) :
    ∃ orphans, (findOrphanedNodes (some (empty.successes before)) world).1 = .ok orphans ∧
      ((empty.calls (before ++ call :: after)).primaryVersion =
          (empty.calls (before ++ [call])).primaryVersion ∨
        ForwardAligned (empty.calls (before ++ [call])).primary.inst
          (empty.calls (before ++ call :: after)).primary.inst →
        orphans.Nodup ∧ ∀ type name, (type, name) ∈ orphans ↔
          ∃ found : NodeType, (empty.calls (before ++ [call])).roster .primary name = some found ∧
            type = found.name ∧ (empty.calls (before ++ [call])).Orphaned name) := by
  have quiet := empty_quiet.calls (before ++ [call])
  have openedTables := sameTables.trans same
  have sameInst : reopened.primary.inst =
      (empty.calls (before ++ call :: after)).primary.inst :=
    congrArg Tables.primary (reopenedTables.trans openedTables)
  have committed : Committed reopened.primary.inst := by
    rw [sameInst]
    exact (empty_quiet.calls (before ++ call :: after)).primary
  have past : Past (empty.calls (before ++ [call])).primary.inst reopened.primary.inst := by
    rw [sameInst, calls_cons_after before after call]
    exact quiet.past_calls after .primary
  obtain ⟨envs, listed, _, isEnv⟩ :=
    kept.allOfType_eq fresh openedTables reopens reopenedTables .environment
  have found : ∀ env ∈ envs, ∃ node, reopened.primary.getNode env = some node ∧
      node.name = env := by
    intro env member
    have inRoster := (isEnv env).mp member
    rw [← sameRoster, GraphDB.roster, Option.map_eq_some_iff] at inRoster
    obtain ⟨node, isFound, _⟩ := inRoster
    refine ⟨node, isFound, ?_⟩
    rw [GraphDB.getNode_eq committed, Option.ite_none_right_eq_some] at isFound
    rw [← Option.some.inj isFound.2]
  obtain ⟨visited, visits, reached⟩ := visitEnvironments_eq committed
    (nextNames (empty.calls (before ++ [call])).primary.inst .forward none) envs [] found
  refine ⟨_, findOrphanedNodes_apply opens listed visits, fun aligned => ⟨?_, ?_⟩⟩
  · refine List.Nodup.map ?_ (((cursorNames_nodup _).filter _).filter _)
    exact fun name other same => congrArg Prod.snd same
  · intro type name
    have unvisited : ∀ other, other ∉ visited ↔
        (empty.calls (before ++ [call])).Orphaned other := by
      intro other
      rw [reached _ (by simp)]
      · simp only [List.not_mem_nil, false_or, Orphaned, isEnv, not_exists, not_and]
      · intro env member node isFound other reaches target
        unfold primaryVersion at aligned
        rw [← sameInst] at aligned
        exact nextNames_past quiet.primary committed past positioned isWanted started aligned
          ((isEnv env).mp member) isFound reaches target
    simp only [List.mem_map, List.mem_filter, decide_eq_true_eq, unvisited, Prod.mk.injEq,
      sameInst]
    constructor
    · rintro ⟨other, ⟨filtered, orphaned⟩, rfl, rfl⟩
      exact ⟨_, (kept.roster_eq_some fresh other _).mp ⟨filtered, rfl⟩, rfl, orphaned⟩
    · rintro ⟨kind, inRoster, rfl, orphaned⟩
      obtain ⟨filtered, sameType⟩ := (kept.roster_eq_some fresh name kind).mpr inRoster
      exact ⟨name, ⟨filtered, orphaned⟩, by rw [sameType], rfl⟩

end Listings

section Listings

open RangeApi

/-- The listings of an earlier version give the nodes that the other reads of
that version find, with the types they then had, when no node was created or
removed between the graph version of that number and the one the entry names.
The orphans are the nodes that no environment reaches, when moreover the
searches follow the edges of that version. -/
theorem listings_past (before after : List WriteCall) (call : WriteCall)
    (returns : (empty.calls before).Returns call) (positive : 1 ≤ empty.successes before)
    (fresh : Along (fun world call => ¬ call.Revives world) (empty.calls (before ++ [call]))
      after) (kept : NodesKept before after call) :
    ∃ opened, graphdb .primary (some (empty.successes before))
        (empty.calls (before ++ call :: after)) = (.ok (), opened) ∧
      opened.primary.roster = (empty.calls (before ++ [call])).roster .primary ∧
      (∃ envs, (allEnvironments (some (empty.successes before))
          (empty.calls (before ++ call :: after))).1 = .ok envs ∧ envs.Nodup ∧
        ∀ name, name ∈ envs ↔ opened.primary.roster name = some .environment) ∧
      (∃ hosts, (allHosts (some (empty.successes before))
          (empty.calls (before ++ call :: after))).1 = .ok hosts ∧ hosts.Nodup ∧
        ∀ name, name ∈ hosts ↔ opened.primary.roster name = some .host) ∧
      ∃ orphans, (findOrphanedNodes (some (empty.successes before))
          (empty.calls (before ++ call :: after))).1 = .ok orphans ∧
        ((empty.calls (before ++ call :: after)).primaryVersion =
            (empty.calls (before ++ [call])).primaryVersion ∨
          ForwardAligned (empty.calls (before ++ [call])).primary.inst
            (empty.calls (before ++ call :: after)).primary.inst →
          orphans.Nodup ∧ ∀ type name, (type, name) ∈ orphans ↔
            ∃ found : NodeType, opened.primary.roster name = some found ∧ type = found.name ∧
              (empty.calls (before ++ [call])).Orphaned name) := by
  obtain ⟨opened, opens, sameTables, _, _, mirrors⟩ :=
    graphdb_mirrors before after call returns positive fresh rfl
  obtain ⟨reopened, reopens, reopenedTables, isWanted, positioned, remirrors⟩ :=
    graphdb_mirrors before after call returns positive fresh sameTables
  have sameRoster : opened.primary.roster =
      (empty.calls (before ++ [call])).roster .primary := mirrors.roster
  refine ⟨opened, opens, sameRoster, ?_, ?_, ?_⟩
  · obtain ⟨envs, listed, nodup, members⟩ :=
      kept.allOfType_eq fresh rfl opens sameTables .environment
    exact ⟨envs, congrArg Prod.fst listed, nodup, by rw [sameRoster]; exact members⟩
  · obtain ⟨hosts, listed, nodup, members⟩ := kept.allOfType_eq fresh rfl opens sameTables .host
    exact ⟨hosts, congrArg Prod.fst listed, nodup, by rw [sameRoster]; exact members⟩
  · rw [sameRoster]
    exact kept.findOrphanedNodes_eq fresh rfl opens sameTables reopens reopenedTables isWanted
      positioned remirrors.roster (started_of_returns returns)

theorem listings_past_keyAdded :
    ∃ orphans, (findOrphanedNodes (some 1) (empty.calls
        [⟨.addHost, ["h"], 1⟩, ⟨.addNodeKeyValue, ["", "h", "k", "v"], 2⟩])).1 = .ok orphans ∧
      ("HOST", "h") ∈ orphans := by
  have quiet := empty_quiet.calls [⟨.addHost, ["h"], 1⟩]
  have kept : NodesKept [⟨.addHost, ["h"], 1⟩] [] ⟨.addNodeKeyValue, ["", "h", "k", "v"], 2⟩ :=
    Or.inl ⟨[⟨.addHost, ["h"], 1⟩], [⟨.addNodeKeyValue, ["", "h", "k", "v"], 2⟩], rfl,
      by decide +kernel, quiet.roster_run_of_keep rfl, trivial⟩
  have index : empty.successes [⟨.addHost, ["h"], 1⟩] = 1 := by
    decide +kernel
  obtain ⟨opened, _, sameRoster, ⟨envs, listed, _, isEnv⟩, _, orphans, found, members⟩ :=
    listings_past
      [⟨.addHost, ["h"], 1⟩] [] ⟨.addNodeKeyValue, ["", "h", "k", "v"], 2⟩
      (by unfold Returns; decide +kernel) (by decide +kernel) trivial kept
  have noEnv : (allEnvironments (some 1) (empty.calls
      [⟨.addHost, ["h"], 1⟩, ⟨.addNodeKeyValue, ["", "h", "k", "v"], 2⟩])).1 = .ok [] := by
    decide +kernel
  rw [index] at found listed
  obtain rfl : [] = envs := Except.ok.inj (noEnv.symm.trans listed)
  refine ⟨orphans, found, ((members (Or.inl rfl)).2 _ _).mpr ⟨.host, ?_, rfl, ?_⟩⟩
  · rw [sameRoster]
    decide +kernel
  · intro env inRoster
    rw [← sameRoster, ← isEnv] at inRoster
    exact absurd inRoster List.not_mem_nil

/-- The second environment is there at version 1, where `all_environments` does
not list it. -/
theorem allEnvironments_misses_second :
    Along Returns empty [⟨.createEnv, ["a"], 1⟩, ⟨.createEnv, ["b"], 2⟩] ∧
      (simpleExpand "b" "" (some 1) .environment
        (empty.calls [⟨.createEnv, ["a"], 1⟩, ⟨.createEnv, ["b"], 2⟩])).1 = .ok [] ∧
      (allEnvironments (some 1)
        (empty.calls [⟨.createEnv, ["a"], 1⟩, ⟨.createEnv, ["b"], 2⟩])).1 = .ok ["a"] := by
  refine ⟨⟨?_, ?_, trivial⟩, ?_, ?_⟩
  all_goals
    try unfold Returns
    decide +kernel

end Listings

end World

end Rangexx
