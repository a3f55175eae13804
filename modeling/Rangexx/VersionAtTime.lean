import Rangexx.Queries

/-!
# The version at a time

`get_range_version` looks for the version that was in use at a time.  It goes
through the range changelist from the first entry on, where the version of the
entry before is not known yet, and an ascending list is left at the first entry
or not at all.  So it gives the version of today, whatever the time.
-/

namespace Rangexx

open StateProgram

namespace RangeApi

open Api

/-- `get_changelist`.  The time of an entry is set along with its items; a
write gives every entry some. -/
def getChangelist (world : World) : List (Nat × Nat × AList fun _ : GraphName => Nat) :=
  world.rangeChanges.change.zipIdx.map fun entry =>
    (entry.1.timestamp, entry.2,
      entry.1.items.foldl (fun map item => map.insert item.key item.version) ∅)

structure InvalidTimespecException where
  timespec : String
  deriving DecidableEq, Repr

/-- The loop of `get_range_version`. -/
def findVersion (cmpTime : Int) :
    List (Nat × Nat × AList fun _ : GraphName => Nat) → Nat → Option Nat
  | [], _ => none
  | (changeTime, ver, _) :: rest, foundVersion =>
      if changeTime < cmpTime then some foundVersion else findVersion cmpTime rest ver

/-- `get_range_version`; without a version it is `RangeNull`. -/
def getRangeVersion (parseDatetime : String → Option Int) (timespec : String) (world : World) :
    Except InvalidTimespecException (Option Nat) :=
  match parseDatetime timespec with
  | none => .error ⟨timespec⟩
  | some cmpTime => .ok (findVersion cmpTime (getChangelist world) world.rangeVersion)

/-- In an ascending list only the first entry can end the loop with a version. -/
theorem findVersion_ascending {cmpTime : Int}
    {entries : List (Nat × Nat × AList fun _ : GraphName => Nat)}
    (ascending : (entries.map Prod.fst).Pairwise (· ≤ ·)) (foundVersion : Nat) :
    findVersion cmpTime entries foundVersion =
      if ∀ time ∈ entries.map Prod.fst, cmpTime ≤ time then none else some foundVersion := by
  cases entries with
  | nil => simp [findVersion]
  | cons entry rest =>
      obtain ⟨changeTime, ver, changes⟩ := entry
      rw [List.map_cons, List.pairwise_cons] at ascending
      rw [findVersion]
      by_cases before : (changeTime : Int) < cmpTime
      · rw [if_pos before, if_neg]
        intro notBefore
        exact absurd (notBefore changeTime List.mem_cons_self) (Int.not_le.mpr before)
      · have notBefore : ∀ time ∈ ((changeTime, ver, changes) :: rest).map Prod.fst,
            cmpTime ≤ (time : Nat) := by
          intro time member
          rw [List.map_cons, List.mem_cons] at member
          rcases member with rfl | later
          · exact Int.not_lt.mp before
          · exact (Int.not_lt.mp before).trans (Int.ofNat_le.mpr (ascending.1 time later))
        rw [if_neg before, if_pos notBefore]
        have passed : ∀ (entries : List (Nat × Nat × AList fun _ : GraphName => Nat)) found,
            (∀ time ∈ entries.map Prod.fst, cmpTime ≤ (time : Nat)) →
            findVersion cmpTime entries found = none := by
          intro entries
          induction entries with
          | nil => exact fun _ _ => rfl
          | cons entry rest ih =>
              intro found notBefore
              rw [List.map_cons, List.forall_mem_cons] at notBefore
              rw [findVersion, if_neg (Int.not_lt.mpr notBefore.1), ih _ notBefore.2]
        exact passed rest ver fun time member => notBefore time (List.mem_cons_of_mem _ member)

end RangeApi

namespace World

/-! ## Calls at their times -/

def atTime (world : World) (time : Nat) : World :=
  { world with now := time }

/-- Calls made one after another, each at its time. -/
def callsAt : World → List (Nat × WriteCall) → World
  | world, [] => world
  | world, (time, call) :: rest => callsAt (call.run (world.atTime time)).2 rest

/-- The times of the calls that return. -/
def commitTimes : World → List (Nat × WriteCall) → List Nat
  | _, [] => []
  | world, (time, call) :: rest =>
      (if (world.atTime time).Returns call then [time] else []) ++
        commitTimes (call.run (world.atTime time)).2 rest

/-- The state that the last call committed before a time left. -/
def LeftBefore (writes : List (Nat × WriteCall)) (time : Int) (left : World) : Prop :=
  ∃ (before : List (Nat × WriteCall)) (moment : Nat) (call : WriteCall)
    (after : List (Nat × WriteCall)), writes = before ++ (moment, call) :: after ∧
      ((empty.callsAt before).atTime moment).Returns call ∧ (moment : Int) < time ∧
      left = (call.run ((empty.callsAt before).atTime moment)).2 ∧
      ∀ later ∈ commitTimes left after, time ≤ (later : Nat)

theorem commitTimes_append (world : World) (first second : List (Nat × WriteCall)) :
    commitTimes world (first ++ second) =
      commitTimes world first ++ commitTimes (world.callsAt first) second := by
  induction first generalizing world with
  | nil => rfl
  | cons write rest ih =>
      rw [List.cons_append, commitTimes, ih, commitTimes, List.append_assoc]
      rfl

theorem LeftBefore.commits {writes : List (Nat × WriteCall)} {time : Int} {left : World}
    (isLeft : LeftBefore writes time left) :
    ∃ moment ∈ commitTimes empty writes, (moment : Nat) < time := by
  obtain ⟨before, moment, call, after, rfl, returns, isBefore, -, -⟩ := isLeft
  refine ⟨moment, ?_, isBefore⟩
  rw [commitTimes_append, commitTimes, if_pos returns]
  simp

section Timed

variable {world : World} (quiet : world.Quiet)

include quiet

theorem Quiet.atTime (time : Nat) : (world.atTime time).Quiet :=
  ⟨quiet.primary, quiet.dependency, quiet.saved⟩

theorem Quiet.callsAt (writes : List (Nat × WriteCall)) : (world.callsAt writes).Quiet := by
  induction writes generalizing world with
  | nil => exact quiet
  | cons write rest ih => exact ih (WriteCall.run_quiet (quiet.atTime write.1) write.2)

/-- The changelist has an entry for every call that returned, with its time, and
the version counts them. -/
theorem Quiet.changes_callsAt (writes : List (Nat × WriteCall)) :
    (world.callsAt writes).rangeChanges.change.map RangeChange.timestamp =
        world.rangeChanges.change.map RangeChange.timestamp ++ commitTimes world writes ∧
      (world.callsAt writes).rangeVersion =
        world.rangeVersion + (commitTimes world writes).length := by
  induction writes generalizing world with
  | nil => simp [World.callsAt, commitTimes]
  | cons write rest ih =>
      have atTime := quiet.atTime write.1
      obtain ⟨changes, version⟩ := ih (WriteCall.run_quiet atTime write.2)
      have entry := atTime.ranges_run write.2
      rw [World.callsAt, commitTimes, changes, version, entry]
      by_cases returns : (world.atTime write.1).Returns write.2
      · rw [(atTime.log_of_returns returns).1, if_pos returns, if_neg (by rw [returns]; simp)]
        constructor
        · simp [World.atTime, versionEntry]
        · simp only [World.atTime, rangeVersion, List.length_append, List.length_singleton]
          omega
      · rw [(atTime.log_of_thrown returns).1, if_neg returns,
          if_pos (by simpa [Returns] using returns)]
        simp [World.atTime, rangeVersion]

end Timed

/-! ## What a read of the version shows -/

section Reads

open RangeApi

/-- The reads at a version give what the reads of the current version gave in
another state. -/
structure ReadsRepeat (version : Option Nat) (world left : World) : Prop where
  expansions : ∀ envName nodeName type, Repeats
    (simpleExpand envName nodeName version type world).1
    (simpleExpand envName nodeName none type left).1
  keys : ∀ envName nodeName, Repeats (getKeys envName nodeName version world).1
    (getKeys envName nodeName none left).1
  values : ∀ envName nodeName key, Repeats (fetchKey envName nodeName key version world).1
    (fetchKey envName nodeName key none left).1
  clusters : ∀ envName nodeName, Repeats (getClusters envName nodeName version world).1
    (getClusters envName nodeName none left).1

/-- A graph shows what the reads of the current version gave. -/
structure Shows (graph : GraphDB) (left : World) : Prop where
  expansions : ∀ envName nodeName type, Repeats
    (inNode graph envName nodeName (expansion graph envName type))
    (simpleExpand envName nodeName none type left).1
  keys : ∀ envName nodeName, Repeats
    (inNode graph envName nodeName fun node => .ok (node.tags graph.inst).keys)
    (getKeys envName nodeName none left).1
  values : ∀ envName nodeName key, Repeats
    (inNode graph envName nodeName (keyValues graph key))
    (fetchKey envName nodeName key none left).1
  clusters : ∀ envName nodeName, Repeats (parents graph envName nodeName)
    (getClusters envName nodeName none left).1

theorem readsRepeat_iff_shows {world opened left : World} {version : Nat}
    (opens : graphdb .primary (some version) world = (.ok (), opened)) :
    ReadsRepeat (some version) world left ↔ Shows opened.primary left := by
  constructor
  · intro reads
    refine ⟨fun envName nodeName type => ?_, fun envName nodeName => ?_,
      fun envName nodeName key => ?_, fun envName nodeName => ?_⟩
    · have read := reads.expansions envName nodeName type
      rwa [simpleExpand_eq envName nodeName (some version), answering_apply opens] at read
    · have read := reads.keys envName nodeName
      rwa [getKeys_eq envName nodeName (some version), answering_apply opens] at read
    · have read := reads.values envName nodeName key
      rwa [fetchKey_eq envName nodeName key (some version), answering_apply opens] at read
    · have read := reads.clusters envName nodeName
      rwa [getClusters_eq envName nodeName (some version), answering_apply opens] at read
  · intro shows
    refine ⟨fun envName nodeName type => ?_, fun envName nodeName => ?_,
      fun envName nodeName key => ?_, fun envName nodeName => ?_⟩
    · rw [simpleExpand_eq envName nodeName (some version), answering_apply opens]
      exact shows.expansions envName nodeName type
    · rw [getKeys_eq envName nodeName (some version), answering_apply opens]
      exact shows.keys envName nodeName
    · rw [fetchKey_eq envName nodeName key (some version), answering_apply opens]
      exact shows.values envName nodeName key
    · rw [getClusters_eq envName nodeName (some version), answering_apply opens]
      exact shows.clusters envName nodeName

/-- A read that fails to open the graph does not repeat the one of a state
where nothing has the empty name. -/
theorem not_readsRepeat {world opened left : World} {version : Nat} {error : GraphError}
    (fails : graphdb .primary (some version) world = (.error (.database error), opened)) :
    ¬ ReadsRepeat (some version) world left := by
  intro reads
  have read := reads.expansions "" "" .unknown
  have thrown : (simpleExpand "" "" (some version) .unknown world).1 =
      .error (.database error) := by
    unfold simpleExpand
    rw [bind_of_error fails]
  have present : (simpleExpand "" "" none .unknown left).1 = .error (.nodeNotFound "") := rfl
  rw [thrown, present] at read
  simp [Repeats] at read

/-- The primary graph as the backend has it in use: at the version noted for
it, or at the current one when none is noted. -/
def inUse (world : World) : Except GraphError Bool × GraphDB :=
  positioned world.primary.inst world.rangeVersion (world.graphWantedVersionMap.lookup .primary)

theorem inUse_none {world : World}
    (unnoted : world.graphWantedVersionMap.lookup .primary = none) :
    world.inUse = (.ok true, .ofInstance world.primary.inst) := by
  unfold inUse positioned
  rw [unnoted]
  generalize world.rangeVersion = version
  have first : ∃ wanted map, (wanted = none → map = ∅) ∧
      ((GraphDB.ofInstance world.primary.inst).setWantedVersion (some version)).2 =
        { GraphDB.ofInstance world.primary.inst with
          wantedVersion := wanted
          nodeVersionMap := map } := by
    unfold GraphDB.setWantedVersion
    rw [if_neg (by simp [GraphDB.ofInstance])]
    dsimp only
    split
    · split
      · exact ⟨some version, ∅, by simp, rfl⟩
      · split
        · exact ⟨some version, ∅, by simp, rfl⟩
        · exact ⟨some version, _, by simp, rfl⟩
    · exact ⟨none, ∅, fun _ => rfl, rfl⟩
  obtain ⟨wanted, map, unset, isFirst⟩ := first
  rw [isFirst]
  unfold GraphDB.setWantedVersion
  split
  · rename_i isNone
    obtain rfl : none = wanted := isNone
    rw [unset rfl]
    rfl
  · rfl

/-- The version of today shows the graph in use. -/
theorem reads_rangeVersion_iff {world left : World} (committed : Committed world.primary.inst)
    (nonempty : world.rangeChanges.change ≠ [])
    (counted : world.rangeVersion = world.rangeChanges.change.length) :
    ReadsRepeat (some world.rangeVersion) world left ↔
      passedOn world.inUse.1 = .ok () ∧ Shows world.inUse.2 left := by
  have positive : 0 < world.rangeVersion := by
    rw [counted]
    exact List.length_pos_iff.mpr nonempty
  have opens := @graphdb_some world .primary _ committed nonempty positive
  rw [seek_of_le nonempty (Nat.le_of_eq counted.symm)] at opens
  change graphdb .primary (some world.rangeVersion) world =
    (passedOn world.inUse.1, world.setGraph .primary world.inUse.2) at opens
  cases outcome : world.inUse.1 with
  | ok value =>
      rw [outcome] at opens
      rw [readsRepeat_iff_shows opens]
      simp [passedOn, setGraph]
  | error error =>
      rw [outcome] at opens
      simp [passedOn, not_readsRepeat opens]

/-- The entries of the changelist have the times of the calls that returned, and
the version counts them. -/
theorem changelist_times {writes : List (Nat × WriteCall)} {world : World}
    (same : world.tables = (empty.callsAt writes).tables) :
    (getChangelist world).map Prod.fst = commitTimes empty writes ∧
      world.rangeVersion = world.rangeChanges.change.length := by
  have ranges : world.rangeChanges = (empty.callsAt writes).rangeChanges :=
    congrArg Tables.rangeChanges same
  obtain ⟨times, counted⟩ := empty_quiet.changes_callsAt writes
  constructor
  · have timestamps : (getChangelist world).map Prod.fst =
        world.rangeChanges.change.map RangeChange.timestamp := by
      unfold getChangelist
      have first := congrArg (List.map RangeChange.timestamp)
        (List.zipIdx_map_fst 0 world.rangeChanges.change)
      rw [List.map_map] at first ⊢
      exact first
    rw [timestamps, ranges, times]
    rfl
  · have length := congrArg List.length times
    simp only [List.length_map, List.length_append] at length
    rw [rangeVersion, ranges, length]
    exact counted

/-- When anything was committed before the time, the version is that of
today. -/
theorem getRangeVersion_eq {writes : List (Nat × WriteCall)}
    (ordered : (commitTimes empty writes).Pairwise (· ≤ ·)) {world : World}
    (same : world.tables = (empty.callsAt writes).tables)
    {parseDatetime : String → Option Int} {timespec : String} {time : Int}
    (parses : parseDatetime timespec = some time) :
    getRangeVersion parseDatetime timespec world =
      .ok (if ∀ moment ∈ commitTimes empty writes, time ≤ (moment : Nat) then none
        else some world.rangeVersion) := by
  obtain ⟨entries, -⟩ := changelist_times same
  unfold getRangeVersion
  rw [parses]
  dsimp only
  rw [findVersion_ascending (by rw [entries]; exact ordered), entries]

/-- `get_range_version` gives no version exactly when nothing was committed
before the time.  A version it gives shows the state that the last call
committed before the time left if and only if the graph in use still shows it;
on a backend that was told no version yet that is the current one. -/
theorem range_version_at_iff (writes : List (Nat × WriteCall))
    (ordered : (commitTimes empty writes).Pairwise (· ≤ ·)) {world : World}
    (same : world.tables = (empty.callsAt writes).tables)
    {parseDatetime : String → Option Int} {timespec : String} {time : Int}
    (parses : parseDatetime timespec = some time) :
    (getRangeVersion parseDatetime timespec world = .ok none ↔
      ∀ moment ∈ commitTimes empty writes, time ≤ (moment : Nat)) ∧
    ((∀ left, LeftBefore writes time left → ∃ version,
        getRangeVersion parseDatetime timespec world = .ok (some version) ∧
          ReadsRepeat (some version) world left) ↔
      ∀ left, LeftBefore writes time left →
        passedOn world.inUse.1 = .ok () ∧ Shows world.inUse.2 left) ∧
    (world.graphWantedVersionMap.lookup .primary = none →
      world.inUse = (.ok true, .ofInstance world.primary.inst)) := by
  obtain ⟨entries, version⟩ := changelist_times same
  have committed : Committed world.primary.inst := by
    rw [show world.primary.inst = (empty.callsAt writes).primary.inst from
      congrArg Tables.primary same]
    exact (empty_quiet.callsAt writes).primary
  rw [getRangeVersion_eq ordered same parses]
  refine ⟨?_, ?_, inUse_none⟩
  · simp
  · have isFound : ∀ left, LeftBefore writes time left →
        (if ∀ moment ∈ commitTimes empty writes, time ≤ (moment : Nat) then none
          else some world.rangeVersion) = some world.rangeVersion ∧
        world.rangeChanges.change ≠ [] := by
      intro left isLeft
      obtain ⟨moment, member, before⟩ := isLeft.commits
      refine ⟨if_neg fun notBefore => ?_, ?_⟩
      · exact absurd (notBefore moment member) (Int.not_le.mpr before)
      · intro nothing
        rw [← entries, getChangelist, nothing] at member
        simp at member
    constructor
    · intro gives left isLeft
      obtain ⟨isVersion, nonempty⟩ := isFound left isLeft
      obtain ⟨given, isGiven, reads⟩ := gives left isLeft
      rw [isVersion] at isGiven
      obtain rfl := Option.some.inj (Except.ok.inj isGiven)
      exact (reads_rangeVersion_iff committed nonempty version).mp reads
    · intro shows left isLeft
      obtain ⟨isVersion, nonempty⟩ := isFound left isLeft
      exact ⟨_, congrArg Except.ok isVersion,
        (reads_rangeVersion_iff committed nonempty version).mpr (shows left isLeft)⟩

/-- An environment that gets a cluster later. -/
def clusterLater : List (Nat × WriteCall) :=
  [(10, ⟨.createEnv, ["e"], 1⟩), (20, ⟨.addClusterToEnv, ["e", "c"], 2⟩)]

theorem range_version_at_iff_clusterLater :
    (∀ left, LeftBefore clusterLater 15 left → ∃ version,
        getRangeVersion (fun _ => some 15) "15 seconds" (empty.callsAt clusterLater) =
            .ok (some version) ∧
          ReadsRepeat (some version) (empty.callsAt clusterLater) left) ↔
      ∀ left, LeftBefore clusterLater 15 left →
        passedOn (empty.callsAt clusterLater).inUse.1 = .ok () ∧
          Shows (empty.callsAt clusterLater).inUse.2 left :=
  (@range_version_at_iff clusterLater (by decide +kernel) (empty.callsAt clusterLater) rfl
    (fun _ => some 15) "15 seconds" 15 rfl).2.1

/-- The version given for the time between the two calls shows the cluster. -/
theorem version_shows_clusterLater :
    LeftBefore clusterLater 15 (empty.callsAt (clusterLater.take 1)) ∧
      (simpleExpand "e" "" none .unknown (empty.callsAt (clusterLater.take 1))).1 = .ok [] ∧
      getRangeVersion (fun _ => some 15) "15 seconds" (empty.callsAt clusterLater) =
        .ok (some 2) ∧
      (simpleExpand "e" "" (some 2) .unknown (empty.callsAt clusterLater)).1 = .ok ["c"] := by
  refine ⟨⟨[], 10, ⟨.createEnv, ["e"], 1⟩, clusterLater.drop 1, rfl, ?_, ?_, rfl, ?_⟩, ?_, ?_, ?_⟩
  all_goals
    try unfold Returns
    decide +kernel

end Reads

end World

end Rangexx
