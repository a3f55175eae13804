import Rangexx.EventRuns
import Rangexx.FaultLoop
import Rangexx.OrderedTable
import Rangexx.Backend

/-!
# Pruning the transaction log

`append_txn` gives a request the version after the last one that is still in
the log, and `prune_txns_prior_to` deletes from the front under a cursor.  The
versions go on as long as the log is not emptied and they fit their 32 bits;
after that they start again.
-/

namespace Rangexx

open EventRuns

/-- The table `transactionlog`.  A request is stored under its own version. -/
structure TxLog where
  table : OrderedTable Nat Request
  labelled : ∀ entry ∈ table.entries, entry.2.version = entry.1

namespace TxLog

def empty : TxLog where
  table := .empty
  labelled := by simp [OrderedTable.empty]

/-- The version that `append_txn` gives to the next request, a `uint32_t`. -/
def nextVersion (log : TxLog) : Nat :=
  match log.table.last with
  | none => 1
  | some last => (last.2.version + 1) % 2 ^ 32

/-- `append_txn`. -/
def appendTxn (log : TxLog) (change : Request) : TxLog where
  table := log.table.put log.nextVersion { change with version := log.nextVersion }
  labelled := by
    intro entry member
    rcases (OrderedTable.mem_put _ _ entry).mp member with rfl | ⟨old, _⟩
    · rfl
    · exact log.labelled entry old

def del (log : TxLog) (version : Nat) : TxLog where
  table := log.table.del version
  labelled := fun entry member => log.labelled entry (List.mem_filter.mp member).1

/-- The loop of `prune_txns_prior_to`.  Its state is the log and the place of
the cursor with the request found there. -/
def pruneLoop (version : Nat) : FaultLoop (TxLog × Option (Nat × Request)) Empty where
  guard state := state.2.any fun current => current.2.version < version
  body state :=
    match state.2 with
    | none => .ok state
    | some (position, current) =>
        .ok (state.1.del current.version,
          (state.1.del current.version).table.next position)

/-- `prune_txns_prior_to`, with a round for every entry. -/
def pruneTxnsPriorTo (log : TxLog) (version : Nat) : Option TxLog :=
  match (pruneLoop version).run log.table.entries.length (log, log.table.first) with
  | some (.ok (pruned, _)) => some pruned
  | _ => none

/-- The requests from `begin` to `end`. -/
def iterate (log : TxLog) : List Request :=
  (log.table.walk log.table.entries.length log.table.first).map Prod.snd

/-! ## One call -/

variable {log : TxLog}

theorem iterate_eq (log : TxLog) : log.iterate = log.table.entries.map Prod.snd := by
  unfold iterate
  rw [OrderedTable.walk_first (Nat.le_refl _)]

/-- Every request has its key as its version. -/
theorem map_version_iterate (log : TxLog) :
    log.iterate.map Request.version = log.table.entries.map Prod.fst := by
  rw [iterate_eq, List.map_map]
  exact List.map_congr_left log.labelled

theorem iterate_ascending (log : TxLog) :
    (log.iterate.map Request.version).Pairwise (· < ·) := by
  rw [map_version_iterate, List.pairwise_map]
  exact log.table.ascending

theorem prune_run (version : Nat) (log : TxLog) :
    ∃ final, (pruneLoop version).run log.table.entries.length (log, log.table.first) =
        some (.ok final) ∧
      final.1.table.entries = log.table.entries.filter fun entry => version ≤ entry.1 := by
  generalize entries : log.table.entries = remaining
  induction remaining generalizing log with
  | nil =>
      have atEnd : log.table.first = none := by
        rw [OrderedTable.first, entries]
        rfl
      refine ⟨(log, none), ?_, entries⟩
      rw [atEnd, FaultLoop.run.eq_def]
      rfl
  | cons entry rest ih =>
      have atEntry : log.table.first = some entry := by
        rw [OrderedTable.first, entries]
        rfl
      have label : entry.2.version = entry.1 :=
        log.labelled entry (by rw [entries]; exact List.mem_cons_self)
      rw [atEntry, FaultLoop.run.eq_def]
      by_cases old : entry.1 < version
      · obtain ⟨final, ran, kept⟩ := ih (log.del entry.1) (OrderedTable.del_first entries)
        refine ⟨final, ?_, ?_⟩
        · have entered : (pruneLoop version).guard (log, some entry) = true := by
            simpa [pruneLoop, label] using old
          have onward : (pruneLoop version).body (log, some entry) =
              .ok (log.del entry.1, (log.del entry.1).table.first) := by
            have after : (log.del entry.1).table.next entry.1 = (log.del entry.1).table.first :=
              OrderedTable.next_del_first entries
            simp only [pruneLoop, label, after]
          rw [entered, onward]
          exact ran
        · rw [kept, List.filter_cons_of_neg (by simpa using old)]
      · refine ⟨(log, some entry), ?_, ?_⟩
        · have left : (pruneLoop version).guard (log, some entry) = false := by
            simpa [pruneLoop, label] using old
          rw [left]
          rfl
        · rw [entries, eq_comm, List.filter_eq_self]
          have ascending := log.table.ascending
          rw [entries, List.pairwise_cons] at ascending
          intro other member
          rcases List.mem_cons.mp member with rfl | later
          · simpa using old
          · simpa using (not_lt.mp old).trans (ascending.1 other later).le

/-- Pruning ends and removes exactly what is older. -/
theorem pruneTxnsPriorTo_eq (log : TxLog) (version : Nat) :
    ∃ pruned, log.pruneTxnsPriorTo version = some pruned ∧
      pruned.iterate = log.iterate.filter fun request => version ≤ request.version := by
  obtain ⟨⟨pruned, current⟩, ran, kept⟩ := prune_run version log
  refine ⟨pruned, ?_, ?_⟩
  · unfold pruneTxnsPriorTo
    rw [ran]
  · dsimp only at kept
    rw [iterate_eq, iterate_eq, kept, List.filter_map]
    refine congrArg (List.map Prod.snd) (List.filter_congr fun entry member => ?_)
    simp [log.labelled entry member]

theorem getLast?_iterate (log : TxLog) :
    log.iterate.getLast? = log.table.last.map Prod.snd := by
  rw [iterate_eq, List.getLast?_map]
  rfl

theorem nextVersion_of_nil (nothing : log.iterate = []) : log.nextVersion = 1 := by
  have none : log.table.last.map Prod.snd = none := by
    rw [← getLast?_iterate, nothing]
    rfl
  unfold nextVersion
  rw [Option.map_eq_none_iff.mp none]

theorem nextVersion_of_last {last : Request} (isLast : log.iterate.getLast? = some last) :
    log.nextVersion = (last.version + 1) % 2 ^ 32 := by
  rw [getLast?_iterate, Option.map_eq_some_iff] at isLast
  obtain ⟨entry, isEntry, rfl⟩ := isLast
  unfold nextVersion
  rw [isEntry]

theorem nextVersion_lt (log : TxLog) : log.nextVersion < 2 ^ 32 := by
  cases isLast : log.iterate.getLast? with
  | none =>
      rw [nextVersion_of_nil (List.getLast?_eq_none_iff.mp isLast)]
      decide
  | some last =>
      rw [nextVersion_of_last isLast]
      exact Nat.mod_lt _ (by decide)

theorem version_le_last {last request : Request} (isLast : log.iterate.getLast? = some last)
    (member : request ∈ log.iterate) : request.version ≤ last.version := by
  obtain ⟨front, split⟩ := List.getLast?_eq_some_iff.mp isLast
  have ascending := log.iterate_ascending
  rw [split, List.map_append, List.pairwise_append] at ascending
  rw [split, List.mem_append, List.mem_singleton] at member
  rcases member with inFront | rfl
  · exact (ascending.2.2 _ (List.mem_map_of_mem inFront) last.version (by simp)).le
  · exact Nat.le_refl _

/-- A new version above all others goes to the end. -/
theorem iterate_appendTxn (change : Request)
    (above : ∀ request ∈ log.iterate, request.version < log.nextVersion) :
    (log.appendTxn change).iterate =
      log.iterate ++ [{ change with version := log.nextVersion }] := by
  have greatest : ∀ entry ∈ log.table.entries, entry.1 < log.nextVersion := by
    intro entry member
    rw [← log.labelled entry member]
    refine above entry.2 ?_
    rw [iterate_eq]
    exact List.mem_map_of_mem member
  rw [iterate_eq, iterate_eq]
  exact (congrArg (List.map Prod.snd)
    (OrderedTable.entries_put_of_greatest greatest _)).trans (List.map_append)

theorem put_iterate (version : Nat) (change : Request) :
    (log.table.put version { change with version := version }).entries.map Prod.snd =
      World.putTxn log.iterate { change with version := version } := by
  have below (keeps : Nat → Bool) :
      (log.table.entries.filter fun entry => keeps entry.1).map Prod.snd =
        (log.table.entries.map Prod.snd).filter fun request => keeps request.version := by
    rw [List.filter_map]
    refine congrArg (List.map Prod.snd) (List.filter_congr fun entry member => ?_)
    rw [Function.comp_apply, log.labelled entry member]
  rw [iterate_eq, World.putTxn, ← below fun key => key < version,
    ← below fun key => version < key]
  exact List.map_append

/-- The log of a world that is never pruned grows in the same way. -/
theorem iterate_appendTxn_world {world : World} (same : log.iterate = world.txlog)
    (request : Request) :
    (log.appendTxn request).iterate = (world.appendTxn request).txlog := by
  have version : log.nextVersion = World.nextKey log.iterate := by
    unfold World.nextKey
    cases isLast : log.iterate.getLast? with
    | none => exact nextVersion_of_nil (List.getLast?_eq_none_iff.mp isLast)
    | some last => exact nextVersion_of_last isLast
  unfold World.appendTxn
  dsimp only
  rw [← same, ← version, iterate_eq]
  exact put_iterate log.nextVersion request

end TxLog

/-! ## Runs -/

inductive LogCall where
  | appendTxn (change : Request)
  | pruneTxnsPriorTo (version : Nat)
  deriving DecidableEq, Repr

/-- The log with what was done to it: the versions assigned so far, and the
requests that were appended and not pruned, both in the order of the calls. -/
structure LogHistory where
  log : TxLog
  assigned : List Nat
  kept : List Request

namespace LogHistory

def start : LogHistory where
  log := .empty
  assigned := []
  kept := []

def step (history : LogHistory) : LogCall → Option LogHistory
  | .appendTxn change => some {
      log := history.log.appendTxn change
      assigned := history.assigned ++ [history.log.nextVersion]
      kept := history.kept ++ [{ change with version := history.log.nextVersion }] }
  | .pruneTxnsPriorTo version =>
      (history.log.pruneTxnsPriorTo version).map fun log => {
        log := log
        assigned := history.assigned
        kept := history.kept.filter fun request => version ≤ request.version }

/-- An append finds a log nothing was appended to before, or an entry that does
not have the largest version. -/
def Continues (history : LogHistory) : LogCall → Prop
  | .appendTxn _ => (history.log.iterate = [] → history.assigned = []) ∧
      ∀ last, history.log.iterate.getLast? = some last → last.version ≠ 2 ^ 32 - 1
  | .pruneTxnsPriorTo _ => True

/-- The versions assigned so far are ascending, and the log holds what was
appended and not pruned. -/
structure Orderly (history : LogHistory) : Prop where
  assigned : history.assigned.Pairwise (· < ·)
  kept : history.log.iterate = history.kept
  recorded : ∀ request ∈ history.log.iterate, request.version ∈ history.assigned
  positive : ∀ version ∈ history.assigned, 0 < version ∧ version < 2 ^ 32
  greatest : history.log.iterate ≠ [] → ∀ version ∈ history.assigned,
    ∃ request ∈ history.log.iterate, version ≤ request.version

variable {history next : LogHistory}

theorem start_orderly : start.Orderly where
  assigned := List.Pairwise.nil
  kept := rfl
  recorded := by simp [start, TxLog.iterate_eq, TxLog.empty, OrderedTable.empty]
  positive := by simp [start]
  greatest := by simp [start]

/-- The version of the next append is above all versions before it exactly when
the call continues the log. -/
theorem Orderly.above_iff (orderly : history.Orderly) (change : Request) :
    (∀ version ∈ history.assigned, version < history.log.nextVersion) ↔
      history.Continues (.appendTxn change) := by
  cases isLast : history.log.iterate.getLast? with
  | none =>
      have nothing := List.getLast?_eq_none_iff.mp isLast
      rw [TxLog.nextVersion_of_nil nothing]
      unfold Continues
      rw [isLast]
      simp only [nothing, forall_const, reduceCtorEq, false_implies, implies_true, and_true]
      constructor
      · intro above
        rw [List.eq_nil_iff_forall_not_mem]
        intro version member
        exact absurd (above version member) (Nat.not_lt.mpr (orderly.positive version member).1)
      · intro none
        simp [none]
  | some last =>
      have member := List.mem_of_getLast? isLast
      have recorded := orderly.recorded last member
      have bound := (orderly.positive last.version recorded).2
      rw [TxLog.nextVersion_of_last isLast]
      unfold Continues
      rw [isLast]
      have something : history.log.iterate ≠ [] := List.ne_nil_of_mem member
      simp only [something, false_implies, true_and, Option.some.injEq]
      constructor
      · rintro above _ rfl full
        have wrapped := above last.version recorded
        rw [full] at wrapped
        simp at wrapped
      · intro notFull version assigned
        obtain ⟨request, kept, atMost⟩ := orderly.greatest something version assigned
        have below := TxLog.version_le_last isLast kept
        have := notFull last rfl
        rw [Nat.mod_eq_of_lt (by omega)]
        omega

theorem Orderly.appendTxn (orderly : history.Orderly) {change : Request}
    (continues : history.Continues (.appendTxn change))
    (taken : history.step (.appendTxn change) = some next) : next.Orderly := by
  obtain rfl := Option.some.inj taken
  have above := (orderly.above_iff change).mpr continues
  have grown : (history.log.appendTxn change).iterate =
      history.log.iterate ++ [{ change with version := history.log.nextVersion }] :=
    TxLog.iterate_appendTxn change fun request member =>
      above _ (orderly.recorded request member)
  constructor
  · rw [List.pairwise_append]
    refine ⟨orderly.assigned, List.pairwise_singleton _ _, ?_⟩
    intro version member new isNew
    rw [List.mem_singleton.mp isNew]
    exact above version member
  · rw [grown, orderly.kept]
  · intro request member
    rw [grown, List.mem_append, List.mem_singleton] at member
    rw [List.mem_append, List.mem_singleton]
    rcases member with old | rfl
    · exact Or.inl (orderly.recorded request old)
    · exact Or.inr rfl
  · intro version member
    rcases List.mem_append.mp member with old | new
    · exact orderly.positive version old
    · rw [List.mem_singleton.mp new]
      refine ⟨?_, history.log.nextVersion_lt⟩
      cases isLast : history.log.iterate.getLast? with
      | none =>
          rw [TxLog.nextVersion_of_nil (List.getLast?_eq_none_iff.mp isLast)]
          exact Nat.one_pos
      | some last =>
          exact Nat.zero_lt_of_lt
            (above _ (orderly.recorded last (List.mem_of_getLast? isLast)))
  · intro _ version member
    refine ⟨{ change with version := history.log.nextVersion }, by rw [grown]; simp, ?_⟩
    rcases List.mem_append.mp member with old | new
    · exact (above version old).le
    · exact (List.mem_singleton.mp new).le

theorem Orderly.prune (orderly : history.Orderly) {version : Nat}
    (taken : history.step (.pruneTxnsPriorTo version) = some next) : next.Orderly := by
  obtain ⟨pruned, isPruned, left⟩ := history.log.pruneTxnsPriorTo_eq version
  rw [step, isPruned] at taken
  obtain rfl := Option.some.inj taken
  constructor
  · exact orderly.assigned
  · rw [left, orderly.kept]
  · intro request member
    rw [left] at member
    exact orderly.recorded request (List.mem_filter.mp member).1
  · exact orderly.positive
  · intro something old assigned
    obtain ⟨survivor, survives⟩ := List.exists_mem_of_ne_nil _ something
    have isSurvivor := survives
    rw [left, List.mem_filter, decide_eq_true_eq] at isSurvivor
    obtain ⟨request, kept, atMost⟩ :=
      orderly.greatest (List.ne_nil_of_mem isSurvivor.1) old assigned
    by_cases removed : request.version < version
    · exact ⟨survivor, survives, (atMost.trans removed.le).trans isSurvivor.2⟩
    · refine ⟨request, ?_, atMost⟩
      rw [left, List.mem_filter, decide_eq_true_eq]
      exact ⟨kept, Nat.not_lt.mp removed⟩

/-- What a call assigned stays assigned. -/
theorem step_assigned {call : LogCall} (taken : history.step call = some next) :
    history.assigned <+: next.assigned := by
  cases call with
  | appendTxn change =>
      obtain rfl := Option.some.inj taken
      exact List.prefix_append _ _
  | pruneTxnsPriorTo version =>
      rw [step, Option.map_eq_some_iff] at taken
      obtain ⟨log, _, rfl⟩ := taken
      exact List.prefix_rfl

theorem run_assigned {calls : List LogCall} (ran : run step history calls = some next) :
    history.assigned <+: next.assigned := by
  induction calls generalizing history with
  | nil =>
      obtain rfl := Option.some.inj ran
      exact List.prefix_rfl
  | cons call rest ih =>
      obtain ⟨middle, taken, onward⟩ := run_cons ran
      exact (step_assigned taken).trans (ih onward)

/-- Every call returns. -/
theorem run_returns (history : LogHistory) (calls : List LogCall) :
    ∃ final, run step history calls = some final := by
  induction calls generalizing history with
  | nil => exact ⟨history, rfl⟩
  | cons call rest ih =>
      obtain ⟨next, taken⟩ : ∃ next, history.step call = some next := by
        cases call with
        | appendTxn change => exact ⟨_, rfl⟩
        | pruneTxnsPriorTo version =>
            obtain ⟨pruned, isPruned, _⟩ := history.log.pruneTxnsPriorTo_eq version
            exact ⟨_, by rw [step, isPruned]; rfl⟩
      obtain ⟨final, onward⟩ := ih next
      exact ⟨final, by rw [run, taken]; exact onward⟩

theorem Orderly.ascending_iff (orderly : history.Orderly) {calls : List LogCall}
    {final : LogHistory} (ran : run step history calls = some final) :
    (final.assigned.Pairwise (· < ·) ∧ final.log.iterate = final.kept) ↔
      Along step Continues history calls := by
  induction calls generalizing history with
  | nil =>
      obtain rfl := Option.some.inj ran
      exact iff_of_true ⟨orderly.assigned, orderly.kept⟩ trivial
  | cons call rest ih =>
      obtain ⟨next, taken, onward⟩ := run_cons ran
      have onlyNext : ∀ other, history.step call = some other → other = next := by
        intro other also
        exact Option.some.inj (also.symm.trans taken)
      by_cases continues : history.Continues call
      · have nextOrderly : next.Orderly := by
          cases call with
          | appendTxn change => exact orderly.appendTxn continues taken
          | pruneTxnsPriorTo version => exact orderly.prune taken
        rw [ih nextOrderly onward]
        constructor
        · intro along
          refine ⟨continues, fun other also => ?_⟩
          rw [onlyNext other also]
          exact along
        · exact fun along => along.2 next taken
      · refine iff_of_false ?_ fun along => continues along.1
        rintro ⟨ascending, _⟩
        cases call with
        | pruneTxnsPriorTo version => exact continues trivial
        | appendTxn change =>
            -- The version assigned here is not above all versions before it.
            refine continues ((orderly.above_iff change).mp fun version member => ?_)
            have assigned := ascending.sublist (run_assigned onward).sublist
            obtain rfl := Option.some.inj taken
            exact (List.pairwise_append.mp assigned).2.2 version member _ (by simp)

/-- Over a whole run from the empty log the assigned versions are strictly
increasing, and iteration gives what was appended and not pruned, exactly when
every append continues the log.  Iteration is ascending, and a pruning removes
exactly what is older, in any case. -/
theorem log_orderly_iff (calls : List LogCall) :
    ∃ final, run step start calls = some final ∧
      ((final.assigned.Pairwise (· < ·) ∧ final.log.iterate = final.kept ∧
        (final.log.iterate.map Request.version).Pairwise (· < ·) ∧
        ∀ version, ∃ pruned, final.log.pruneTxnsPriorTo version = some pruned ∧
          pruned.iterate = final.log.iterate.filter fun request => version ≤ request.version) ↔
      Along step Continues start calls) := by
  obtain ⟨final, ran⟩ := run_returns start calls
  refine ⟨final, ran, ?_⟩
  rw [← start_orderly.ascending_iff ran]
  constructor
  · rintro ⟨ascending, kept, _⟩
    exact ⟨ascending, kept⟩
  · rintro ⟨ascending, kept⟩
    exact ⟨ascending, kept, final.log.iterate_ascending, final.log.pruneTxnsPriorTo_eq⟩

/-- The second append finds the log emptied and assigns version 1 again. -/
theorem log_restarts_pruned :
    ∃ final, run step start [.appendTxn ⟨"create_env", ["a"], 1, 0⟩, .pruneTxnsPriorTo 2,
        .appendTxn ⟨"create_env", ["b"], 2, 0⟩] = some final ∧ final.assigned = [1, 1] ∧
      ¬ final.assigned.Pairwise (· < ·) :=
  ⟨_, rfl, rfl, by decide⟩

end LogHistory

end Rangexx
