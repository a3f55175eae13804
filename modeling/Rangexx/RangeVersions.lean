import Rangexx.TransactionLog

/-!
# Saving a range version

A client may save the value of `range_version` after a write and read that
version later.  The value counts the successful writes, while a read takes a
version as an index of the range changelist: the entry that the write appended
has the index one below the value it left.
-/

namespace Rangexx

open StateProgram

namespace World

theorem successes_append (world : World) (first second : List WriteCall) :
    world.successes (first ++ second) =
      world.successes first + (world.calls first).successes second := by
  induction first generalizing world with
  | nil => simp [successes, calls]
  | cons call rest ih =>
      rw [List.cons_append, successes, successes, ih, Nat.add_assoc]
      rfl

theorem successes_concat (before : List WriteCall) (call : WriteCall) :
    empty.successes (before ++ [call]) = empty.successes before +
      if failed (call.run (empty.calls before)).1 then 0 else 1 := by
  rw [successes_append]
  rfl

/-- `range_version` counts the calls that returned. -/
theorem rangeVersion_eq_successes (sequence : List WriteCall) :
    (empty.calls sequence).rangeVersion = empty.successes sequence := by
  induction sequence using List.reverseRecOn with
  | nil => rfl
  | append_singleton before call ih =>
      have quiet := empty_quiet.calls before
      rw [calls_concat, successes_concat, ← ih]
      by_cases returns : (empty.calls before).Returns call
      · rw [(quiet.log_of_returns returns).1, if_neg (by rw [returns]; simp)]
      · rw [(quiet.log_of_thrown returns).1, if_pos (by simpa [Returns] using returns),
          Nat.add_zero]

section Reads

open RangeApi

/-- Reading one below the saved value gives what the reads of the current
version gave right after the write, in every later state of the store and
whatever was read before. -/
theorem reads_at_rangeVersion (before after : List WriteCall) (call : WriteCall)
    (returns : (empty.calls before).Returns call)
    (notFirst : 1 < (empty.calls (before ++ [call])).rangeVersion)
    (fresh : Along (fun world call => ¬ call.Revives world) (empty.calls (before ++ [call]))
      after)
    {world : World} (same : world.tables = (empty.calls (before ++ call :: after)).tables)
    {version : Nat} (saved : (empty.calls (before ++ [call])).rangeVersion = version + 1) :
    (∀ envName nodeName type, Repeats
      (simpleExpand envName nodeName (some version) type world).1
      (simpleExpand envName nodeName none type (empty.calls (before ++ [call]))).1) ∧
    (∀ envName nodeName, Repeats
      (getKeys envName nodeName (some version) world).1
      (getKeys envName nodeName none (empty.calls (before ++ [call]))).1) ∧
    (∀ envName nodeName key, Repeats
      (fetchKey envName nodeName key (some version) world).1
      (fetchKey envName nodeName key none (empty.calls (before ++ [call]))).1) ∧
    ∀ envName nodeName, Repeats
      (getClusters envName nodeName (some version) world).1
      (getClusters envName nodeName none (empty.calls (before ++ [call]))).1 := by
  have index : empty.successes before = version := by
    rw [rangeVersion_eq_successes, successes_concat, if_neg (by rw [returns]; simp)] at saved
    omega
  obtain ⟨opened, opens, _, _, _, mirrors⟩ :=
    graphdb_mirrors before after call returns (by omega) fresh same
  rw [index] at opens
  have current := graphdb_none .primary (empty.calls (before ++ [call]))
  refine ⟨?_, ?_, ?_, ?_⟩
  · intro envName nodeName type
    rw [simpleExpand_eq, answering_apply opens, simpleExpand_eq, answering_apply current]
    exact expansion_repeats mirrors envName nodeName type
  · intro envName nodeName
    rw [getKeys_eq, answering_apply opens, getKeys_eq, answering_apply current]
    exact keys_repeats mirrors envName nodeName
  · intro envName nodeName key
    rw [fetchKey_eq, answering_apply opens, fetchKey_eq, answering_apply current]
    exact keyValues_repeats mirrors envName nodeName key
  · intro envName nodeName
    rw [getClusters_eq, answering_apply opens, getClusters_eq, answering_apply current]
    exact parents_repeats mirrors envName nodeName

/-- An environment that gains a cluster and loses it again. -/
def clusterLost : List WriteCall :=
  [⟨.createEnv, ["e"], 1⟩, ⟨.addClusterToEnv, ["e", "c"], 2⟩,
    ⟨.removeClusterFromEnv, ["e", "c"], 3⟩]

theorem reads_at_rangeVersion_clusterLost :
    (empty.calls (clusterLost.take 2)).rangeVersion = 2 ∧
      Repeats (simpleExpand "e" "" (some 1) .unknown (empty.calls clusterLost)).1
        (simpleExpand "e" "" none .unknown (empty.calls (clusterLost.take 2))).1 := by
  have saved : (empty.calls (clusterLost.take 2)).rangeVersion = 2 := by decide +kernel
  refine ⟨saved, ?_⟩
  have reads := reads_at_rangeVersion [⟨.createEnv, ["e"], 1⟩]
    [⟨.removeClusterFromEnv, ["e", "c"], 3⟩] ⟨.addClusterToEnv, ["e", "c"], 2⟩
    (by unfold Returns; decide +kernel) (by decide +kernel) ⟨fun revives => revives.1, trivial⟩
    rfl saved
  exact reads.1 "e" "" .unknown

/-- Reading the saved value itself shows what the next write left. -/
theorem reads_after_rangeVersion :
    Along Returns empty clusterLost ∧ (empty.calls (clusterLost.take 2)).rangeVersion = 2 ∧
      (simpleExpand "e" "" none .unknown (empty.calls (clusterLost.take 2))).1 = .ok ["c"] ∧
      (simpleExpand "e" "" (some 2) .unknown (empty.calls clusterLost)).1 = .ok [] := by
  refine ⟨⟨?_, ?_, ?_, trivial⟩, ?_, ?_, ?_⟩
  all_goals
    try unfold Returns
    decide +kernel

end Reads

end World

end Rangexx
