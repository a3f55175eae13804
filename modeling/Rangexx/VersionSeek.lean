import Rangexx.Backend
import Rangexx.FaultLoop

/-!
# Seeking a version

Both `set_wanted_version` functions walk a changelist from its end down to the
version asked for, and both count an unsigned index down with `>=`.  This file
translates the two loops with their machine integers.  They agree with the
functions over lists of the model, and they leave the changelist exactly when
the version is 0, or when the range changelist is empty and the version fits
into 32 bits.
-/

namespace Rangexx

/-- A repeated field of a message; its size is an `int`. -/
structure RepeatedField (Entry : Type) where
  entries : List Entry
  size_lt : entries.length < 2 ^ 31

/-! ## The loop of the backend -/

/-- The inner loop: note the graph versions of one entry. -/
def noteItems (map : AList fun _ : GraphName => Nat) (change : RangeChange) :
    AList fun _ : GraphName => Nat :=
  change.items.foldl (fun map item => map.insert item.key item.version) map

/-- The loop of `BerkeleyDB::set_wanted_version`: a `uint32_t` index is compared
with the `uint64_t` version. -/
def rangeSeek (changes : RepeatedField RangeChange) (version : UInt64) :
    FaultLoop (UInt32 × AList fun _ : GraphName => Nat) ApiError where
  guard state := version ≤ state.1.toUInt64
  body state :=
    match changes.entries[state.1.toNat]? with
    | none => .error .outOfBounds
    | some change => .ok (state.1 - 1, noteItems state.2 change)

/-- The index the loop starts with: `change_size() - 1`, as a `uint32_t`. -/
def RepeatedField.lastIndex {Entry : Type} (changes : RepeatedField Entry) : UInt32 :=
  UInt32.ofNat changes.entries.length - 1

private theorem guard_rangeSeek (changes : RepeatedField RangeChange) (version : UInt64)
    (index : UInt32) (map : AList fun _ : GraphName => Nat) :
    (rangeSeek changes version).guard (index, map) = decide (version.toNat ≤ index.toNat) := by
  simp [rangeSeek, UInt64.le_iff_toNat_le]

private theorem toNat_ofNat_sub_one {size : Nat} (small : size < 2 ^ 31) :
    (UInt32.ofNat (size + 1) - 1).toNat = size := by
  have fits : (UInt32.ofNat (size + 1)).toNat = size + 1 := by
    rw [UInt32.toNat_ofNat']
    omega
  rw [UInt32.toNat_sub, fits]
  simp only [UInt32.toNat_one]
  omega

/-- The loop over the machine index computes what the function over the reversed
list computes. -/
theorem rangeSeek_ends_iff (changes : RepeatedField RangeChange) (version : UInt64)
    (map final : AList fun _ : GraphName => Nat) {size : Nat}
    (le : size ≤ changes.entries.length) :
    (∃ index, (rangeSeek changes version).Ends (UInt32.ofNat size - 1, map) (index, final)) ↔
      seekRangeVersion version.toNat (changes.entries.take size).reverse map = some final := by
  have bounded := changes.size_lt
  induction size generalizing map with
  | zero =>
      have wrapped : (UInt32.ofNat 0 - 1).toNat = 2 ^ 32 - 1 := by decide
      have guard := guard_rangeSeek changes version (UInt32.ofNat 0 - 1) map
      rw [wrapped] at guard
      rw [List.take_zero, List.reverse_nil, seekRangeVersion]
      by_cases reached : version.toNat ≤ 2 ^ 32 - 1
      · have faults : (rangeSeek changes version).body (UInt32.ofNat 0 - 1, map) =
            .error .outOfBounds := by
          have outside : changes.entries[(UInt32.ofNat 0 - 1).toNat]? = none := by
            rw [wrapped, List.getElem?_eq_none_iff]
            omega
          simp only [rangeSeek, outside]
        rw [if_pos reached]
        simp only [reduceCtorEq, iff_false, not_exists]
        intro index
        exact FaultLoop.not_ends_of_fault (by rw [guard]; simpa using reached) faults
      · rw [if_neg reached]
        simp only [FaultLoop.ends_of_left (by rw [guard]; simpa using reached)]
        simp [eq_comm]
  | succ size ih =>
      have index := toNat_ofNat_sub_one (show size < 2 ^ 31 by omega)
      have guard := guard_rangeSeek changes version (UInt32.ofNat (size + 1) - 1) map
      rw [index] at guard
      have inside : size < changes.entries.length := by omega
      have entry : changes.entries[size]? = some changes.entries[size] :=
        List.getElem?_eq_getElem inside
      rw [List.take_succ_eq_append_getElem inside, List.reverse_append, List.reverse_singleton,
        List.singleton_append, seekRangeVersion, List.length_reverse, List.length_take,
        Nat.min_eq_left (Nat.le_of_lt inside)]
      by_cases reached : version.toNat ≤ size
      · have passed : (rangeSeek changes version).body (UInt32.ofNat (size + 1) - 1, map) =
            .ok (UInt32.ofNat size - 1, noteItems map changes.entries[size]) := by
          have sameIndex : UInt32.ofNat (size + 1) - 1 = UInt32.ofNat size := by
            apply UInt32.toNat.inj
            rw [index, UInt32.toNat_ofNat']
            omega
          simp only [rangeSeek, index, entry]
          rw [sameIndex]
        rw [if_pos reached]
        simp only [FaultLoop.ends_of_round (by rw [guard]; simpa using reached) passed]
        exact ih _ (by omega)
      · rw [if_neg reached]
        simp only [FaultLoop.ends_of_left (by rw [guard]; simpa using reached)]
        simp [eq_comm]

theorem seekRangeVersion_isSome_iff (version : Nat) (reversed : List RangeChange)
    (map : AList fun _ : GraphName => Nat) :
    (seekRangeVersion version reversed map).isSome ↔
      0 < version ∧ (reversed ≠ [] ∨ 2 ^ 32 ≤ version) := by
  induction reversed generalizing map with
  | nil =>
      rw [seekRangeVersion]
      split
      · simp
        omega
      · simp
        omega
  | cons change rest ih =>
      rw [seekRangeVersion]
      split
      · rename_i reached
        rw [ih]
        cases rest with
        | nil =>
            simp at reached
            simp [reached]
        | cons next more => simp
      · rename_i notReached
        have positive : 0 < version := by omega
        simp [positive]

/-! ## The loop of a graph -/

/-- The outer loop of `GraphDB::set_wanted_version`: a `uint64_t` counter, and
the entries from the iterator on. -/
def graphSeek (version : UInt64) : FaultLoop
    (UInt64 × List (List (ChangeItem RecordKey)) × AList fun _ : String => Nat) GraphError where
  guard state := version ≤ state.1
  body state :=
    match state.2.1 with
    | [] => .error .outOfBounds
    | entry :: rest => .ok (state.1 - 1, rest, GraphDB.noteEntry state.2.2 entry)

theorem graphSeek_ends_iff (version counter : UInt64)
    (entries : List (List (ChangeItem RecordKey))) (map final : AList fun _ : String => Nat)
    (size : entries.length = counter.toNat) :
    (∃ left rest, (graphSeek version).Ends (counter, entries, map) (left, rest, final)) ↔
      GraphDB.seekVersion version.toNat entries.length entries map = some final := by
  have guard : ∀ counter entries map, (graphSeek version).guard (counter, entries, map) =
      decide (version.toNat ≤ counter.toNat) := by
    intro counter entries map
    simp [graphSeek, UInt64.le_iff_toNat_le]
  induction entries generalizing counter map with
  | nil =>
      rw [GraphDB.seekVersion]
      have zero : counter.toNat = 0 := size.symm
      have guardHere := guard counter [] map
      rw [zero] at guardHere
      by_cases reached : version.toNat ≤ 0
      · rw [if_pos (by simpa using reached)]
        simp only [reduceCtorEq, iff_false, not_exists]
        intro left rest
        exact FaultLoop.not_ends_of_fault (by rw [guardHere]; simpa using reached) rfl
      · rw [if_neg (by simpa using reached)]
        simp only [FaultLoop.ends_of_left (by rw [guardHere]; simpa using reached)]
        simp [eq_comm]
  | cons entry rest ih =>
      rw [GraphDB.seekVersion, List.length_cons, Nat.add_sub_cancel]
      rw [List.length_cons] at size
      have guardHere := guard counter (entry :: rest) map
      rw [← size] at guardHere
      by_cases reached : version.toNat ≤ rest.length + 1
      · have restSize : rest.length = (counter - 1).toNat := by
          rw [UInt64.toNat_sub, ← size]
          simp only [UInt64.toNat_one]
          have := counter.toNat_lt
          omega
        rw [if_pos reached]
        simp only [FaultLoop.ends_of_round (by rw [guardHere]; simpa using reached) rfl]
        exact ih (counter - 1) _ restSize
      · rw [if_neg reached]
        simp only [FaultLoop.ends_of_left (by rw [guardHere]; simpa using reached)]
        simp [eq_comm]

theorem seekVersion_isSome_iff (wanted : Nat) (entries : List (List (ChangeItem RecordKey)))
    (map : AList fun _ : String => Nat) :
    (GraphDB.seekVersion wanted entries.length entries map).isSome ↔ 0 < wanted := by
  induction entries generalizing map with
  | nil =>
      rw [GraphDB.seekVersion]
      split
      · rename_i reached
        simp at reached
        simp [reached]
      · rename_i notReached
        simp at notReached
        simp
        omega
  | cons entry rest ih =>
      rw [GraphDB.seekVersion, List.length_cons, Nat.add_sub_cancel]
      split
      · exact ih _
      · simp
        omega

/-- `set_wanted_version` of a graph reads outside the history exactly when it is
asked for version 0, which it is not at, while the history is consistent. -/
theorem GraphDB.setWantedVersion_outOfBounds_iff (graph : GraphDB) (wanted : Option Nat) :
    (graph.setWantedVersion wanted).1 = .error .outOfBounds ↔
      wanted = some 0 ∧ graph.wantedVersion ≠ some 0 ∧
        graph.inst.getChangeHistory.length = graph.version := by
  unfold setWantedVersion
  by_cases same : wanted = graph.wantedVersion
  · rw [if_pos same]
    simp only [reduceCtorEq, false_iff, not_and]
    rintro rfl differs
    exact absurd same.symm differs
  · rw [if_neg same]
    cases wanted with
    | none => simp
    | some target =>
        dsimp only
        by_cases le : target ≤ graph.version
        · rw [if_pos le]
          by_cases consistent : graph.inst.getChangeHistory.length = graph.version
          · rw [if_neg (not_not.mpr consistent)]
            have sought := seekVersion_isSome_iff target graph.inst.getChangeHistory.reverse ∅
            rw [List.length_reverse, consistent] at sought
            cases result : seekVersion target graph.version
                graph.inst.getChangeHistory.reverse ∅ with
            | none =>
                rw [result] at sought
                have zero : target = 0 := by simpa using sought
                subst zero
                simp [consistent, Ne.symm same]
            | some map =>
                rw [result] at sought
                have positive : 0 < target := by simpa using sought
                simp
                omega
          · rw [if_pos consistent]
            simp [consistent]
        · rw [if_neg le]
          simp
          omega

/-! ## Both loops -/

/-- A version argument; the largest one is `-1`, the current version. -/
def wantedArgument (version : UInt64) : Option Nat :=
  if version = -1 then none else some version.toNat

/-- When the loops stay inside the changelists and end.  The graph's loop is
only entered with a history as long as its counter says, so asked for version 0
it is entered unless the graph is there already or the history is found
inconsistent. -/
theorem versionSeeks_end_iff (changes : RepeatedField RangeChange)
    (map : AList fun _ : GraphName => Nat) (history : List (List (ChangeItem RecordKey)))
    (counter : UInt64) (consistent : history.length = counter.toNat)
    (nodeMap : AList fun _ : String => Nat) (version : UInt64) :
    ((∃ final, (rangeSeek changes version).Ends (changes.lastIndex, map) final) ↔
      0 < version.toNat ∧ (changes.entries ≠ [] ∨ 2 ^ 32 ≤ version.toNat)) ∧
    ((∃ final, (graphSeek version).Ends (counter, history.reverse, nodeMap) final) ↔
      0 < version.toNat) ∧
    ∀ graph : GraphDB,
      (graph.setWantedVersion (wantedArgument version)).1 ≠ .error .outOfBounds ↔
        0 < version.toNat ∨ graph.wantedVersion = some 0 ∨
          graph.inst.getChangeHistory.length ≠ graph.version := by
  refine ⟨?_, ?_, ?_⟩
  · have sought := seekRangeVersion_isSome_iff version.toNat changes.entries.reverse map
    rw [Option.isSome_iff_exists] at sought
    simp only [ne_eq, List.reverse_eq_nil_iff] at sought
    rw [← sought, Prod.exists, exists_comm]
    apply exists_congr
    intro final
    have ends := rangeSeek_ends_iff changes version map final (Nat.le_refl _)
    rw [List.take_length] at ends
    exact ends
  · have sought := seekVersion_isSome_iff version.toNat history.reverse nodeMap
    have size : history.reverse.length = counter.toNat := by
      rw [List.length_reverse]
      exact consistent
    rw [Option.isSome_iff_exists] at sought
    rw [← sought]
    constructor
    · rintro ⟨⟨left, rest, final⟩, ends⟩
      exact ⟨final, (graphSeek_ends_iff version counter _ nodeMap final size).mp ⟨left, rest, ends⟩⟩
    · rintro ⟨final, found⟩
      obtain ⟨left, rest, ends⟩ :=
        (graphSeek_ends_iff version counter _ nodeMap final size).mpr found
      exact ⟨_, ends⟩
  · intro graph
    have zero : wantedArgument version = some 0 ↔ ¬ 0 < version.toNat := by
      unfold wantedArgument
      split
      · rename_i isCurrent
        rw [isCurrent]
        simp
      · simp
    rw [Ne, GraphDB.setWantedVersion_outOfBounds_iff, zero]
    tauto

/-- A range changelist with one entry and a history with two. -/
theorem versionSeeks_end_shortLists :
    (∃ final, (rangeSeek ⟨[⟨0, []⟩], by decide⟩ 1).Ends
        ((⟨[⟨0, []⟩], by decide⟩ : RepeatedField RangeChange).lastIndex, ∅) final) ∧
      ∃ final, (graphSeek 1).Ends (2, [[⟨(.node, "n"), 2⟩], [⟨(.node, "n"), 1⟩]], ∅) final := by
  have ends := versionSeeks_end_iff ⟨[⟨0, []⟩], by decide⟩ ∅
    [[⟨(.node, "n"), 1⟩], [⟨(.node, "n"), 2⟩]] 2 rfl ∅ 1
  exact ⟨ends.1.mpr (by decide), ends.2.1.mpr (by decide)⟩

/-- Asked for version 1, the loop of the backend reads an entry of an empty
changelist, and asked for version 0, the loop of a graph goes on behind the
first entry. -/
theorem versionSeeks_leave_changelist :
    (¬ ∃ final, (rangeSeek ⟨[], by decide⟩ 1).Ends
        ((⟨[], by decide⟩ : RepeatedField RangeChange).lastIndex, ∅) final) ∧
      (rangeSeek ⟨[], by decide⟩ 1).run 1
          ((⟨[], by decide⟩ : RepeatedField RangeChange).lastIndex, ∅) =
        some (.error .outOfBounds) ∧
      (graphSeek 0).run 2 (1, [[⟨(.node, "n"), 1⟩]], ∅) = some (.error .outOfBounds) := by
  refine ⟨?_, rfl, rfl⟩
  rintro ⟨final, ends⟩
  exact FaultLoop.not_ends_of_fault (by decide) rfl ends

end Rangexx
