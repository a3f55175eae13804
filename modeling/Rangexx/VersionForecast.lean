import Rangexx.ChangelistRecord

/-!
# The version seen inside a transaction

`version` counts one version more as soon as anything is pending, while
`commit` makes a version only when a node record is.  The two agree exactly
when the pending changes are empty or include a node record.  Only a pending
empty buffer for the changelist itself can make up for the difference.
-/

namespace Rangexx

namespace RecordTable

variable {Data : Type} [DecidableEq Data] {codec : ChangeListCodec Data}
  {table : RecordTable Data} {changes : AList fun _ : RecordKey => PendingChange Data}

/-- A record that is pending replaces the stored one, unless it is empty. -/
theorem lookup_writePending_of_pending {key : RecordKey} {change : PendingChange Data}
    (pending : changes.lookup key = some change) (records : AList fun _ : RecordKey => Data) :
    (writePending codec changes records).lookup key =
      if change.data = codec.empty then records.lookup key else some change.data := by
  obtain ⟨entries, nodup⟩ := changes
  induction entries generalizing records with
  | nil => simp [AList.lookup] at pending
  | cons entry rest ih =>
      obtain ⟨entryKey, entryChange⟩ := entry
      have restNodup := (List.nodupKeys_cons.mp nodup).2
      have unfolded : writePending codec ⟨⟨entryKey, entryChange⟩ :: rest, nodup⟩ records =
          writePending codec ⟨rest, restNodup⟩ (if entryChange.data = codec.empty then records
            else records.insert entryKey entryChange.data) :=
        rfl
      rw [unfolded]
      by_cases here : key = entryKey
      · subst here
        have same : entryChange = change := by simpa [AList.lookup] using pending
        subst same
        have absent : AList.lookup key ⟨rest, restNodup⟩ = none :=
          AList.lookup_eq_none.mpr (List.nodupKeys_cons.mp nodup).1
        rw [lookup_writePending absent]
        split
        · rfl
        · exact AList.lookup_insert _
      · have inRest : AList.lookup key ⟨rest, restNodup⟩ = some change := by
          unfold AList.lookup at pending ⊢
          rwa [List.dlookup_cons_ne _ _ here] at pending
        rw [ih _ restNodup inRest]
        split
        · split
          · rfl
          · exact AList.lookup_insert_ne here
        · rfl

/-- The pending changes hide the stored changelist under an empty buffer, and
the stored one has version 1. -/
def HidesFirst (codec : ChangeListCodec Data) (table : RecordTable Data)
    (changes : AList fun _ : RecordKey => PendingChange Data) : Prop :=
  (changes.lookup changelistKey).map PendingChange.data = some codec.empty ∧
    (table.storedChangelist codec).map ChangeList.currentVersion = some 1

/-- Without a transaction the version is the one of the stored changelist. -/
theorem version_of_nothing (nothing : table.currentTxn.getD ∅ = ∅) :
    table.version codec =
      (table.storedChangelist codec).map ChangeList.currentVersion := by
  have spared : ∀ changes, table.currentTxn = some changes →
      changes.lookup changelistKey = none := by
    intro changes isOpen
    rw [isOpen, Option.getD_some] at nothing
    rw [nothing]
    rfl
  have noPending : table.pending = 0 := by
    unfold pending
    rw [nothing]
    rfl
  unfold version
  rw [readChangelist_eq spared, noPending]
  rfl

theorem version_of_pending (isOpen : table.currentTxn = some changes) (pending : changes ≠ ∅) :
    table.version codec =
      (table.readChangelist codec).map fun changelist => changelist.currentVersion + 1 := by
  have positive : 0 < table.pending := by
    unfold RecordTable.pending
    rw [isOpen, Option.getD_some, List.length_pos_iff]
    exact fun nothing => pending (AList.ext nothing)
  unfold version
  simp only [if_pos positive]

/-- The changelist after the pending records were written. -/
theorem storedChangelist_writePending (isOpen : table.currentTxn = some changes)
    (txn : Option (AList fun _ : RecordKey => PendingChange Data)) :
    storedChangelist codec ⟨writePending codec changes table.records, txn⟩ =
      if (changes.lookup changelistKey).map PendingChange.data = some codec.empty then
        table.storedChangelist codec
      else table.readChangelist codec := by
  cases found : changes.lookup changelistKey with
  | none =>
      rw [if_neg (by simp), readChangelist_eq]
      · exact storedChangelist_congr (lookup_writePending found table.records)
      · intro other same
        rwa [isOpen, Option.some.injEq, ← same] at *
  | some change =>
      have written := @lookup_writePending_of_pending _ _ codec _ _ _ found table.records
      by_cases isEmpty : change.data = codec.empty
      · rw [if_pos isEmpty] at written
        rw [if_pos (by simp [isEmpty])]
        exact storedChangelist_congr written
      · rw [if_neg isEmpty] at written
        rw [if_neg (by simpa using isEmpty)]
        simp [storedChangelist, readChangelist, getRecord, written, isOpen, found]

/-- The version after a commit that read a changelist. -/
theorem version_committed {reader : RecordTable Data} {changelist : GraphChanges}
    (isOpen : table.currentTxn = some changes) (sameRecords : reader.records = table.records)
    (read : reader.readChangelist codec = some changelist)
    (txn : Option (AList fun _ : RecordKey => PendingChange Data)) (nothing : txn.getD ∅ = ∅) :
    version codec ⟨reader.committedRecords codec changes, txn⟩ =
      if changedNodes changes ≠ [] then some (changelist.currentVersion + 1)
      else if (changes.lookup changelistKey).map PendingChange.data = some codec.empty then
        (table.storedChangelist codec).map ChangeList.currentVersion
      else (table.readChangelist codec).map ChangeList.currentVersion := by
  rw [version_of_nothing nothing]
  unfold committedRecords
  rw [read, sameRecords]
  by_cases noNodes : changedNodes changes = []
  · simp only [noNodes, if_true, ne_eq, not_true_eq_false, if_false]
    rw [storedChangelist_writePending isOpen]
    split <;> rfl
  · simp only [noNodes, if_false, ne_eq, not_false_eq_true, if_true]
    rw [storedChangelist_add]
    rfl

/-- A pending empty buffer is read as the empty changelist. -/
theorem readChangelist_of_hidden (isOpen : table.currentTxn = some changes)
    (hidden : (changes.lookup changelistKey).map PendingChange.data = some codec.empty) :
    table.readChangelist codec = some ⟨0, []⟩ := by
  obtain ⟨change, found, isEmpty⟩ := Option.map_eq_some_iff.mp hidden
  simp [readChangelist, getRecord, isOpen, found, isEmpty]

/-- Without a pending node record the version stays behind the forecast, unless
an empty buffer hides version 1. -/
theorem forecast_missed_iff (isOpen : table.currentTxn = some changes)
    {changelist : GraphChanges} (read : table.readChangelist codec = some changelist) :
    (if (changes.lookup changelistKey).map PendingChange.data = some codec.empty then
        (table.storedChangelist codec).map ChangeList.currentVersion
      else (table.readChangelist codec).map ChangeList.currentVersion) =
        some (changelist.currentVersion + 1) ↔ HidesFirst codec table changes := by
  unfold HidesFirst
  by_cases hidden : (changes.lookup changelistKey).map PendingChange.data = some codec.empty
  · have readEmpty := readChangelist_of_hidden isOpen hidden
    obtain rfl := Option.some.inj (read.symm.trans readEmpty)
    rw [if_pos hidden]
    exact (and_iff_right hidden).symm
  · rw [if_neg hidden, read]
    simp [hidden]

theorem step_commit (isOpen : table.currentTxn = some changes) {changelist : GraphChanges}
    (read : table.readChangelist codec = some changelist) :
    table.step codec .commit = some ⟨table.committedRecords codec changes, some ∅⟩ := by
  simp [step, isOpen, read]

theorem step_release (isOpen : table.currentTxn = some changes) :
    table.step codec (.release false) =
      some ⟨committedRecords codec { table with currentTxn := none } changes, none⟩ := by
  simp [step, isOpen]

/-- A commit of no changes keeps the version. -/
theorem version_committed_nothing {reader : RecordTable Data} {changelist : GraphChanges}
    (isOpen : table.currentTxn = some ∅) (sameRecords : reader.records = table.records)
    (read : reader.readChangelist codec = some changelist)
    (txn : Option (AList fun _ : RecordKey => PendingChange Data)) (nothing : txn.getD ∅ = ∅) :
    version codec ⟨reader.committedRecords codec ∅, txn⟩ = table.version codec := by
  have spared : ∀ changes, table.currentTxn = some changes →
      changes.lookup changelistKey = none := by
    intro changes same
    obtain rfl := Option.some.inj (isOpen.symm.trans same)
    rfl
  rw [version_committed isOpen sameRecords read txn nothing, readChangelist_eq spared,
    version_of_nothing (by rw [isOpen]; rfl)]
  rfl

/-- The version read before a commit, by `commit` or by the destructor of the
transaction, is the version read after it exactly when nothing is pending or a
node record is (and the changelist, which the destructor reads from the table,
was not given another version among the pending changes), or an empty buffer
for the changelist is pending and hides version 1. -/
theorem version_kept_iff (isOpen : table.currentTxn = some changes)
    (readable : table.version codec ≠ none) :
    (∃ next, table.step codec .commit = some next ∧
      (next.version codec = table.version codec ↔
        changes = ∅ ∨ changedNodes changes ≠ [] ∨
          changedNodes changes = [] ∧ HidesFirst codec table changes)) ∧
    ∃ next, table.step codec (.release false) = some next ∧
      (next.version codec = table.version codec ↔
        changes = ∅ ∨ (changedNodes changes ≠ [] ∧
            (table.storedChangelist codec).map ChangeList.currentVersion =
              (table.readChangelist codec).map ChangeList.currentVersion) ∨
          changedNodes changes = [] ∧ HidesFirst codec table changes) := by
  obtain ⟨changelist, read⟩ : ∃ changelist, table.readChangelist codec = some changelist := by
    rw [← Option.ne_none_iff_exists']
    intro unread
    exact readable (by simp [version, unread])
  have forecast : changes ≠ ∅ → table.version codec = some (changelist.currentVersion + 1) := by
    intro something
    rw [version_of_pending isOpen something, read]
    rfl
  refine ⟨⟨_, step_commit isOpen read, ?_⟩, ⟨_, step_release isOpen, ?_⟩⟩
  · by_cases nothing : changes = ∅
    · subst nothing
      exact iff_of_true (version_committed_nothing isOpen rfl read (some ∅) rfl) (Or.inl rfl)
    rw [forecast nothing, version_committed isOpen rfl read (some ∅) rfl]
    by_cases noNodes : changedNodes changes = []
    · rw [if_neg (not_not.mpr noNodes)]
      exact (forecast_missed_iff isOpen read).trans (by simp [nothing, noNodes])
    · simp [noNodes]
  · cases stored : table.storedChangelist codec with
    | none =>
      -- The destructor swallows the exception, and the changes are lost.
      have unread : readChangelist codec { table with currentTxn := none } = none := stored
      have unwritten : committedRecords codec { table with currentTxn := none } changes =
          table.records := by
        unfold committedRecords
        rw [unread]
      have after : version codec ⟨table.records, none⟩ = none := by
        rw [version_of_nothing rfl]
        exact congrArg (Option.map ChangeList.currentVersion) stored
      have something : changes ≠ ∅ := by
        rintro rfl
        rw [version_of_nothing (by rw [isOpen]; rfl), stored] at readable
        exact readable rfl
      rw [unwritten, after]
      refine iff_of_false readable.symm ?_
      simp [something, HidesFirst, stored, read]
    | some first =>
      by_cases nothing : changes = ∅
      · subst nothing
        exact iff_of_true (@version_committed_nothing _ _ codec table
          { table with currentTxn := none } first isOpen rfl stored none rfl) (Or.inl rfl)
      rw [forecast nothing, @version_committed _ _ codec table changes { table with currentTxn := none }
        first isOpen rfl stored none rfl]
      by_cases noNodes : changedNodes changes = []
      · rw [if_neg (not_not.mpr noNodes)]
        exact (forecast_missed_iff isOpen read).trans (by simp [nothing, noNodes])
      · simp [noNodes, nothing, read]

/-- A transaction that writes a node and its metadata. -/
theorem version_kept_nodeWritten :
    ∃ table next, EventRuns.run (step bufferCodec) empty [.startTxn,
        .writeRecord (.node, "n") 1 (.other "n1"), .writeRecord (.nodeMeta, "n") 1 (.other "n1")] =
          some table ∧
      table.step bufferCodec .commit = some next ∧ table.version bufferCodec = some 1 ∧
      next.version bufferCodec = some 1 := by
  obtain ⟨table, ran, isOpen, before⟩ : ∃ table, EventRuns.run (step bufferCodec) empty [.startTxn,
        .writeRecord (.node, "n") 1 (.other "n1"), .writeRecord (.nodeMeta, "n") 1 (.other "n1")] =
          some table ∧
      table.currentTxn = some (((∅ : AList fun _ : RecordKey => PendingChange Buffer).insert
        (.node, "n") ⟨1, .other "n1"⟩).insert (.nodeMeta, "n") ⟨1, .other "n1"⟩) ∧
      table.version bufferCodec = some 1 :=
    ⟨_, rfl, rfl, rfl⟩
  obtain ⟨⟨next, taken, kept⟩, -⟩ :=
    version_kept_iff isOpen (by rw [before]; exact Option.some_ne_none 1)
  exact ⟨table, next, ran, taken, before, (kept.mpr (Or.inr (Or.inl (by decide)))).trans before⟩

/-- The writes of `add_graph_version`, with nothing after them.  The version
given to the node is one the graph does not get. -/
theorem version_lost_metadata :
    ∃ table next, EventRuns.run (step bufferCodec) empty [.startTxn,
        .writeRecord (.nodeMeta, "n") 1 (.other "n1"), .flush] = some table ∧
      table.step bufferCodec .commit = some next ∧ table.version bufferCodec = some 1 ∧
      next.version bufferCodec = some 0 :=
  ⟨_, _, rfl, rfl, rfl, rfl⟩

end RecordTable

end Rangexx
