import Rangexx.KeyedTable

/-!
# Graph instances

A graph instance is one BerkeleyDB table together with the changes its current
transaction has not committed yet.  This file translates `BerkeleyDBCXXDb` and
`BerkeleyDBCXXTxn`.  The table is a finite map from record keys to records,
the serialised records are identified with their contents, and the changelist
record, which only `add_graph_changelist` writes, is a field of its own.
-/

namespace Rangexx

open KeyedTable

/-- `GraphInterface::record_type`. -/
inductive RecordType where
  | node
  | graphMeta
  | nodeMeta
  | reserved
  | unknown
  deriving DecidableEq, Repr

/-- `key_name`: a record type and a name. -/
abbrev RecordKey :=
  RecordType × String

/-- `ChangeList.Change.Item`. -/
structure ChangeItem (Key : Type) where
  key : Key
  version : Nat
  deriving DecidableEq, Repr

/-- `ChangeList`, for a type of entries. -/
structure ChangeList (Entry : Type) where
  currentVersion : Nat
  change : List Entry
  deriving DecidableEq, Repr

/-- The object version and the data of a `change_t`. -/
structure PendingChange (Record : Type) where
  objectVersion : Nat
  data : Record
  deriving DecidableEq, Repr

structure Instance (Record : Type) where
  records : AList fun _ : RecordKey => Record
  changelist : ChangeList (List (ChangeItem RecordKey))
  pendingChanges : AList fun _ : RecordKey => PendingChange Record
  deriving DecidableEq

namespace Instance

variable {Record : Type}

/-- A table nothing was written to. -/
def empty : Instance Record where
  records := ∅
  changelist := ⟨0, []⟩
  pendingChanges := ∅

/-- `get_record`; `none` is the empty buffer of a missing record. -/
def getRecord (inst : Instance Record) (key : RecordKey) : Option Record :=
  match inst.pendingChanges.lookup key with
  | some change => some change.data
  | none => inst.records.lookup key

/-- `BerkeleyDBCXXTxn::add_change`, called by `write_record`. -/
def writeRecord (inst : Instance Record) (key : RecordKey) (objectVersion : Nat)
    (data : Record) : Instance Record :=
  { inst with pendingChanges := inst.pendingChanges.insert key ⟨objectVersion, data⟩ }

/-- `BerkeleyDBCXXTxn::flush`: the changes reach the table and stay pending. -/
def flush (inst : Instance Record) : Instance Record :=
  { inst with records := insertAll PendingChange.data inst.pendingChanges inst.records }

/-- `BerkeleyDBCXXTxn::pending`. -/
def pending (inst : Instance Record) : Nat :=
  inst.pendingChanges.entries.length

/-- `version`: one more than the committed version while changes are pending. -/
def version (inst : Instance Record) : Nat :=
  inst.changelist.currentVersion + if 0 < inst.pending then 1 else 0

/-- `BerkeleyDBCXXTxn::abort`. -/
def abort (inst : Instance Record) : Instance Record :=
  { inst with pendingChanges := ∅ }

/-- The items `commit` collects: one for each pending node record. -/
def pendingItems (inst : Instance Record) : List (ChangeItem RecordKey) :=
  inst.pendingChanges.entries.filterMap fun entry =>
    if entry.1.1 = .node then some ⟨entry.1, entry.2.objectVersion⟩ else none

/-- `BerkeleyDBCXXTxn::commit`.  The changelist grows only when a node record
is among the changes. -/
def commit (inst : Instance Record) : Instance Record :=
  if inst.pending = 0 then inst
  else
    let items := inst.pendingItems
    { records := insertAll PendingChange.data inst.pendingChanges inst.records
      changelist :=
        if items = [] then inst.changelist
        else ⟨inst.changelist.currentVersion + 1, inst.changelist.change ++ [items]⟩
      pendingChanges := ∅ }

/-- `get_change_history`. -/
def getChangeHistory (inst : Instance Record) : List (List (ChangeItem RecordKey)) :=
  inst.changelist.change

/-! ## Reading what was written -/

theorem pending_eq_zero_iff (inst : Instance Record) :
    inst.pending = 0 ↔ inst.pendingChanges = ∅ := by
  unfold pending
  rw [List.length_eq_zero_iff]
  constructor
  · intro noEntries
    exact AList.ext noEntries
  · intro nothing
    rw [nothing]
    rfl

theorem pending_writeRecord_pos (inst : Instance Record) (key : RecordKey)
    (objectVersion : Nat) (data : Record) :
    0 < (inst.writeRecord key objectVersion data).pending := by
  rw [Nat.pos_iff_ne_zero, Ne, pending_eq_zero_iff]
  intro nothing
  have found : (inst.writeRecord key objectVersion data).pendingChanges.lookup key =
      some ⟨objectVersion, data⟩ := AList.lookup_insert _
  rw [nothing] at found
  simp at found

@[simp]
theorem changelist_writeRecord (inst : Instance Record) (key : RecordKey)
    (objectVersion : Nat) (data : Record) :
    (inst.writeRecord key objectVersion data).changelist = inst.changelist :=
  rfl

@[simp]
theorem records_writeRecord (inst : Instance Record) (key : RecordKey)
    (objectVersion : Nat) (data : Record) :
    (inst.writeRecord key objectVersion data).records = inst.records :=
  rfl

@[simp]
theorem pendingChanges_flush (inst : Instance Record) :
    inst.flush.pendingChanges = inst.pendingChanges :=
  rfl

theorem version_of_pending {inst : Instance Record} (some : 0 < inst.pending) :
    inst.version = inst.changelist.currentVersion + 1 := by
  simp [version, some]

theorem version_of_not_pending {inst : Instance Record} (nothing : inst.pending = 0) :
    inst.version = inst.changelist.currentVersion := by
  simp [version, nothing]

theorem lookup_pending_writeRecord (inst : Instance Record) (key other : RecordKey)
    (objectVersion : Nat) (data : Record) :
    (inst.writeRecord key objectVersion data).pendingChanges.lookup other =
      if other = key then some ⟨objectVersion, data⟩ else inst.pendingChanges.lookup other := by
  unfold writeRecord
  by_cases same : other = key
  · subst same
    simp
  · simp [same, AList.lookup_insert_ne same]

theorem getRecord_writeRecord (inst : Instance Record) (key other : RecordKey)
    (objectVersion : Nat) (data : Record) :
    (inst.writeRecord key objectVersion data).getRecord other =
      if other = key then some data else inst.getRecord other := by
  unfold getRecord
  rw [lookup_pending_writeRecord]
  by_cases same : other = key
  · simp [same]
  · simp [same]

theorem lookup_records_flush (inst : Instance Record) (key : RecordKey) :
    inst.flush.records.lookup key = inst.getRecord key := by
  unfold flush getRecord
  rw [lookup_insertAll]
  cases inst.pendingChanges.lookup key with
  | none => rfl
  | some change => rfl

@[simp]
theorem getRecord_flush (inst : Instance Record) (key : RecordKey) :
    inst.flush.getRecord key = inst.getRecord key := by
  have stored := lookup_records_flush inst key
  unfold getRecord at stored ⊢
  rw [pendingChanges_flush]
  cases found : inst.pendingChanges.lookup key with
  | none =>
      rw [found] at stored
      exact stored
  | some change => rfl

theorem lookup_records_commit (inst : Instance Record) (key : RecordKey) :
    inst.commit.records.lookup key = inst.getRecord key := by
  unfold commit
  split
  · rename_i nothing
    rw [pending_eq_zero_iff] at nothing
    unfold getRecord
    rw [nothing]
    rfl
  · exact lookup_records_flush inst key

@[simp]
theorem pendingChanges_commit (inst : Instance Record) : inst.commit.pendingChanges = ∅ := by
  unfold commit
  split
  · rename_i nothing
    exact (pending_eq_zero_iff inst).mp nothing
  · rfl

@[simp]
theorem getRecord_commit (inst : Instance Record) (key : RecordKey) :
    inst.commit.getRecord key = inst.getRecord key := by
  rw [← lookup_records_commit inst key]
  unfold getRecord
  rw [pendingChanges_commit]
  rfl

theorem mem_pendingItems (inst : Instance Record) (item : ChangeItem RecordKey) :
    item ∈ inst.pendingItems ↔
      ∃ name change, inst.pendingChanges.lookup (.node, name) = some change ∧
        item = ⟨(.node, name), change.objectVersion⟩ := by
  unfold pendingItems
  simp only [List.mem_filterMap]
  constructor
  · rintro ⟨⟨⟨type, name⟩, change⟩, member, found⟩
    dsimp only at found
    split at found
    · rename_i isNode
      subst isNode
      refine ⟨name, change, AList.mem_lookup_iff.mpr member, ?_⟩
      simpa using found.symm
    · simp at found
  · rintro ⟨name, change, found, rfl⟩
    exact ⟨⟨(.node, name), change⟩, AList.mem_lookup_iff.mp found, by simp⟩

theorem pendingItems_eq_nil_iff (inst : Instance Record) :
    inst.pendingItems = [] ↔
      ∀ name, inst.pendingChanges.lookup (.node, name) = none := by
  constructor
  · intro noItems name
    cases found : inst.pendingChanges.lookup (.node, name) with
    | none => rfl
    | some change =>
        have member := (mem_pendingItems inst _).mpr ⟨name, change, found, rfl⟩
        rw [noItems] at member
        simp at member
  · intro none
    rw [List.eq_nil_iff_forall_not_mem]
    intro item member
    obtain ⟨name, change, found, _⟩ := (mem_pendingItems inst item).mp member
    rw [none name] at found
    simp at found

/-- Either no node record was pending and the changelist stays, or it gains
one entry. -/
theorem changelist_commit (inst : Instance Record) :
    inst.commit.changelist =
      if inst.pendingItems = [] then inst.changelist
      else ⟨inst.changelist.currentVersion + 1,
        inst.changelist.change ++ [inst.pendingItems]⟩ := by
  unfold commit
  split
  · rename_i nothing
    rw [pending_eq_zero_iff] at nothing
    have noItems : inst.pendingItems = [] := by
      unfold pendingItems
      rw [nothing]
      rfl
    rw [if_pos noItems]
  · rfl

end Instance

end Rangexx
