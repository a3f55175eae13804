import Rangexx.ChangelistRecord
import Rangexx.RecordKeys

/-!
# Tables of full keys

The table, the pending changes and the changelist of a graph instance as they
are, under the text of their keys.  The text of a key tells its type and name,
so such a table holds what the `Instance` holds whose keys are pairs, and the
history that is read back from the text is the one that was written.
-/

namespace Rangexx

open KeyedTable

/-- `change_t`. -/
structure ChangeTuple (Record : Type) where
  type : UInt8
  key : String
  objectVersion : Nat
  data : Record
  deriving DecidableEq, Repr

structure StoredInstance (Record : Type) where
  inst : AList fun _ : String => Record
  changelist : ChangeList (List (ChangeItem String))
  pendingChanges : AList fun _ : String => ChangeTuple Record
  deriving DecidableEq

/-! ## Reading a history back -/

/-- The item that `commit` puts into a changelist. -/
def storedItem (item : ChangeItem (UInt8 × String)) : ChangeItem String where
  key := keyName item.key.1 item.key.2
  version := item.version

/-- An item in the loop of `get_change_history`.  The data of the tuples it
returns are empty, and left out. -/
def readItem (item : ChangeItem String) : Option (ChangeItem (UInt8 × String)) := do
  let type := getTypeFromKeyname item.key
  let key ← substr item.key (keyPrefix type).length
  some ⟨(type, key), item.version⟩

theorem readItem_storedItem (item : ChangeItem (UInt8 × String)) :
    readItem (storedItem item) = some item := by
  simp only [readItem, storedItem, getTypeFromKeyname_keyName]
  rw [keyName, substr_append]
  rfl

theorem mapM_map_of_inverse {α β : Type} {write : α → β} {read : β → Option α}
    (inverse : ∀ a, read (write a) = some a) (list : List α) :
    (list.map write).mapM read = some list := by
  induction list with
  | nil => rfl
  | cons a rest ih =>
      rw [List.map_cons, List.mapM_cons, inverse a, ih]
      rfl

namespace StoredInstance

variable {Record : Type}

def empty : StoredInstance Record where
  inst := ∅
  changelist := ⟨0, []⟩
  pendingChanges := ∅

/-- `get_change_history`; `none` is `std::out_of_range`. -/
def getChangeHistory (stored : StoredInstance Record) :
    Option (List (List (ChangeItem (UInt8 × String)))) :=
  stored.changelist.change.mapM fun change => change.mapM readItem

theorem getChangeHistory_of_written {stored : StoredInstance Record}
    {written : List (List (ChangeItem (UInt8 × String)))}
    (changes : stored.changelist.change = written.map fun change => change.map storedItem) :
    stored.getChangeHistory = some written := by
  rw [getChangeHistory, changes]
  exact mapM_map_of_inverse (mapM_map_of_inverse readItem_storedItem) written

/-- The names of the nodes that a `BerkeleyDBCXXCursor` meets. -/
def cursorNames (stored : StoredInstance Record) : List String :=
  stored.inst.keys.filterMap fun key =>
    if getTypeFromKeyname key = RecordType.node.code then unprefix key else none

/-! ## The operations -/

/-- `get_record`. -/
def getRecord (stored : StoredInstance Record) (type : UInt8) (key : String) : Option Record :=
  match stored.pendingChanges.lookup (keyName type key) with
  | some change => some change.data
  | none => stored.inst.lookup (keyName type key)

/-- `add_change`, called by `write_record`. -/
def addChange (stored : StoredInstance Record) (change : ChangeTuple Record) :
    StoredInstance Record :=
  { stored with
    pendingChanges := stored.pendingChanges.insert (keyName change.type change.key) change }

/-- `commit_record`. -/
def commitRecord (inst : AList fun _ : String => Record) (change : ChangeTuple Record) :
    AList fun _ : String => Record :=
  inst.insert (keyName change.type change.key) change.data

/-- The loop of `flush`, which is also in `commit`. -/
def committed (stored : StoredInstance Record) : AList fun _ : String => Record :=
  stored.pendingChanges.entries.foldl (fun inst entry => commitRecord inst entry.2) stored.inst

/-- `flush`. -/
def flush (stored : StoredInstance Record) : StoredInstance Record :=
  { stored with inst := stored.committed }

/-- `abort`. -/
def abort (stored : StoredInstance Record) : StoredInstance Record :=
  { stored with pendingChanges := ∅ }

/-- The items `commit` adds. -/
def newItems (stored : StoredInstance Record) : List (ChangeItem String) :=
  stored.pendingChanges.entries.filterMap fun entry =>
    if entry.2.type = RecordType.node.code then
      some ⟨keyName entry.2.type entry.2.key, entry.2.objectVersion⟩
    else none

/-- `commit`. -/
def commit (stored : StoredInstance Record) : StoredInstance Record :=
  if stored.pendingChanges.entries.length = 0 then stored
  else
    { inst := stored.committed
      changelist :=
        if stored.newItems = [] then stored.changelist
        else ⟨stored.changelist.currentVersion + 1,
          stored.changelist.change ++ [stored.newItems]⟩
      pendingChanges := ∅ }

def step (stored : StoredInstance Record) : TableEvent Record → StoredInstance Record
  | .startTxn => stored
  | .writeRecord key objectVersion data => stored.addChange ⟨key.1.code, key.2, objectVersion, data⟩
  | .flush => stored.flush
  | .commit => stored.commit
  | .abort => stored.abort
  | .release uncaughtException => if uncaughtException then stored.abort else stored.commit

/-! ## The instance behind the table -/

def pairItem (item : ChangeItem RecordKey) : ChangeItem (UInt8 × String) :=
  ⟨(item.key.1.code, item.key.2), item.version⟩

def tupleOf (key : RecordKey) (change : PendingChange Record) : ChangeTuple Record :=
  ⟨key.1.code, key.2, change.objectVersion, change.data⟩

structure Shows (stored : StoredInstance Record) (inst : Instance Record) : Prop where
  records : Encodes RecordKey.full (fun _ data => data) stored.inst inst.records
  version : stored.changelist.currentVersion = inst.changelist.currentVersion
  change : stored.changelist.change = (inst.changelist.change.map fun change =>
    change.map pairItem).map fun change => change.map storedItem
  pending : Encodes RecordKey.full tupleOf stored.pendingChanges inst.pendingChanges

theorem shows_empty : Shows (empty : StoredInstance Record) Instance.empty where
  records := rfl
  version := rfl
  change := rfl
  pending := rfl

variable {stored : StoredInstance Record} {inst : Instance Record}

theorem Shows.getRecord (shows : Shows stored inst) (type : RecordType) (name : String) :
    stored.getRecord type.code name = inst.getRecord (type, name) := by
  have pending := shows.pending.lookup RecordKey.full_injective (type, name)
  have records := shows.records.lookup RecordKey.full_injective (type, name)
  unfold StoredInstance.getRecord Instance.getRecord
  rw [show keyName type.code name = RecordKey.full (type, name) from rfl, pending, records]
  cases inst.pendingChanges.lookup (type, name) with
  | none => simp
  | some change => rfl

theorem Shows.addChange (shows : Shows stored inst) (key : RecordKey) (objectVersion : Nat)
    (data : Record) :
    Shows (stored.addChange ⟨key.1.code, key.2, objectVersion, data⟩)
      (inst.writeRecord key objectVersion data) :=
  ⟨shows.records, shows.version, shows.change,
    shows.pending.insert RecordKey.full_injective key ⟨objectVersion, data⟩⟩

theorem Shows.committed (shows : Shows stored inst) :
    Encodes RecordKey.full (fun _ data => data) stored.committed
      (insertAll PendingChange.data inst.pendingChanges inst.records) := by
  have records := shows.records
  unfold StoredInstance.committed insertAll
  rw [shows.pending, List.foldl_map]
  -- Each pending change goes into two tables that hold the same.
  generalize stored.inst = codes at records ⊢
  generalize inst.records = table at records ⊢
  induction inst.pendingChanges.entries generalizing codes table with
  | nil => exact records
  | cons entry rest ih =>
      exact ih _ _ (records.insert RecordKey.full_injective entry.1 entry.2.data)

theorem Shows.newItems (shows : Shows stored inst) :
    stored.newItems = (inst.pendingItems.map pairItem).map storedItem := by
  unfold StoredInstance.newItems Instance.pendingItems
  rw [shows.pending, List.filterMap_map, List.map_filterMap, List.map_filterMap]
  apply List.filterMap_congr
  intro entry _
  by_cases isNode : entry.1.1 = .node
  · simp [encodeEntry, tupleOf, isNode, pairItem, storedItem]
  · have other : entry.1.1.code ≠ RecordType.node.code := fun same =>
      isNode (RecordType.code_injective same)
    simp [encodeEntry, tupleOf, isNode, other]

theorem Shows.flush (shows : Shows stored inst) : Shows stored.flush inst.flush :=
  ⟨shows.committed, shows.version, shows.change, shows.pending⟩

theorem Shows.abort (shows : Shows stored inst) : Shows stored.abort inst.abort :=
  ⟨shows.records, shows.version, shows.change, rfl⟩

theorem Shows.commit (shows : Shows stored inst) : Shows stored.commit inst.commit := by
  have lengths : stored.pendingChanges.entries.length = inst.pending := by
    rw [shows.pending, List.length_map]
    rfl
  unfold StoredInstance.commit Instance.commit
  rw [lengths]
  split
  · exact shows
  · have none : stored.newItems = [] ↔ inst.pendingItems = [] := by
      rw [shows.newItems, List.map_eq_nil_iff, List.map_eq_nil_iff]
    refine ⟨shows.committed, ?_, ?_, rfl⟩
    · dsimp only
      simp only [none]
      split
      · exact shows.version
      · rw [shows.version]
    · dsimp only
      simp only [none]
      split
      · exact shows.change
      · rw [shows.change, shows.newItems, List.map_append, List.map_append]
        rfl

theorem Shows.step (shows : Shows stored inst) (event : TableEvent Record) :
    Shows (stored.step event) (RecordTable.onInstance id inst event) := by
  cases event with
  | startTxn => exact shows
  | writeRecord key objectVersion data => exact shows.addChange key objectVersion data
  | flush => exact shows.flush
  | commit => exact shows.commit
  | abort => exact shows.abort
  | release uncaughtException =>
      cases uncaughtException with
      | false => exact shows.commit
      | true => exact shows.abort

theorem Shows.run (shows : Shows stored inst) (events : List (TableEvent Record)) :
    Shows (events.foldl StoredInstance.step stored)
      (events.foldl (RecordTable.onInstance id) inst) := by
  induction events generalizing stored inst with
  | nil => exact shows
  | cons event rest ih => exact ih (shows.step event)

theorem Shows.getChangeHistory (shows : Shows stored inst) :
    stored.getChangeHistory =
      some (inst.getChangeHistory.map fun change => change.map pairItem) :=
  getChangeHistory_of_written shows.change

/-- A cursor over the table meets the names of the node records. -/
theorem Shows.cursorNames {stored : StoredInstance NodeInfo} {inst : GraphInstance}
    (shows : Shows stored inst) : stored.cursorNames = GraphDB.cursorNames inst := by
  have keys : stored.inst.keys = inst.records.keys.map RecordKey.full := by
    change stored.inst.entries.map Sigma.fst = (inst.records.entries.map Sigma.fst).map _
    rw [shows.records, List.map_map, List.map_map]
    rfl
  unfold StoredInstance.cursorNames GraphDB.cursorNames
  rw [keys, List.filterMap_map]
  apply List.filterMap_congr
  intro key _
  rw [Function.comp_apply, RecordKey.full, getTypeFromKeyname_keyName, unprefix_keyName]
  simp only [RecordType.code_injective.eq_iff]

end StoredInstance

/-- A key tells the type and the name of its record, and so a table of keys
reads back the history of what was written. -/
theorem record_keys_decode {Record : Type} (type : UInt8) (name : String)
    (stored : StoredInstance Record) (events : List (TableEvent Record)) :
    (getTypeFromKeyname (keyName type name) = type ∧
      unprefix (keyName type name) = some name) ∧
    (∀ other otherName, (type, name) ≠ (other, otherName) →
      keyName type name ≠ keyName other otherName) ∧
    (∀ written : List (List (ChangeItem (UInt8 × String))),
      (stored.changelist.change = written.map fun change => change.map storedItem) →
      stored.getChangeHistory = some written) ∧
    (events.foldl StoredInstance.step StoredInstance.empty).getChangeHistory =
      some ((events.foldl (RecordTable.onInstance id) Instance.empty).getChangeHistory.map
        fun change => change.map StoredInstance.pairItem) := by
  refine ⟨⟨getTypeFromKeyname_keyName type name, unprefix_keyName type name⟩, ?_, ?_, ?_⟩
  · intro other otherName differ same
    exact differ (Prod.ext_iff.mpr (keyName_inj same))
  · intro written changes
    exact StoredInstance.getChangeHistory_of_written changes
  · exact (StoredInstance.shows_empty.run events).getChangeHistory

/-- Names with a separator in them, with digits, and with nothing. -/
theorem record_keys_decode_separator :
    StoredInstance.getChangeHistory
      (⟨∅, ⟨1, [[storedItem ⟨(0, "foobar\x07pad"), 5⟩, storedItem ⟨(0, ""), 1⟩],
        [storedItem ⟨(255, "07"), 2⟩]]⟩, ∅⟩ : StoredInstance Nat) =
      some [[⟨(0, "foobar\x07pad"), 5⟩, ⟨(0, ""), 1⟩], [⟨(255, "07"), 2⟩]] :=
  (record_keys_decode 0 "" _ []).2.2.1 _ rfl

end Rangexx
