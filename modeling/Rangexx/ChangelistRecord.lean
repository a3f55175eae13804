import Rangexx.EventRuns
import Rangexx.GraphDB

/-!
# The changelist as a record

The changelist of a graph instance is itself stored in the table, as the
`GRAPH_META` record `changelist`.  This file models the table and its
transactions at that level: a record is a buffer, the changelist is parsed from
its buffer and serialised again, and it is read through the pending changes
like every other record.  As long as nothing else writes that record, the table
behaves as an `Instance`, whose changelist is a field of its own.
-/

namespace Rangexx

open EventRuns

/-- The message `ChangeList`; the times of its entries are left out. -/
abbrev GraphChanges :=
  ChangeList (List (ChangeItem RecordKey))

/-- The serialisation of `ChangeList`.  The message has a required field, so its
buffer is never empty. -/
structure ChangeListCodec (Data : Type) where
  empty : Data
  serialize : GraphChanges → Data
  parse : Data → Option GraphChanges
  parse_serialize : ∀ changes, parse (serialize changes) = some changes
  serialize_ne_empty : ∀ changes, serialize changes ≠ empty

/-- A table and the pending changes of its transaction, if one is open. -/
structure RecordTable (Data : Type) where
  records : AList fun _ : RecordKey => Data
  currentTxn : Option (AList fun _ : RecordKey => PendingChange Data)
  deriving DecidableEq

/-- What happens to a table.  A transaction that is started while one is open
is the same object, which goes out of existence with its last holder
(`release`).  `write_record` outside a transaction is `startTxn`, `writeRecord`
and `release`. -/
inductive TableEvent (Data : Type) where
  | startTxn
  | writeRecord (key : RecordKey) (objectVersion : Nat) (data : Data)
  | flush
  | commit
  | abort
  | release (uncaughtException : Bool)
  deriving DecidableEq, Repr

def changelistKey : RecordKey :=
  (.graphMeta, "changelist")

namespace RecordTable

variable {Data : Type} [DecidableEq Data] (codec : ChangeListCodec Data)

def empty : RecordTable Data where
  records := ∅
  currentTxn := none

/-- `get_record`; a missing record is the empty buffer. -/
def getRecord (table : RecordTable Data) (key : RecordKey) : Data :=
  match table.currentTxn.bind fun pending => pending.lookup key with
  | some change => change.data
  | none => (table.records.lookup key).getD codec.empty

/-- `read_changelist`; `none` is the exception for a buffer that is no
changelist. -/
def readChangelist (table : RecordTable Data) : Option GraphChanges :=
  if table.getRecord codec changelistKey = codec.empty then some ⟨0, []⟩
  else codec.parse (table.getRecord codec changelistKey)

/-- `pending`. -/
def pending (table : RecordTable Data) : Nat :=
  (table.currentTxn.getD ∅).entries.length

/-- `version`. -/
def version (table : RecordTable Data) : Option Nat :=
  (table.readChangelist codec).map fun changes =>
    changes.currentVersion + if 0 < table.pending then 1 else 0

/-- `get_change_history`. -/
def getChangeHistory (table : RecordTable Data) :
    Option (List (List (ChangeItem RecordKey))) :=
  (table.readChangelist codec).map ChangeList.change

/-- The changelist that is in the table, whatever is pending. -/
def storedChangelist (table : RecordTable Data) : Option GraphChanges :=
  readChangelist codec { table with currentTxn := none }

/-- The loop of `flush`, which is also in `commit`. -/
def writePending (changes : AList fun _ : RecordKey => PendingChange Data)
    (records : AList fun _ : RecordKey => Data) : AList fun _ : RecordKey => Data :=
  changes.entries.foldl (fun records entry =>
    if entry.2.data = codec.empty then records else records.insert entry.1 entry.2.data) records

/-- The items of a changelist entry: one for each pending node record. -/
def changedNodes (changes : AList fun _ : RecordKey => PendingChange Data) :
    List (ChangeItem RecordKey) :=
  changes.entries.filterMap fun entry =>
    if entry.1.1 = .node then some ⟨entry.1, entry.2.objectVersion⟩ else none

/-- `add_graph_changelist`. -/
def addGraphChangelist (changes : GraphChanges) (items : List (ChangeItem RecordKey))
    (records : AList fun _ : RecordKey => Data) : AList fun _ : RecordKey => Data :=
  records.insert changelistKey
    (codec.serialize ⟨changes.currentVersion + 1, changes.change ++ [items]⟩)

/-- The records after `commit` of some changes.  An exception of
`read_changelist` comes before anything is written. -/
def committedRecords (table : RecordTable Data)
    (changes : AList fun _ : RecordKey => PendingChange Data) :
    AList fun _ : RecordKey => Data :=
  match table.readChangelist codec with
  | none => table.records
  | some changelist =>
      if changedNodes changes = [] then writePending codec changes table.records
      else addGraphChangelist codec changelist (changedNodes changes)
        (writePending codec changes table.records)

/-- One event; `none` when there is no transaction for it.  While the
destructor commits, the instance knows the transaction no more, so it reads the
changelist from the table; `commit` called on an open transaction reads it
through the pending changes, and an exception leaves these pending. -/
def step (table : RecordTable Data) (event : TableEvent Data) : Option (RecordTable Data) :=
  match event, table.currentTxn with
  | .startTxn, none => some { table with currentTxn := some ∅ }
  | .startTxn, some _ => some table
  | _, none => none
  | .writeRecord key objectVersion data, some changes =>
      some { table with currentTxn := some (changes.insert key ⟨objectVersion, data⟩) }
  | .flush, some changes =>
      some { table with records := writePending codec changes table.records }
  | .commit, some changes =>
      some {
        records := table.committedRecords codec changes
        currentTxn := if table.readChangelist codec = none then some changes else some ∅ }
  | .abort, some _ => some { table with currentTxn := some ∅ }
  | .release uncaughtException, some changes =>
      some {
        records :=
          if uncaughtException then table.records
          else committedRecords codec { table with currentTxn := none } changes
        currentTxn := none }

end RecordTable

namespace TableEvent

variable {Data : Type}

/-- The event leaves the record of the changelist to `commit`. -/
def Avoids : TableEvent Data → Prop
  | writeRecord key _ _ => key ≠ changelistKey
  | _ => True

instance (event : TableEvent Data) : Decidable event.Avoids := by
  unfold Avoids
  split
  · exact inferInstanceAs (Decidable (_ ≠ _))
  · exact inferInstanceAs (Decidable True)

/-- The event commits the pending changes. -/
def Commits : TableEvent Data → Prop
  | commit => True
  | release uncaughtException => uncaughtException = false
  | _ => False

/-- The object versions of the last writes of the node records in the
transaction. -/
def noteWrite (writes : String → Option Nat) : TableEvent Data → String → Option Nat
  | writeRecord (.node, name) objectVersion _ => Function.update writes name (some objectVersion)
  | writeRecord _ _ _ => writes
  | startTxn => writes
  | flush => writes
  | commit => fun _ => none
  | abort => fun _ => none
  | release _ => fun _ => none

end TableEvent

/-- The last writes of node records in the transaction that a run ends in. -/
def nodeWrites {Data : Type} (events : List (TableEvent Data)) : String → Option Nat :=
  events.foldl TableEvent.noteWrite fun _ => none

theorem nodeWrites_concat {Data : Type} (past : List (TableEvent Data)) (event : TableEvent Data) :
    nodeWrites (past ++ [event]) = event.noteWrite (nodeWrites past) := by
  simp [nodeWrites]

namespace RecordTable

variable {Data : Type}

/-! ## The parts of a commit -/

theorem mem_changedNodes (changes : AList fun _ : RecordKey => PendingChange Data)
    (item : ChangeItem RecordKey) :
    item ∈ changedNodes changes ↔ ∃ name change, changes.lookup (.node, name) = some change ∧
      item = ⟨(.node, name), change.objectVersion⟩ :=
  Instance.mem_pendingItems ⟨∅, ⟨0, []⟩, changes⟩ item

theorem changedNodes_eq_nil_iff (changes : AList fun _ : RecordKey => PendingChange Data) :
    changedNodes changes = [] ↔ ∀ name, changes.lookup (.node, name) = none :=
  Instance.pendingItems_eq_nil_iff ⟨∅, ⟨0, []⟩, changes⟩

theorem nodup_changedNodes (changes : AList fun _ : RecordKey => PendingChange Data) :
    ((changedNodes changes).map ChangeItem.key).Nodup := by
  have keys : (changedNodes changes).map ChangeItem.key =
      changes.keys.filter fun key => key.1 = .node := by
    unfold changedNodes AList.keys List.keys
    generalize changes.entries = entries
    induction entries with
    | nil => rfl
    | cons entry rest ih =>
        by_cases isNode : entry.1.1 = .node
        · simp [isNode, ih]
        · simp [isNode, ih]
  rw [keys]
  exact changes.keys_nodup.filter _

/-- How an event changes the stored changelist, given the node records written
in the transaction. -/
structure Grown (writes : String → Option Nat) (event : TableEvent Data)
    (before after : GraphChanges) : Prop where
  added : event.Commits → (∃ name, writes name ≠ none) → ∃ items,
    after = ⟨before.currentVersion + 1, before.change ++ [items]⟩ ∧
    (items.map ChangeItem.key).Nodup ∧
    ∀ item, item ∈ items ↔
      ∃ name version, writes name = some version ∧ item = ⟨(.node, name), version⟩
  kept : ¬ (event.Commits ∧ ∃ name, writes name ≠ none) → after = before

/-- An event that does not commit keeps the changelist. -/
theorem Grown.of_not_commits {writes : String → Option Nat} (event : TableEvent Data)
    (notCommits : ¬ event.Commits) (changes : GraphChanges) :
    Grown writes event changes changes where
  added := fun commits => absurd commits notCommits
  kept := fun _ => rfl

theorem Grown.counted {writes : String → Option Nat} {event : TableEvent Data}
    {before after : GraphChanges} (grown : Grown writes event before after)
    (counted : before.change.length = before.currentVersion) :
    after.change.length = after.currentVersion := by
  by_cases commits : event.Commits ∧ ∃ name, writes name ≠ none
  · obtain ⟨items, rfl, -⟩ := grown.added commits.1 commits.2
    simp [counted]
  · rw [grown.kept commits]
    exact counted

theorem noted_insert {changes : AList fun _ : RecordKey => PendingChange Data}
    {writes : String → Option Nat}
    (noted : ∀ name, (changes.lookup (.node, name)).map PendingChange.objectVersion =
      writes name) (key : RecordKey) (objectVersion : Nat) (data : Data) (name : String) :
    ((changes.insert key ⟨objectVersion, data⟩).lookup (.node, name)).map
        PendingChange.objectVersion =
      (TableEvent.writeRecord key objectVersion data).noteWrite writes name := by
  obtain ⟨type, written⟩ := key
  by_cases same : (RecordType.node, name) = (type, written)
  · obtain ⟨rfl, rfl⟩ := Prod.mk.inj same
    simp [TableEvent.noteWrite]
  · rw [AList.lookup_insert_ne same, noted]
    cases type with
    | node =>
        have differs : name ≠ written := fun sameName => same (by rw [sameName])
        simp [TableEvent.noteWrite, differs]
    | _ => rfl

theorem lookup_decoded {Record : Type} {decode : Data → Record}
    {changes : AList fun _ : RecordKey => PendingChange Data}
    {decoded : AList fun _ : RecordKey => PendingChange Record}
    (same : decoded.entries = changes.entries.map fun entry =>
      ⟨entry.1, ⟨entry.2.objectVersion, decode entry.2.data⟩⟩) (key : RecordKey) :
    decoded.lookup key = (changes.lookup key).map fun change =>
      ⟨change.objectVersion, decode change.data⟩ := by
  unfold AList.lookup
  rw [same]
  generalize changes.entries = entries
  induction entries with
  | nil => rfl
  | cons entry rest ih =>
      obtain ⟨entryKey, change⟩ := entry
      by_cases here : entryKey = key
      · subst here
        simp
      · rw [List.map_cons, List.dlookup_cons_ne _ _ (Ne.symm here),
          List.dlookup_cons_ne _ _ (Ne.symm here), ih]

theorem entries_insert_decoded {Record : Type} {decode : Data → Record}
    {changes : AList fun _ : RecordKey => PendingChange Data}
    {decoded : AList fun _ : RecordKey => PendingChange Record}
    (same : decoded.entries = changes.entries.map fun entry =>
      ⟨entry.1, ⟨entry.2.objectVersion, decode entry.2.data⟩⟩) (key : RecordKey)
    (objectVersion : Nat) (data : Data) :
    (decoded.insert key ⟨objectVersion, decode data⟩).entries =
      (changes.insert key ⟨objectVersion, data⟩).entries.map fun entry =>
        ⟨entry.1, ⟨entry.2.objectVersion, decode entry.2.data⟩⟩ := by
  rw [AList.entries_insert, AList.entries_insert, List.map_cons, same]
  congr 1
  generalize changes.entries = entries
  induction entries with
  | nil => rfl
  | cons entry rest ih =>
      obtain ⟨entryKey, change⟩ := entry
      by_cases here : key = entryKey
      · subst here
        simp
      · rw [List.map_cons, List.kerase_cons_ne here, List.kerase_cons_ne here, List.map_cons, ih]

variable [DecidableEq Data] {codec : ChangeListCodec Data}

theorem lookup_writePending {changes : AList fun _ : RecordKey => PendingChange Data}
    {key : RecordKey} (absent : changes.lookup key = none)
    (records : AList fun _ : RecordKey => Data) :
    (writePending codec changes records).lookup key = records.lookup key := by
  have noEntry : key ∉ changes.entries.map Sigma.fst := AList.lookup_eq_none.mp absent
  unfold writePending
  generalize changes.entries = entries at noEntry ⊢
  induction entries generalizing records with
  | nil => rfl
  | cons entry rest ih =>
      simp only [List.map_cons, List.mem_cons, not_or] at noEntry
      rw [List.foldl_cons, ih _ noEntry.2]
      split
      · rfl
      · rw [AList.lookup_insert_ne noEntry.1]

/-- Only the record of the changelist matters for it. -/
theorem storedChangelist_congr {table other : RecordTable Data}
    (same : other.records.lookup changelistKey = table.records.lookup changelistKey) :
    other.storedChangelist codec = table.storedChangelist codec := by
  have sameBuffer : getRecord codec { other with currentTxn := none } changelistKey =
      getRecord codec { table with currentTxn := none } changelistKey := by
    simp [getRecord, same]
  simp only [storedChangelist, readChangelist, sameBuffer]

/-- Nothing pending hides the stored changelist. -/
theorem readChangelist_eq {table : RecordTable Data}
    (spared : ∀ changes, table.currentTxn = some changes →
      changes.lookup changelistKey = none) :
    table.readChangelist codec = table.storedChangelist codec := by
  have hidden : (table.currentTxn.bind fun pending => pending.lookup changelistKey) = none := by
    cases isOpen : table.currentTxn with
    | none => rfl
    | some changes => exact spared changes isOpen
  have sameBuffer : table.getRecord codec changelistKey =
      getRecord codec { table with currentTxn := none } changelistKey := by
    simp [getRecord, hidden]
  simp only [storedChangelist, readChangelist, sameBuffer]

theorem storedChangelist_add (changes : GraphChanges) (items : List (ChangeItem RecordKey))
    (records : AList fun _ : RecordKey => Data)
    (txn : Option (AList fun _ : RecordKey => PendingChange Data)) :
    storedChangelist codec ⟨addGraphChangelist codec changes items records, txn⟩ =
      some ⟨changes.currentVersion + 1, changes.change ++ [items]⟩ := by
  simp [storedChangelist, readChangelist, getRecord, addGraphChangelist,
    codec.serialize_ne_empty, codec.parse_serialize]

/-- A commit of changes that leave the changelist alone. -/
theorem storedChangelist_committed {table : RecordTable Data} {changelist : GraphChanges}
    {changes : AList fun _ : RecordKey => PendingChange Data}
    (read : table.readChangelist codec = some changelist)
    (same : table.storedChangelist codec = some changelist)
    (spared : changes.lookup changelistKey = none)
    (txn : Option (AList fun _ : RecordKey => PendingChange Data)) :
    storedChangelist codec ⟨table.committedRecords codec changes, txn⟩ =
      if changedNodes changes = [] then some changelist
      else some ⟨changelist.currentVersion + 1,
        changelist.change ++ [changedNodes changes]⟩ := by
  unfold committedRecords
  rw [read]
  dsimp only
  split
  · rw [← same]
    exact storedChangelist_congr (lookup_writePending spared table.records)
  · exact storedChangelist_add _ _ _ _

/-! ## Runs -/

/-- What holds of a table after the events `past`. -/
structure Guarded (codec : ChangeListCodec Data) (past : List (TableEvent Data))
    (table : RecordTable Data) : Prop where
  counted : ∃ changes, table.storedChangelist codec = some changes ∧
    changes.change.length = changes.currentVersion
  spared : ∀ changes, table.currentTxn = some changes → changes.lookup changelistKey = none
  noted : ∀ name, ((table.currentTxn.getD ∅).lookup (.node, name)).map
    PendingChange.objectVersion = nodeWrites past name

theorem empty_guarded : Guarded codec [] (empty : RecordTable Data) where
  counted := ⟨⟨0, []⟩, by simp [storedChangelist, readChangelist, getRecord, empty], rfl⟩
  spared := by simp [empty]
  noted := by simp [empty, nodeWrites]

theorem committed_grown {table : RecordTable Data} {changelist : GraphChanges}
    {changes : AList fun _ : RecordKey => PendingChange Data} (event : TableEvent Data)
    {writes : String → Option Nat} (read : table.readChangelist codec = some changelist)
    (same : table.storedChangelist codec = some changelist)
    (spared : changes.lookup changelistKey = none)
    (noted : ∀ name, (changes.lookup (.node, name)).map PendingChange.objectVersion =
      writes name) (commits : event.Commits)
    (txn : Option (AList fun _ : RecordKey => PendingChange Data)) :
    ∃ after, storedChangelist codec ⟨table.committedRecords codec changes, txn⟩ = some after ∧
      Grown writes event changelist after := by
  rw [storedChangelist_committed read same spared]
  have unwritten : changedNodes changes = [] ↔ ¬ ∃ name, writes name ≠ none := by
    rw [changedNodes_eq_nil_iff]
    simp [← noted]
  split
  · rename_i nothing
    exact ⟨changelist, rfl, fun _ some => absurd some (unwritten.mp nothing), fun _ => rfl⟩
  · rename_i something
    refine ⟨_, rfl, fun _ _ => ⟨_, rfl, nodup_changedNodes changes, fun item => ?_⟩, ?_⟩
    · rw [mem_changedNodes]
      constructor
      · rintro ⟨name, change, found, rfl⟩
        exact ⟨name, change.objectVersion, by rw [← noted, found]; rfl, rfl⟩
      · rintro ⟨name, version, written, rfl⟩
        rw [← noted] at written
        obtain ⟨change, found, rfl⟩ := Option.map_eq_some_iff.mp written
        exact ⟨name, change, found, rfl⟩
    · intro kept
      exact absurd ⟨commits, not_not.mp (mt unwritten.mpr something)⟩ kept

/-- One event keeps the guard and grows the changelist as it should. -/
theorem Guarded.step {past : List (TableEvent Data)} {table next : RecordTable Data}
    {event : TableEvent Data} {changes : GraphChanges} (guarded : Guarded codec past table)
    (stored : table.storedChangelist codec = some changes) (avoids : event.Avoids)
    (taken : table.step codec event = some next) :
    (∃ after, next.storedChangelist codec = some after ∧
        Grown (nodeWrites past) event changes after) ∧
      (∀ pending, next.currentTxn = some pending → pending.lookup changelistKey = none) ∧
      ∀ name, ((next.currentTxn.getD ∅).lookup (.node, name)).map
        PendingChange.objectVersion = nodeWrites (past ++ [event]) name := by
  have noted := guarded.noted
  rw [nodeWrites_concat]
  cases isOpen : table.currentTxn with
  | none =>
      rw [isOpen] at noted
      cases event <;> simp only [RecordTable.step, isOpen, reduceCtorEq] at taken
      obtain rfl := Option.some.inj taken
      exact ⟨⟨changes, stored, Grown.of_not_commits _ id changes⟩, by simp, noted⟩
  | some pending =>
      have spared := guarded.spared pending isOpen
      have read : table.readChangelist codec = some changes :=
        (readChangelist_eq guarded.spared).trans stored
      rw [isOpen] at noted
      cases event with
      | startTxn =>
          simp only [RecordTable.step, isOpen, Option.some.injEq] at taken
          subst taken
          rw [isOpen]
          exact ⟨⟨changes, stored, Grown.of_not_commits _ id changes⟩,
            fun same found => by rwa [Option.some.inj found] at spared, noted⟩
      | writeRecord key objectVersion data =>
          simp only [RecordTable.step, isOpen, Option.some.injEq] at taken
          subst taken
          refine ⟨⟨changes, stored, Grown.of_not_commits _ id changes⟩, ?_, ?_⟩
          · intro inserted same
            obtain rfl := Option.some.inj same
            rw [AList.lookup_insert_ne (Ne.symm avoids)]
            exact spared
          · exact noted_insert noted key objectVersion data
      | flush =>
          simp only [RecordTable.step, isOpen, Option.some.injEq] at taken
          subst taken
          refine ⟨⟨changes, ?_, Grown.of_not_commits _ id changes⟩, ?_, noted⟩
          · rw [← stored]
            exact storedChangelist_congr (lookup_writePending spared table.records)
          · rintro _ ⟨⟩
            exact spared
      | commit =>
          simp only [RecordTable.step, isOpen, read, reduceCtorEq, if_false,
            Option.some.injEq] at taken
          subst taken
          refine ⟨committed_grown .commit read stored spared noted trivial _, ?_, ?_⟩
          · rintro _ ⟨⟩
            rfl
          · intro name
            rfl
      | abort =>
          simp only [RecordTable.step, isOpen, Option.some.injEq] at taken
          subst taken
          refine ⟨⟨changes, stored, Grown.of_not_commits _ id changes⟩, ?_, fun _ => rfl⟩
          rintro _ ⟨⟩
          rfl
      | release uncaughtException =>
          simp only [RecordTable.step, isOpen, Option.some.injEq] at taken
          subst taken
          refine ⟨?_, by simp, fun _ => rfl⟩
          cases uncaughtException with
          | true => exact ⟨changes, stored, Grown.of_not_commits _ (by simp [TableEvent.Commits]) changes⟩
          | false => exact committed_grown (.release false) stored stored spared noted rfl none

theorem Guarded.preserved {past : List (TableEvent Data)} {table next : RecordTable Data}
    {event : TableEvent Data} (guarded : Guarded codec past table) (avoids : event.Avoids)
    (taken : table.step codec event = some next) : Guarded codec (past ++ [event]) next := by
  obtain ⟨changes, stored, counted⟩ := guarded.counted
  obtain ⟨⟨after, storedNext, grown⟩, spared, noted⟩ := guarded.step stored avoids taken
  exact ⟨⟨after, storedNext, grown.counted counted⟩, spared, noted⟩

theorem guarded_run {events : List (TableEvent Data)} {table : RecordTable Data}
    (ran : run (step codec) empty events = some table)
    (avoids : ∀ event ∈ events, event.Avoids) : Guarded codec events table :=
  invariant_history (Guarded codec)
    (fun _ _ _ _ guarded isAvoided taken => guarded.preserved isAvoided taken) empty_guarded
    (along_of_forall avoids (empty : RecordTable Data)) ran

/-! ## The instance behind the table -/

variable {Record : Type}

/-- An instance shows what a table holds.  `decode` reads a record from its
buffer. -/
structure Represents (codec : ChangeListCodec Data) (decode : Data → Record)
    (table : RecordTable Data) (inst : Instance Record) : Prop where
  changelist : table.storedChangelist codec = some inst.changelist
  records : ∀ key, key ≠ changelistKey →
    inst.records.lookup key = (table.records.lookup key).map decode
  pending : inst.pendingChanges.entries = (table.currentTxn.getD ∅).entries.map fun entry =>
    ⟨entry.1, ⟨entry.2.objectVersion, decode entry.2.data⟩⟩

/-- What the event does to an instance. -/
def onInstance (decode : Data → Record) (inst : Instance Record) :
    TableEvent Data → Instance Record
  | .startTxn => inst
  | .writeRecord key objectVersion data => inst.writeRecord key objectVersion (decode data)
  | .flush => inst.flush
  | .commit => inst.commit
  | .abort => inst.abort
  | .release uncaughtException => if uncaughtException then inst.abort else inst.commit

/-- The event writes no empty buffer. -/
def Filled (codec : ChangeListCodec Data) : TableEvent Data → Prop
  | .writeRecord _ _ data => data ≠ codec.empty
  | _ => True

theorem writePending_eq {changes : AList fun _ : RecordKey => PendingChange Data}
    (filled : ∀ entry ∈ changes.entries, entry.2.data ≠ codec.empty)
    (records : AList fun _ : RecordKey => Data) :
    writePending codec changes records =
      KeyedTable.insertAll PendingChange.data changes records := by
  unfold writePending KeyedTable.insertAll
  generalize changes.entries = entries at filled ⊢
  induction entries generalizing records with
  | nil => rfl
  | cons entry rest ih =>
      rw [List.foldl_cons, List.foldl_cons, if_neg (filled entry List.mem_cons_self)]
      exact ih _ fun other member => filled other (List.mem_cons_of_mem entry member)

/-- The records of the instance and those of the table agree after the pending
changes are written. -/
theorem Represents.written {decode : Data → Record} {table : RecordTable Data}
    {inst : Instance Record} {changes : AList fun _ : RecordKey => PendingChange Data}
    (represents : Represents codec decode table inst) (isOpen : table.currentTxn = some changes)
    (filled : ∀ entry ∈ changes.entries, entry.2.data ≠ codec.empty) {key : RecordKey}
    (differs : key ≠ changelistKey) :
    inst.getRecord key = ((writePending codec changes table.records).lookup key).map decode := by
  have same := represents.pending
  rw [isOpen, Option.getD_some] at same
  rw [writePending_eq filled, KeyedTable.lookup_insertAll]
  unfold Instance.getRecord
  rw [lookup_decoded same, represents.records key differs]
  cases changes.lookup key with
  | none => rfl
  | some change => rfl

theorem Represents.changedNodes {decode : Data → Record} {table : RecordTable Data}
    {inst : Instance Record} {changes : AList fun _ : RecordKey => PendingChange Data}
    (represents : Represents codec decode table inst)
    (isOpen : table.currentTxn = some changes) :
    inst.pendingItems = RecordTable.changedNodes changes := by
  have same := represents.pending
  rw [isOpen] at same
  unfold Instance.pendingItems RecordTable.changedNodes
  rw [same, Option.getD_some, List.filterMap_map]
  rfl

theorem Represents.committed {decode : Data → Record} {table : RecordTable Data}
    {inst : Instance Record} {changes : AList fun _ : RecordKey => PendingChange Data}
    (represents : Represents codec decode table inst) (isOpen : table.currentTxn = some changes)
    (filled : ∀ entry ∈ changes.entries, entry.2.data ≠ codec.empty)
    (spared : changes.lookup changelistKey = none) {reading : RecordTable Data}
    (sameRecords : reading.records = table.records)
    (read : reading.readChangelist codec = some inst.changelist)
    {txn : Option (AList fun _ : RecordKey => PendingChange Data)}
    (nothing : (txn.getD ∅).entries = []) :
    Represents codec decode ⟨reading.committedRecords codec changes, txn⟩ inst.commit where
  changelist := by
    have same : reading.storedChangelist codec = some inst.changelist := by
      rw [← represents.changelist]
      exact storedChangelist_congr (by rw [sameRecords])
    rw [storedChangelist_committed read same spared, Instance.changelist_commit,
      represents.changedNodes isOpen]
    split <;> rfl
  records := by
    intro key differs
    have kept : (reading.committedRecords codec changes).lookup key =
        (writePending codec changes table.records).lookup key := by
      unfold committedRecords addGraphChangelist
      rw [read, sameRecords]
      dsimp only
      split
      · rfl
      · rw [AList.lookup_insert_ne differs]
    rw [Instance.lookup_records_commit, represents.written isOpen filled differs, kept]
  pending := by
    rw [Instance.pendingChanges_commit, nothing]
    rfl

theorem Represents.step {decode : Data → Record} {past : List (TableEvent Data)}
    {table next : RecordTable Data} {inst : Instance Record} {event : TableEvent Data}
    (represents : Represents codec decode table inst) (guarded : Guarded codec past table)
    (filled : ∀ entry ∈ (table.currentTxn.getD ∅).entries, entry.2.data ≠ codec.empty)
    (taken : table.step codec event = some next) :
    Represents codec decode next (onInstance decode inst event) := by
  cases isOpen : table.currentTxn with
  | none =>
      have same := represents.pending
      rw [isOpen] at same
      cases event <;> simp only [RecordTable.step, isOpen, reduceCtorEq] at taken
      obtain rfl := Option.some.inj taken
      exact ⟨represents.changelist, represents.records, same⟩
  | some changes =>
      have same := represents.pending
      rw [isOpen, Option.getD_some] at same filled
      have spared := guarded.spared changes isOpen
      have read : table.readChangelist codec = some inst.changelist :=
        (readChangelist_eq guarded.spared).trans represents.changelist
      cases event with
      | startTxn =>
          simp only [RecordTable.step, isOpen, Option.some.injEq] at taken
          subst taken
          exact represents
      | writeRecord key objectVersion data =>
          simp only [RecordTable.step, isOpen, Option.some.injEq] at taken
          subst taken
          exact ⟨represents.changelist, represents.records,
            entries_insert_decoded same key objectVersion data⟩
      | flush =>
          simp only [RecordTable.step, isOpen, Option.some.injEq] at taken
          subst taken
          refine ⟨?_, ?_, same⟩
          · refine Eq.trans ?_ represents.changelist
            exact storedChangelist_congr (lookup_writePending spared table.records)
          · intro key differs
            rw [← represents.written isOpen filled differs]
            exact Instance.lookup_records_flush inst key
      | commit =>
          simp only [RecordTable.step, isOpen, read, reduceCtorEq, if_false,
            Option.some.injEq] at taken
          subst taken
          exact represents.committed isOpen filled spared rfl read rfl
      | abort =>
          simp only [RecordTable.step, isOpen, Option.some.injEq] at taken
          subst taken
          exact ⟨represents.changelist, represents.records, rfl⟩
      | release uncaughtException =>
          simp only [RecordTable.step, isOpen, Option.some.injEq] at taken
          subst taken
          cases uncaughtException with
          | true => exact ⟨represents.changelist, represents.records, rfl⟩
          | false =>
              exact represents.committed isOpen filled spared
                (show ({ table with currentTxn := none } : RecordTable Data).records =
                  table.records from rfl) represents.changelist rfl

/-- The buffers that are pending stay filled. -/
theorem filled_step {table next : RecordTable Data} {event : TableEvent Data}
    (filled : ∀ entry ∈ (table.currentTxn.getD ∅).entries, entry.2.data ≠ codec.empty)
    (isFilled : Filled codec event) (taken : table.step codec event = some next) :
    ∀ entry ∈ (next.currentTxn.getD ∅).entries, entry.2.data ≠ codec.empty := by
  cases isOpen : table.currentTxn with
  | none =>
      cases event <;> simp only [RecordTable.step, isOpen, reduceCtorEq] at taken
      obtain rfl := Option.some.inj taken
      simp
  | some changes =>
      have unchanged := filled
      rw [isOpen, Option.getD_some] at filled
      cases event with
      | startTxn =>
          simp only [RecordTable.step, isOpen, Option.some.injEq] at taken
          subst taken
          exact unchanged
      | writeRecord key objectVersion data =>
          simp only [RecordTable.step, isOpen, Option.some.injEq] at taken
          subst taken
          intro entry member
          rw [Option.getD_some, AList.entries_insert, List.mem_cons] at member
          rcases member with rfl | old
          · exact isFilled
          · exact filled entry ((List.kerase_sublist key changes.entries).subset old)
      | flush =>
          simp only [RecordTable.step, isOpen, Option.some.injEq] at taken
          subst taken
          exact filled
      | commit =>
          simp only [RecordTable.step, isOpen, Option.some.injEq] at taken
          subst taken
          split
          · exact filled
          · simp
      | abort =>
          simp only [RecordTable.step, isOpen, Option.some.injEq] at taken
          subst taken
          simp
      | release uncaughtException =>
          simp only [RecordTable.step, isOpen, Option.some.injEq] at taken
          subst taken
          simp

/-- A run of the table is a run of the instance. -/
theorem represents_run (decode : Data → Record) {events : List (TableEvent Data)}
    {table : RecordTable Data} (ran : run (step codec) empty events = some table)
    (avoids : ∀ event ∈ events, event.Avoids) (filled : ∀ event ∈ events, Filled codec event) :
    Represents codec decode table (events.foldl (onInstance decode) Instance.empty) := by
  have start : Represents codec decode empty Instance.empty :=
    ⟨by simp [storedChangelist, readChangelist, getRecord, empty, Instance.empty], by
      intro key _
      rfl, rfl⟩
  have both : ∀ event ∈ events, event.Avoids ∧ Filled codec event := fun event member =>
    ⟨avoids event member, filled event member⟩
  refine (invariant_history (fun past table => Guarded codec past table ∧
      (∀ entry ∈ (table.currentTxn.getD ∅).entries, entry.2.data ≠ codec.empty) ∧
      Represents codec decode table (past.foldl (onInstance decode) Instance.empty)) ?_
    ⟨empty_guarded, by simp [empty], start⟩
    (along_of_forall both (empty : RecordTable Data)) ran).2.2
  rintro past state event next ⟨guarded, isFilled, represents⟩ ⟨isAvoided, fills⟩ taken
  refine ⟨guarded.preserved isAvoided taken, filled_step isFilled fills taken, ?_⟩
  rw [List.foldl_append]
  exact represents.step guarded isFilled taken

end RecordTable

/-! ## The count of the entries -/

/-- A graph whose changelist has as many entries as it says is not found
inconsistent. -/
theorem GraphDB.setWantedVersion_consistent {graph : GraphDB}
    (counted : graph.inst.changelist.change.length = graph.inst.changelist.currentVersion)
    (nothing : graph.inst.pending = 0) (wanted : Option Nat) (found expected : Nat) :
    (graph.setWantedVersion wanted).1 ≠ .error (.databaseVersioning found expected) := by
  have same : graph.inst.getChangeHistory.length = graph.version := by
    rw [GraphDB.version, Instance.version_of_not_pending nothing, ← counted]
    rfl
  unfold GraphDB.setWantedVersion
  split
  · simp
  · split
    · simp
    · split
      · dsimp only
        rw [if_neg (not_not.mpr same)]
        split <;> simp
      · simp

namespace RecordTable

section Counts

variable {Data : Type} [DecidableEq Data] {codec : ChangeListCodec Data}

end Counts

/-- The buffers of a small example: empty, a serialised changelist, or some
other record. -/
inductive Buffer where
  | empty
  | changelist (changes : GraphChanges)
  | other (text : String)
  deriving DecidableEq, Repr

def bufferCodec : ChangeListCodec Buffer where
  empty := .empty
  serialize := .changelist
  parse
    | .changelist changes => some changes
    | _ => none
  parse_serialize := fun _ => rfl
  serialize_ne_empty := by simp

/-- One transaction writes two nodes, one of them twice with a flush between,
and a second one only writes metadata. -/
def twoTransactions : List (TableEvent Buffer) :=
  [.startTxn, .writeRecord (.node, "n") 1 (.other "n1"), .flush,
    .writeRecord (.node, "m") 1 (.other "m1"), .writeRecord (.node, "n") 2 (.other "n2"),
    .release false, .startTxn, .writeRecord (.graphMeta, "n_edges") 0 (.other "1"), .commit]

end RecordTable

end Rangexx
