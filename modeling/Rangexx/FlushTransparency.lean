import Rangexx.ChangelistRecord

/-!
# Flushes and nested handles

`start_txn` hands out holders of one transaction object; the changes are
committed when the last holder goes.  `write_record` is a holder for the time of
the call.  `flush` lets the pending changes reach the table early.

The record of the changelist apart, a read returns what was written last, and a
run with flushes ends in the table that it ends in without them.
-/

namespace Rangexx

open EventRuns

/-- What is done with a table and the handles on its transaction. -/
inductive HandleOp (Data : Type) where
  | startTxn
  | dropTxn
  | writeRecord (key : RecordKey) (objectVersion : Nat) (data : Data)
  | flush
  | commit
  deriving DecidableEq, Repr

namespace HandleOp

variable {Data : Type}

/-- What the table sees of a holder that goes, and how many holders are left;
`none` when there is no holder. -/
def drop : Nat → Option (List (TableEvent Data) × Nat)
  | 0 => none
  | 1 => some ([.release false], 0)
  | holders + 2 => some ([], holders + 1)

/-- What the table sees of an operation, and how many holders there are
afterwards. -/
def events (holders : Nat) : HandleOp Data → Option (List (TableEvent Data) × Nat)
  | .startTxn => some ([.startTxn], holders + 1)
  | .dropTxn => drop holders
  | .writeRecord key objectVersion data => do
      let (dropped, holders) ← drop (holders + 1)
      some ([.startTxn, .writeRecord key objectVersion data] ++ dropped, holders)
  | .flush => some ([.flush], holders)
  | .commit => some ([.commit], holders)

/-- The data last written under each key. -/
def noteData (written : RecordKey → Option Data) : HandleOp Data → RecordKey → Option Data
  | .writeRecord key _ data => Function.update written key (some data)
  | _ => written

/-- The operation writes no empty buffer, and not the record of the
changelist. -/
def Proper (codec : ChangeListCodec Data) : HandleOp Data → Prop
  | .writeRecord key _ data => key ≠ changelistKey ∧ data ≠ codec.empty
  | _ => True

/-- A list of operations with the flushes left out. -/
def withoutFlushes [DecidableEq Data] (ops : List (HandleOp Data)) : List (HandleOp Data) :=
  ops.filter (· ≠ .flush)

/-- The data last written under each key by a list of operations. -/
def lastData (ops : List (HandleOp Data)) : RecordKey → Option Data :=
  ops.foldl noteData fun _ => none

theorem lastData_concat (past : List (HandleOp Data)) (op : HandleOp Data) :
    lastData (past ++ [op]) = op.noteData (lastData past) := by
  simp [lastData]

theorem withoutFlushes_concat_flush [DecidableEq Data] (past : List (HandleOp Data)) :
    withoutFlushes (past ++ [.flush]) = withoutFlushes past := by
  simp [withoutFlushes]

theorem withoutFlushes_concat [DecidableEq Data] (past : List (HandleOp Data))
    {op : HandleOp Data} (isNot : op ≠ .flush) :
    withoutFlushes (past ++ [op]) = withoutFlushes past ++ [op] := by
  simp [withoutFlushes, isNot]

end HandleOp

/-- A table and the number of holders of its transaction. -/
structure SharedTable (Data : Type) where
  table : RecordTable Data
  holders : Nat
  deriving DecidableEq

namespace SharedTable

variable {Data : Type} [DecidableEq Data] (codec : ChangeListCodec Data)

/-- One operation; `none` when it needs a holder and there is none. -/
def step (shared : SharedTable Data) (op : HandleOp Data) : Option (SharedTable Data) := do
  let (events, holders) ← op.events shared.holders
  let table ← run (RecordTable.step codec) shared.table events
  some ⟨table, holders⟩

/-- A table nobody uses. -/
def unused (table : RecordTable Data) : SharedTable Data :=
  ⟨table, 0⟩

end SharedTable

/-! ## The events of an operation -/

namespace TableEvent

variable {Data : Type}

/-- An event of an operation that is no flush. -/
def Plain (codec : ChangeListCodec Data) : TableEvent Data → Prop
  | startTxn => True
  | writeRecord key _ data => key ≠ changelistKey ∧ data ≠ codec.empty
  | flush => False
  | commit => True
  | abort => False
  | release uncaughtException => uncaughtException = false

theorem Plain.avoids {codec : ChangeListCodec Data} {event : TableEvent Data}
    (plain : event.Plain codec) : event.Avoids := by
  cases event with
  | writeRecord key objectVersion data => exact plain.1
  | _ => trivial

theorem Plain.filled [DecidableEq Data] {codec : ChangeListCodec Data} {event : TableEvent Data}
    (plain : event.Plain codec) : RecordTable.Filled codec event := by
  cases event with
  | writeRecord key objectVersion data => exact plain.2
  | _ => trivial

/-- What a read returns after the event, given what it returned before. -/
def shown (records : RecordKey → Data) : TableEvent Data → RecordKey → Data
  | writeRecord key _ data => Function.update records key data
  | _ => records

end TableEvent

namespace HandleOp

variable {Data : Type}

theorem drop_events {holders next : Nat} {events : List (TableEvent Data)}
    (dropped : drop holders = some (events, next)) :
    events = [.release false] ∨ events = [] := by
  unfold drop at dropped
  split at dropped
  · simp at dropped
  · exact Or.inl (Prod.mk.inj (Option.some.inj dropped)).1.symm
  · exact Or.inr (Prod.mk.inj (Option.some.inj dropped)).1.symm

theorem writeRecord_events {key : RecordKey} {objectVersion : Nat} {data : Data}
    {holders next : Nat} {events : List (TableEvent Data)}
    (does : (writeRecord key objectVersion data).events holders = some (events, next)) :
    ∃ dropped, events = [.startTxn, .writeRecord key objectVersion data] ++ dropped ∧
      (dropped = [.release false] ∨ dropped = []) := by
  obtain ⟨⟨dropped, left⟩, isDropped, same⟩ := Option.bind_eq_some_iff.mp does
  obtain ⟨rfl, rfl⟩ := Prod.mk.inj (Option.some.inj same)
  exact ⟨dropped, rfl, drop_events isDropped⟩

/-- The events of an operation that is no flush are plain. -/
theorem events_plain {codec : ChangeListCodec Data} {op : HandleOp Data} {holders next : Nat}
    {events : List (TableEvent Data)} (proper : op.Proper codec) (isNot : op ≠ .flush)
    (does : op.events holders = some (events, next)) : ∀ event ∈ events, event.Plain codec := by
  have release : (TableEvent.release false : TableEvent Data).Plain codec := rfl
  cases op with
  | startTxn =>
      obtain ⟨rfl, rfl⟩ := Prod.mk.inj (Option.some.inj does)
      simp [TableEvent.Plain]
  | dropTxn => rcases drop_events does with rfl | rfl <;> simp [release]
  | writeRecord key objectVersion data =>
      have write : (TableEvent.writeRecord key objectVersion data).Plain codec := proper
      have start : (TableEvent.startTxn : TableEvent Data).Plain codec := trivial
      obtain ⟨dropped, rfl, rfl | rfl⟩ := writeRecord_events does <;> simp [start, write, release]
  | flush => exact absurd rfl isNot
  | commit =>
      obtain ⟨rfl, rfl⟩ := Prod.mk.inj (Option.some.inj does)
      simp [TableEvent.Plain]

end HandleOp

namespace RecordTable

variable {Data : Type} {codec : ChangeListCodec Data}

/-! ## A table with flushes and one without -/

/-- The first table may have flushed what is pending in both. -/
structure Ahead (codec : ChangeListCodec Data) (flushed plain : RecordTable Data) : Prop where
  sameTxn : flushed.currentTxn = plain.currentTxn
  records : ∀ key, (plain.currentTxn.getD ∅).lookup key = none →
    flushed.records.lookup key = plain.records.lookup key
  filled : ∀ entry ∈ (plain.currentTxn.getD ∅).entries, entry.2.data ≠ codec.empty

theorem Ahead.getRecord {flushed plain : RecordTable Data} (ahead : Ahead codec flushed plain)
    (key : RecordKey) : flushed.getRecord codec key = plain.getRecord codec key := by
  unfold RecordTable.getRecord
  rw [ahead.sameTxn]
  cases isOpen : plain.currentTxn with
  | none =>
      have same := ahead.records key (by rw [isOpen]; rfl)
      rw [same]
  | some changes =>
      rw [Option.bind_some]
      cases found : changes.lookup key with
      | none =>
          have same := ahead.records key (by rw [isOpen]; exact found)
          rw [same]
      | some change => rfl

variable [DecidableEq Data]

theorem Ahead.readChangelist {flushed plain : RecordTable Data}
    (ahead : Ahead codec flushed plain) :
    flushed.readChangelist codec = plain.readChangelist codec := by
  unfold RecordTable.readChangelist
  rw [ahead.getRecord]

theorem Ahead.storedChangelist {flushed plain : RecordTable Data}
    (ahead : Ahead codec flushed plain)
    (spared : ∀ changes, flushed.currentTxn = some changes →
      changes.lookup changelistKey = none) :
    flushed.storedChangelist codec = plain.storedChangelist codec := by
  rw [← readChangelist_eq spared, ahead.readChangelist,
    readChangelist_eq (by rwa [← ahead.sameTxn])]

/-- What a commit of filled changes leaves under a key. -/
theorem lookup_committed {table : RecordTable Data} {changelist : GraphChanges}
    {changes : AList fun _ : RecordKey => PendingChange Data}
    (read : table.readChangelist codec = some changelist)
    (filled : ∀ entry ∈ changes.entries, entry.2.data ≠ codec.empty) (key : RecordKey) :
    (table.committedRecords codec changes).lookup key =
      if changedNodes changes ≠ [] ∧ key = changelistKey then
        some (codec.serialize
          ⟨changelist.currentVersion + 1, changelist.change ++ [changedNodes changes]⟩)
      else ((changes.lookup key).map PendingChange.data).or (table.records.lookup key) := by
  unfold committedRecords addGraphChangelist
  rw [read]
  dsimp only
  rw [writePending_eq filled]
  by_cases nothing : changedNodes changes = []
  · simp [nothing, KeyedTable.lookup_insertAll]
  · by_cases same : key = changelistKey
    · rw [if_neg nothing, if_pos ⟨nothing, same⟩, same, AList.lookup_insert]
    · simp [nothing, same, AList.lookup_insert_ne, KeyedTable.lookup_insertAll]

theorem Ahead.committed {flushed plain : RecordTable Data} {changelist : GraphChanges}
    {changes : AList fun _ : RecordKey => PendingChange Data}
    (ahead : Ahead codec flushed plain) (isOpen : plain.currentTxn = some changes)
    {reading other : RecordTable Data} (sameRecords : reading.records = flushed.records)
    (otherRecords : other.records = plain.records)
    (read : reading.readChangelist codec = some changelist)
    (otherRead : other.readChangelist codec = some changelist)
    {txn : Option (AList fun _ : RecordKey => PendingChange Data)}
    (nothing : (txn.getD ∅).entries = []) :
    Ahead codec ⟨reading.committedRecords codec changes, txn⟩
      ⟨other.committedRecords codec changes, txn⟩ where
  sameTxn := rfl
  records := by
    intro key _
    have filled := ahead.filled
    have records := ahead.records key
    rw [isOpen, Option.getD_some] at filled records
    rw [lookup_committed read filled, lookup_committed otherRead filled, sameRecords, otherRecords]
    cases found : changes.lookup key with
    | none => rw [records found]
    | some change => rfl
  filled := by simp [nothing]

/-- Both tables take the same plain event. -/
theorem Ahead.step {past : List (TableEvent Data)} {flushed plain next : RecordTable Data}
    {event : TableEvent Data} (ahead : Ahead codec flushed plain)
    (guarded : Guarded codec past flushed) (isPlain : event.Plain codec)
    (taken : flushed.step codec event = some next) :
    ∃ other, plain.step codec event = some other ∧ Ahead codec next other := by
  have sameTxn := ahead.sameTxn
  have records := ahead.records
  have filled := ahead.filled
  cases isOpen : plain.currentTxn with
  | none =>
      rw [isOpen] at sameTxn records
      cases event <;> simp only [RecordTable.step, sameTxn, reduceCtorEq] at taken
      obtain rfl := Option.some.inj taken
      refine ⟨{ plain with currentTxn := some ∅ }, by simp [RecordTable.step, isOpen], rfl, ?_, ?_⟩
      · exact records
      · simp
  | some changes =>
      rw [isOpen] at sameTxn
      obtain ⟨changelist, stored, -⟩ := guarded.counted
      have read : flushed.readChangelist codec = some changelist :=
        (readChangelist_eq guarded.spared).trans stored
      have otherRead : plain.readChangelist codec = some changelist :=
        ahead.readChangelist.symm.trans read
      have otherStored : plain.storedChangelist codec = some changelist :=
        (ahead.storedChangelist guarded.spared).symm.trans stored
      have sameTable : ∀ table : RecordTable Data,
          ({ table with currentTxn := none } : RecordTable Data).records = table.records :=
        fun _ => rfl
      cases event with
      | startTxn =>
          simp only [RecordTable.step, sameTxn, Option.some.injEq] at taken
          subst taken
          exact ⟨plain, by simp [RecordTable.step, isOpen], ahead⟩
      | writeRecord key objectVersion data =>
          simp only [RecordTable.step, sameTxn, Option.some.injEq] at taken
          subst taken
          refine ⟨{ plain with currentTxn := some (changes.insert key ⟨objectVersion, data⟩) },
            by simp [RecordTable.step, isOpen], rfl, ?_, ?_⟩
          · intro other notPending
            rw [isOpen, Option.getD_some] at records
            rw [Option.getD_some] at notPending
            apply records
            by_cases same : other = key
            · rw [same, AList.lookup_insert] at notPending
              simp at notPending
            · rwa [AList.lookup_insert_ne same] at notPending
          · have fills : Filled codec (.writeRecord key objectVersion data) := isPlain.2
            exact filled_step filled fills (by simp [RecordTable.step, isOpen])
      | flush => exact absurd isPlain id
      | commit =>
          simp only [RecordTable.step, sameTxn, read, reduceCtorEq, if_false,
            Option.some.injEq] at taken
          subst taken
          exact ⟨⟨plain.committedRecords codec changes, some ∅⟩,
            by simp [RecordTable.step, isOpen, otherRead],
            ahead.committed isOpen rfl rfl read otherRead rfl⟩
      | abort => exact absurd isPlain id
      | release uncaughtException =>
          obtain rfl : uncaughtException = false := isPlain
          simp only [RecordTable.step, sameTxn, Option.some.injEq] at taken
          subst taken
          exact ⟨⟨committedRecords codec { plain with currentTxn := none } changes, none⟩,
            by simp [RecordTable.step, isOpen],
            ahead.committed isOpen (sameTable flushed) (sameTable plain) stored otherStored rfl⟩

/-- A flush of the first table alone. -/
theorem Ahead.flush {flushed plain next : RecordTable Data} (ahead : Ahead codec flushed plain)
    (taken : flushed.step codec .flush = some next) : Ahead codec next plain := by
  cases isOpen : flushed.currentTxn with
  | none => simp [RecordTable.step, isOpen] at taken
  | some changes =>
      simp only [RecordTable.step, isOpen, Option.some.injEq] at taken
      subst taken
      have sameTxn : plain.currentTxn = some changes := ahead.sameTxn.symm.trans isOpen
      refine ⟨sameTxn.symm, ?_, ahead.filled⟩
      intro key notPending
      have absent : changes.lookup key = none := by
        rwa [sameTxn, Option.getD_some] at notPending
      rw [lookup_writePending absent]
      exact ahead.records key notPending

/-- Both tables take the same plain events. -/
theorem Ahead.run {past events : List (TableEvent Data)} {flushed plain final : RecordTable Data}
    (ahead : Ahead codec flushed plain) (guarded : Guarded codec past flushed)
    (isPlain : ∀ event ∈ events, event.Plain codec)
    (ran : run (RecordTable.step codec) flushed events = some final) :
    (∃ other, EventRuns.run (RecordTable.step codec) plain events = some other ∧
      Ahead codec final other) ∧ Guarded codec (past ++ events) final := by
  induction events generalizing past flushed plain with
  | nil =>
      obtain rfl := Option.some.inj ran
      rw [List.append_nil]
      exact ⟨⟨plain, rfl, ahead⟩, guarded⟩
  | cons event rest ih =>
      obtain ⟨next, taken, onward⟩ := run_cons ran
      have plainEvent := isPlain event List.mem_cons_self
      obtain ⟨other, otherTaken, nextAhead⟩ := ahead.step guarded plainEvent taken
      obtain ⟨⟨last, otherRan, lastAhead⟩, lastGuarded⟩ := ih nextAhead
        (guarded.preserved plainEvent.avoids taken)
        (fun later member => isPlain later (List.mem_cons_of_mem event member)) onward
      rw [List.append_assoc, List.singleton_append] at lastGuarded
      refine ⟨⟨last, ?_, lastAhead⟩, lastGuarded⟩
      rw [EventRuns.run, otherTaken]
      exact otherRan

/-! ## Reads -/

/-- A plain event changes what a read returns only by writing. -/
theorem getRecord_step {past : List (TableEvent Data)} {table next : RecordTable Data}
    {event : TableEvent Data} (guarded : Guarded codec past table)
    (filled : ∀ entry ∈ (table.currentTxn.getD ∅).entries, entry.2.data ≠ codec.empty)
    (isPlain : event.Plain codec) (taken : table.step codec event = some next) {key : RecordKey}
    (differs : key ≠ changelistKey) :
    next.getRecord codec key = event.shown (table.getRecord codec) key := by
  obtain ⟨changelist, stored, -⟩ := guarded.counted
  have read : table.readChangelist codec = some changelist :=
    (readChangelist_eq guarded.spared).trans stored
  cases isOpen : table.currentTxn with
  | none =>
      cases event <;> simp only [RecordTable.step, isOpen, reduceCtorEq] at taken
      obtain rfl := Option.some.inj taken
      simp [TableEvent.shown, getRecord, isOpen]
  | some changes =>
      rw [isOpen, Option.getD_some] at filled
      cases event with
      | startTxn =>
          simp only [RecordTable.step, isOpen, Option.some.injEq] at taken
          subst taken
          rfl
      | writeRecord written objectVersion data =>
          simp only [RecordTable.step, isOpen, Option.some.injEq] at taken
          subst taken
          by_cases same : key = written
          · subst same
            simp [TableEvent.shown, getRecord]
          · simp [TableEvent.shown, getRecord, same, isOpen, AList.lookup_insert_ne]
      | flush => exact absurd isPlain id
      | commit =>
          simp only [RecordTable.step, isOpen, read, reduceCtorEq, if_false,
            Option.some.injEq] at taken
          subst taken
          have left := lookup_committed read filled key
          rw [if_neg fun both => differs both.2] at left
          simp only [TableEvent.shown, getRecord, isOpen, Option.bind_some, AList.lookup_empty, left]
          cases changes.lookup key <;> rfl
      | abort => exact absurd isPlain id
      | release uncaughtException =>
          obtain rfl : uncaughtException = false := isPlain
          simp only [RecordTable.step, isOpen, Option.some.injEq] at taken
          subst taken
          have closed : (⟨table.records, none⟩ : RecordTable Data).readChangelist codec =
              some changelist := stored
          have left := lookup_committed closed filled key
          rw [if_neg fun both => differs both.2] at left
          simp only [TableEvent.shown, getRecord, isOpen, Option.bind_some, Option.bind_none,
            Bool.false_eq_true, if_false, left]
          cases changes.lookup key <;> rfl

/-- The buffers stay filled, and every other key shows its last write. -/
theorem getRecord_run {past events : List (TableEvent Data)} {table final : RecordTable Data}
    {records : RecordKey → Data} (guarded : Guarded codec past table)
    (filled : ∀ entry ∈ (table.currentTxn.getD ∅).entries, entry.2.data ≠ codec.empty)
    (isPlain : ∀ event ∈ events, event.Plain codec)
    (shows : ∀ key, key ≠ changelistKey → table.getRecord codec key = records key)
    (ran : run (RecordTable.step codec) table events = some final) {key : RecordKey}
    (differs : key ≠ changelistKey) :
    final.getRecord codec key = events.foldl TableEvent.shown records key := by
  induction events generalizing past table records with
  | nil =>
      obtain rfl := Option.some.inj ran
      exact shows key differs
  | cons event rest ih =>
      obtain ⟨next, taken, onward⟩ := run_cons ran
      have plainEvent := isPlain event List.mem_cons_self
      rw [List.foldl_cons]
      refine ih (guarded.preserved plainEvent.avoids taken)
        (filled_step filled plainEvent.filled taken)
        (fun later member => isPlain later (List.mem_cons_of_mem event member)) ?_ onward
      intro other otherDiffers
      rw [getRecord_step guarded filled plainEvent taken otherDiffers]
      cases event with
      | writeRecord written objectVersion data =>
          by_cases same : other = written
          · simp [TableEvent.shown, same]
          · simp [TableEvent.shown, same, shows other otherDiffers]
      | _ => exact shows other otherDiffers

end RecordTable

/-- What the events of an operation show. -/
theorem HandleOp.shown_events {Data : Type} {op : HandleOp Data} {holders next : Nat}
    {events : List (TableEvent Data)} (does : op.events holders = some (events, next))
    (written : RecordKey → Option Data) (before : RecordKey → Data) (key : RecordKey) :
    events.foldl TableEvent.shown (fun key => (written key).getD (before key)) key =
      (op.noteData written key).getD (before key) := by
  cases op with
  | writeRecord other objectVersion data =>
      have shown : TableEvent.shown (fun key => (written key).getD (before key))
          (.writeRecord other objectVersion data) key =
            (Function.update written other (some data) key).getD (before key) := by
        by_cases same : key = other
        · simp [TableEvent.shown, same]
        · simp [TableEvent.shown, same]
      obtain ⟨dropped, rfl, rfl | rfl⟩ := writeRecord_events does
      · exact shown
      · exact shown
  | dropTxn => rcases drop_events does with rfl | rfl <;> rfl
  | _ =>
      obtain ⟨rfl, rfl⟩ := Prod.mk.inj (Option.some.inj does)
      rfl

namespace SharedTable

open RecordTable

variable {Data : Type} [DecidableEq Data] {codec : ChangeListCodec Data}

theorem step_eq_some {shared next : SharedTable Data} {op : HandleOp Data}
    (taken : shared.step codec op = some next) :
    ∃ events, op.events shared.holders = some (events, next.holders) ∧
      run (RecordTable.step codec) shared.table events = some next.table := by
  obtain ⟨⟨events, holders⟩, does, taken⟩ := Option.bind_eq_some_iff.mp taken
  obtain ⟨table, ran, taken⟩ := Option.bind_eq_some_iff.mp taken
  obtain rfl := Option.some.inj taken
  exact ⟨events, does, ran⟩

/-- What holds of a table after the operations `past`, which began at
`start`. -/
structure Tracked (codec : ChangeListCodec Data) (start : RecordTable Data)
    (past : List (HandleOp Data)) (shared : SharedTable Data) : Prop where
  guarded : ∃ events, Guarded codec events shared.table
  reads : ∀ key, key ≠ changelistKey →
    shared.table.getRecord codec key =
      (HandleOp.lastData past key).getD (start.getRecord codec key)
  plain : ∃ plain, run (step codec) (unused start) (HandleOp.withoutFlushes past) =
      some ⟨plain, shared.holders⟩ ∧ Ahead codec shared.table plain

theorem Tracked.step {start : RecordTable Data} {past : List (HandleOp Data)}
    {shared next : SharedTable Data} {op : HandleOp Data} (tracked : Tracked codec start past shared)
    (proper : op.Proper codec) (taken : shared.step codec op = some next) :
    Tracked codec start (past ++ [op]) next := by
  obtain ⟨⟨before, guarded⟩, reads, plain, plainRan, ahead⟩ := tracked
  obtain ⟨events, does, ran⟩ := step_eq_some taken
  by_cases isFlush : op = .flush
  · subst isFlush
    obtain ⟨rfl, sameHolders⟩ := Prod.mk.inj (Option.some.inj does)
    obtain ⟨_, flushed, ended⟩ := run_cons ran
    obtain rfl := Option.some.inj ended
    have nextAhead := ahead.flush flushed
    have avoids : (TableEvent.flush : TableEvent Data).Avoids := trivial
    refine ⟨⟨_, guarded.preserved avoids flushed⟩, ?_, plain, ?_, nextAhead⟩
    · intro key differs
      rw [nextAhead.getRecord, ← ahead.getRecord, reads key differs, HandleOp.lastData_concat]
      rfl
    · rw [HandleOp.withoutFlushes_concat_flush, ← sameHolders]
      exact plainRan
  · have isPlain := HandleOp.events_plain proper isFlush does
    obtain ⟨⟨other, otherRan, nextAhead⟩, nextGuarded⟩ := ahead.run guarded isPlain ran
    have filled : ∀ entry ∈ (shared.table.currentTxn.getD ∅).entries,
        entry.2.data ≠ codec.empty := by
      rw [ahead.sameTxn]
      exact ahead.filled
    refine ⟨⟨_, nextGuarded⟩, ?_, other, ?_, nextAhead⟩
    · intro key differs
      rw [getRecord_run guarded filled isPlain reads ran differs, HandleOp.lastData_concat]
      exact HandleOp.shown_events does _ _ key
    · rw [HandleOp.withoutFlushes_concat past isFlush]
      apply run_concat plainRan
      simp [SharedTable.step, does, otherRan]

theorem tracked_run {past : List (TableEvent Data)} {start : RecordTable Data}
    (ran : run (RecordTable.step codec) RecordTable.empty past = some start)
    (avoids : ∀ event ∈ past, event.Avoids) (closed : start.currentTxn = none)
    {ops : List (HandleOp Data)} {final : SharedTable Data}
    (taken : run (step codec) (unused start) ops = some final)
    (proper : ∀ op ∈ ops, op.Proper codec) : Tracked codec start ops final := by
  have atStart : Tracked codec start [] (unused start) :=
    ⟨⟨past, guarded_run ran avoids⟩, fun _ _ => rfl, start, rfl, rfl, fun _ _ => rfl, by
      simp [closed]⟩
  exact invariant_history (Tracked codec start)
    (fun _ _ _ _ tracked isProper taken => tracked.step isProper taken) atStart
    (along_of_forall proper (unused start)) taken

/-- Two nested handles; one node is written by each of them and once by the
call alone, with flushes between. -/
def nestedHandles : List (HandleOp Buffer) :=
  [.startTxn, .writeRecord (.node, "n") 1 (.other "n1"), .flush, .startTxn,
    .writeRecord (.node, "n") 2 (.other "n2"), .writeRecord (.node, "m") 1 (.other "m1"),
    .flush, .dropTxn, .dropTxn, .writeRecord (.node, "n") 3 (.other "n3")]

end SharedTable

end Rangexx
