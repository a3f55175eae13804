import Rangexx.CommittedGraph
import Rangexx.WriteApi

/-!
# The scopes of a write call

What the transaction scopes of a call do, in terms of the program they
enclose: how a call that returns closes the graphs it opened, and that a call
which throws leaves the tables as they were when its outermost scope began.
-/

namespace Rangexx

open StateProgram

/-- The state between two calls. -/
structure World.Quiet (world : World) : Prop where
  primary : Committed world.primary.inst
  dependency : Committed world.dependency.inst
  saved : world.saved = none

theorem World.empty_quiet : World.empty.Quiet :=
  ⟨Committed.empty, Committed.empty, rfl⟩

theorem World.Quiet.graph {world : World} (quiet : world.Quiet) (name : GraphName) :
    Committed (world.graph name).inst := by
  cases name with
  | primary => exact quiet.primary
  | dependency => exact quiet.dependency

namespace World

/-- The world a call on one graph works in. -/
def opened (world : World) (name : GraphName) : World :=
  { world.setGraph name (.ofInstance (world.graph name).inst) with saved := some world.tables }

/-- The world a call on both graphs works in. -/
def openedBoth (world : World) : World :=
  { world with
    primary := .ofInstance world.primary.inst
    dependency := .ofInstance world.dependency.inst
    saved := some world.tables }

/-- End the transaction of one graph and let the lock go. -/
def closed (start world : World) (name : GraphName) : World :=
  { world.setGraph name ((world.graph name).endTxn (start.graph name).version false) with
    saved := none }

def closedBoth (start world : World) : World :=
  { world with
    primary := world.primary.endTxn start.primary.version false
    dependency := world.dependency.endTxn start.dependency.version false
    saved := none }

/-- End the transaction of one graph while an exception is passing. -/
def undone (start world : World) (name : GraphName) : World :=
  let aborted := world.setGraph name
    ((world.graph name).endTxn (start.graph name).version true)
  { aborted.restore start.tables with saved := none }

def undoneBoth (start world : World) : World :=
  let aborted := { world with
    primary := world.primary.endTxn start.primary.version true
    dependency := world.dependency.endTxn start.dependency.version true }
  { aborted.restore start.tables with saved := none }

@[simp]
theorem setGraph_graph (world : World) (name : GraphName) :
    world.setGraph name (world.graph name) = world := by
  cases name <;> rfl

@[simp]
theorem graph_setGraph (world : World) (name : GraphName) (graph : GraphDB) :
    (world.setGraph name graph).graph name = graph := by
  cases name <;> rfl

theorem graph_setGraph_ne (world : World) {name other : GraphName} (ne : other ≠ name)
    (graph : GraphDB) : (world.setGraph name graph).graph other = world.graph other := by
  cases name <;> cases other <;> first | rfl | exact absurd rfl ne

end World

/-! ## Programs that leave parts of the world alone -/

/-- A program that keeps a part of the world as it is, also when it throws. -/
def Keeps {Part Value : Type} (part : World → Part) (program : Api Value) : Prop :=
  ∀ world, part (program world).2 = part world

namespace Keeps

variable {Part Value Result : Type} {part : World → Part}

theorem pure (value : Value) : Keeps part (Pure.pure value : Api Value) :=
  fun _ => rfl

theorem raise (error : ApiError) : Keeps part (StateProgram.raise error : Api Value) :=
  fun _ => rfl

theorem read (view : World → Value) : Keeps part (StateProgram.read view : Api Value) :=
  fun _ => rfl

theorem bind {program : Api Value} {next : Value → Api Result} (first : Keeps part program)
    (second : ∀ value, Keeps part (next value)) : Keeps part (program >>= next) := by
  intro world
  cases outcome : program world with
  | mk result between =>
      have kept := first world
      rw [outcome] at kept
      cases result with
      | ok value =>
          rw [bind_of_ok outcome, second value between]
          exact kept
      | error error =>
          rw [bind_of_error outcome]
          exact kept

theorem ite {condition : Prop} [Decidable condition] {first second : Api Value}
    (one : Keeps part first) (two : Keeps part second) :
    Keeps part (if condition then first else second) := by
  split
  · exact one
  · exact two

end Keeps

/-! ## Opening and closing -/

namespace RangeApi

open Api

variable {Value : Type}

@[simp]
theorem graphdb_none (name : GraphName) (world : World) :
    graphdb name none world =
      (.ok (), world.setGraph name (.ofInstance (world.graph name).inst)) :=
  rfl

theorem withGraphTxn_unlocked {world : World} (unlocked : world.saved = none)
    (name : GraphName) (body : Api Value) :
    withGraphTxn name body world =
      match body { world with saved := some world.tables } with
      | (.ok value, after) => (.ok value, world.closed after name)
      | (.error error, after) => (.error error, world.undone after name) := by
  unfold withGraphTxn withLock
  simp only [unlocked]
  cases body { world with saved := some world.tables } with
  | mk result after => cases result <;> rfl

theorem withGraphTxn_locked {world : World} {tables : Tables}
    (locked : world.saved = some tables) (name : GraphName) (body : Api Value) :
    withGraphTxn name body world =
      ((body world).1, (body world).2.setGraph name (((body world).2.graph name).endTxn
        (world.graph name).version (failed (body world).1))) := by
  unfold withGraphTxn withLock
  simp only [locked]

theorem inTxn_apply {world : World} (unlocked : world.saved = none) (name : GraphName)
    (body : Api Value) :
    inTxn name body world =
      match body (world.opened name) with
      | (.ok value, after) => (.ok value, world.closed after name)
      | (.error error, after) => (.error error, world.undone after name) := by
  unfold inTxn
  rw [bind_of_ok (graphdb_none name world)]
  cases name with
  | primary =>
      have stillUnlocked : (world.setGraph .primary
          (.ofInstance (world.graph .primary).inst)).saved = none := unlocked
      exact withGraphTxn_unlocked stillUnlocked .primary body
  | dependency =>
      have stillUnlocked : (world.setGraph .dependency
          (.ofInstance (world.graph .dependency).inst)).saved = none := unlocked
      exact withGraphTxn_unlocked stillUnlocked .dependency body

theorem inBothTxns_apply {world : World} (unlocked : world.saved = none) (body : Api Value) :
    inBothTxns body world =
      match body world.openedBoth with
      | (.ok value, after) => (.ok value, world.closedBoth after)
      | (.error error, after) => (.error error, world.undoneBoth after) := by
  unfold inBothTxns
  rw [inTxn_apply unlocked]
  have inner : inTxn .dependency body (world.opened .primary) =
      ((body world.openedBoth).1, { (body world.openedBoth).2 with
        dependency := (body world.openedBoth).2.dependency.endTxn world.dependency.version
          (failed (body world.openedBoth).1) }) := by
    unfold inTxn
    rw [bind_of_ok (graphdb_none .dependency _), withGraphTxn_locked rfl]
    rfl
  rw [inner]
  cases body world.openedBoth with
  | mk result after => cases result <;> rfl

end RangeApi

end Rangexx
