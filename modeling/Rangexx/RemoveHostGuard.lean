import Rangexx.HostEnvironments
import Rangexx.StoreContracts

/-!
# The guard of `remove_host`

`remove_host` looks for an environment above the node it is to remove, and
refuses when the first one it meets is not the given one.  It looks neither at
the type of the node nor at parents that the search did not come through.
-/

namespace Rangexx

open StateProgram

namespace RangeApi

open Api

/-- The search for an environment above a node meets another one first. -/
def MeetsOther (inst : GraphInstance) (envName : String) (node : Node) : Prop :=
  node.neighbours .reverse inst ≠ [] ∧
    ∃ other ∈ (search inst .reverse node []).find? fun name =>
      (inst.readNode name).nodeType = .environment, other ≠ envName

instance (inst : GraphInstance) (envName : String) (node : Node) :
    Decidable (MeetsOther inst envName node) :=
  inferInstanceAs (Decidable (_ ∧ _))

variable {world : World} {envName hostname : String} {node : Node}

theorem requireInEnvironment_apply (world : World) (envName : String) (node : Node) :
    requireInEnvironment envName node world =
      if MeetsOther world.primary.inst envName node then
        (.error (.invalidEnvironment envName), world)
      else (.ok (), world) := by
  have same : (!(node.neighbours .reverse world.primary.inst).isEmpty &&
      ((search world.primary.inst .reverse node []).filter fun name =>
        (world.primary.inst.readNode name).nodeType = .environment).head?.any
          fun name => name ≠ envName) =
      decide (MeetsOther world.primary.inst envName node) := by
    rw [List.head?_filter, Bool.eq_iff_iff]
    simp [MeetsOther, Option.any_eq_true]
  unfold requireInEnvironment
  rw [read_bind, same]
  by_cases meets : MeetsOther world.primary.inst envName node
  · simp only [meets, decide_true, if_true]
    rfl
  · simp only [meets, decide_false, if_false]
    rfl

/-- The removals return, whatever the graphs make of the object. -/
theorem removals_return (node : Node) (world : World) :
    ∃ after, (do
      let node ← remove .primary .primary node
      let _ ← remove .dependency .primary node
      return true : Api Bool) world = (.ok true, after) :=
  ⟨_, rfl⟩

/-- What `remove_host` returns or throws. -/
theorem removeHost_outcome (quiet : world.Quiet) (envName hostname : String) (id : Nat) :
    (removeHost envName hostname id world).1 =
      if ¬ world.primary.inst.Live hostname then .error (.nodeNotFound hostname)
      else if MeetsOther world.primary.inst envName (Node.loaded world.primary.inst hostname)
      then .error (.invalidEnvironment envName)
      else .ok true := by
  have fetched : (world.openedBoth.graph .primary).getNode hostname =
      if world.primary.inst.Live hostname then some (Node.loaded world.primary.inst hostname)
      else none :=
    GraphDB.getNode_ofInstance quiet.primary hostname
  unfold removeHost
  rw [inBothTxns_apply quiet.saved]
  by_cases live : world.primary.inst.Live hostname
  · rw [if_pos live] at fetched
    rw [if_neg (not_not.mpr live), bind_of_ok (requireNode_of_some fetched)]
    have looked := requireInEnvironment_apply world.openedBoth envName
      (Node.loaded world.primary.inst hostname)
    change requireInEnvironment envName (Node.loaded world.primary.inst hostname)
      world.openedBoth = if MeetsOther world.primary.inst envName
        (Node.loaded world.primary.inst hostname) then _ else _ at looked
    by_cases meets : MeetsOther world.primary.inst envName
        (Node.loaded world.primary.inst hostname)
    · rw [if_pos meets] at looked ⊢
      rw [bind_of_error looked]
    · rw [if_neg meets] at looked ⊢
      obtain ⟨after, removed⟩ :=
        removals_return (Node.loaded world.primary.inst hostname) world.openedBoth
      rw [bind_of_ok looked, withRangeTxn_returns removed]
  · rw [if_neg live] at fetched
    rw [if_pos live, bind_of_error (requireNode_of_none fetched)]

end RangeApi

/-! ## Environments have no parents -/

/-- No edge of the primary graph leads to an environment. -/
structure World.Rooted (world : World) : Prop where
  regular : world.Regular
  targets : (world.drawing .primary).Obeys fun _ _ _ targetType => targetType ≠ .environment

namespace World

open RangeApi

theorem empty_rooted : empty.Rooted :=
  ⟨empty_regular, obeys_empty⟩

variable {world : World}

theorem Rooted.run (rooted : world.Rooted) (call : WriteCall) :
    (call.run world).2.Rooted := by
  refine ⟨rooted.regular.run call, rooted.regular.obeys rooted.targets call ?_⟩
  intro link isLink _
  unfold WriteCall.link at isLink
  split at isLink
  · cases isLink
    simp
  · cases isLink
    simp
  · cases isLink
    simp
  · cases isLink

theorem Rooted.calls (rooted : world.Rooted) (sequence : List WriteCall) :
    (world.calls sequence).Rooted := by
  induction sequence generalizing world with
  | nil => exact rooted
  | cons call rest ih => exact ih (rooted.run call)

theorem Rooted.no_parents (rooted : world.Rooted) {name : String}
    (isEnvironment : world.roster .primary name = some .environment) :
    (Node.loaded world.primary.inst name).neighbours .reverse world.primary.inst = [] := by
  rw [List.eq_nil_iff_forall_not_mem]
  intro parent member
  obtain ⟨source, listed, -⟩ := List.mem_map.mp member
  have edge : world.Edge .primary source name := Or.inr listed
  obtain ⟨_, targetType, -, isTarget, other⟩ := rooted.targets source name edge
  exact other (Option.some.inj (isTarget.symm.trans isEnvironment))

/-- `remove_host` removes every environment it is given. -/
theorem Rooted.removeHost_environment (rooted : world.Rooted) {name : String}
    (isEnvironment : world.roster .primary name = some .environment) (envName : String)
    (id : Nat) : (removeHost envName name id world).1 = .ok true := by
  have live : world.primary.inst.Live name :=
    (rooted.regular.quiet.live_of_roster isEnvironment).1
  rw [removeHost_outcome rooted.regular.quiet, if_neg (not_not.mpr live), if_neg]
  intro meets
  exact meets.1 (rooted.no_parents isEnvironment)

/-! ## What the guard should see to -/

/-- The environment is above the cluster. -/
def BelongsTo (world : World) (cluster envName : String) : Prop :=
  world.roster .primary envName = some .environment ∧
    Worklist.Reaches (nextNames world.primary.inst .reverse none) cluster envName

/-- A live host, every cluster of which belongs to the environment. -/
def HostOf (world : World) (envName hostname : String) : Prop :=
  world.roster .primary hostname = some .host ∧
    ∀ parent, world.roster .primary parent = some .cluster →
      world.Edge .primary parent hostname → world.BelongsTo parent envName

/-- When the call returns, it was given a host of the environment, and when it
throws, nothing is removed. -/
def RemovalGuarded (world : World) (envName hostname : String) (id : Nat) : Prop :=
  (∀ result after, removeHost envName hostname id world = (.ok result, after) →
      world.HostOf envName hostname) ∧
    ∀ error after, removeHost envName hostname id world = (.error error, after) →
      world.Unchanged after

/-- The call is guarded exactly when there is nothing to remove, when the
search meets another environment first, or when it is given a host of the
environment. -/
theorem removeHost_guarded_iff (sequence : List WriteCall) (envName hostname : String)
    (id : Nat) :
    (empty.calls sequence).RemovalGuarded envName hostname id ↔
      ¬ (empty.calls sequence).primary.inst.Live hostname ∨
        MeetsOther (empty.calls sequence).primary.inst envName
          (Node.loaded (empty.calls sequence).primary.inst hostname) ∨
        (empty.calls sequence).HostOf envName hostname := by
  have quiet := empty_quiet.calls sequence
  have outcome := removeHost_outcome quiet envName hostname id
  constructor
  · rintro ⟨returned, -⟩
    by_contra unguarded
    simp only [not_or, not_not] at unguarded
    obtain ⟨live, passes, notHost⟩ := unguarded
    rw [if_neg (not_not.mpr live), if_neg passes] at outcome
    exact notHost (returned true _ (Prod.ext outcome rfl))
  · intro guarded
    constructor
    · intro result after ran
      rw [ran] at outcome
      rcases guarded with missing | meets | isHost
      · rw [if_pos missing] at outcome
        cases outcome
      · by_cases live : (empty.calls sequence).primary.inst.Live hostname
        · rw [if_neg (not_not.mpr live), if_pos meets] at outcome
          cases outcome
        · rw [if_pos live] at outcome
          cases outcome
      · exact isHost
    · intro error after thrown
      have call : (⟨.removeHost, [envName, hostname], id⟩ : WriteCall).run
          (empty.calls sequence) = (.error error, after) := thrown
      rcases WriteCall.run_error quiet call with ⟨-, same, -⟩ | ⟨half, -⟩
      · exact Unchanged.of_tables same
      · exact half.elim

/-- An environment without clusters. -/
def bareEnvironment : List WriteCall :=
  [⟨.createEnv, ["e"], 1⟩]

/-- `remove_host` with an empty environment name removes it. -/
theorem removeHost_not_guarded :
    (removeHost "" "e" 2 (empty.calls bareEnvironment)).1 = .ok true ∧
      (removeHost "" "e" 2 (empty.calls bareEnvironment)).2.roster .primary "e" = none ∧
      ¬ (empty.calls bareEnvironment).RemovalGuarded "" "e" 2 := by
  have isEnvironment : (empty.calls bareEnvironment).roster .primary "e" =
      some .environment := by
    decide +kernel
  have returns := (empty_rooted.calls bareEnvironment).removeHost_environment isEnvironment "" 2
  refine ⟨returns, by decide +kernel, ?_⟩
  rintro ⟨guarded, -⟩
  have isHost := (guarded true _ (Prod.ext returns rfl)).1
  rw [isEnvironment] at isHost
  cases isHost

end World

end Rangexx
