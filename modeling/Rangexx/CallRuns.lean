import Rangexx.CallFailures

/-!
# Runs of write calls

One theorem for all calls that return, one for all calls that throw, and the
invariant that holds after any sequence of calls from an empty store.
-/

namespace Rangexx

open StateProgram

namespace WriteCall

open RangeApi

/-- How a call that returns changes the rosters. -/
def rosterChange (call : WriteCall) : GraphName → Roster.Change String NodeType :=
  match call.method, call.args with
  | .createEnv, [env] => onBoth (.ensure env .environment)
  | .removeEnv, [env] => onBoth (.erase env)
  | .addClusterToEnv, [env, cluster] => onBoth (.ensure (prefixedNodeName env cluster) .cluster)
  | .addClusterToCluster, [env, _, child] =>
      onBoth (.ensure (prefixedNodeName env child) .cluster)
  | .addHostToCluster, [_, _, host] => onBoth (.ensure host .host)
  | .addHost, [host] => onBoth (.ensure host .host)
  | .removeCluster, [env, cluster] => onPrimary (.erase (prefixedNodeName env cluster))
  | .removeHost, [_, host] => onPrimary (.erase host)
  | _, _ => onBoth .keep

/-- What a call that returns may do to edges and tags. -/
def effect (world : World) (call : WriteCall) : GraphName → Effect :=
  match call.method, call.args with
  | .addClusterToEnv, [env, cluster] =>
      Effect.onlyIn .primary (.links env (prefixedNodeName env cluster))
  | .addClusterToCluster, [env, parent, child] =>
      Effect.onlyIn .primary (.links (prefixedNodeName env parent) (prefixedNodeName env child))
  | .addHostToCluster, [env, parent, host] =>
      Effect.onlyIn .primary (.links (prefixedNodeName env parent) host)
  | .addNodeKeyValue, [env, node, _, _] => (keyedEffect world env node).onlyIn .primary
  | .removeNodeKeyValue, [env, node, _, _] => (keyedEffect world env node).onlyIn .primary
  | .removeKeyFromNode, [env, node, _] => (keyedEffect world env node).onlyIn .primary
  | .addNodeExtDependency, [env, node, otherEnv, other] =>
      Effect.onlyIn .dependency (.links (prefixedNodeName env node)
        (prefixedNodeName otherEnv other))
  | _, _ => quietly

/-- The call does not link a node of the graph to itself. -/
def Apart (call : WriteCall) : GraphName → Prop :=
  match call.method, call.args with
  | .addClusterToCluster, [env, parent, child] => fun graph =>
      graph = .primary → prefixedNodeName env parent ≠ prefixedNodeName env child
  | .addNodeExtDependency, [env, node, otherEnv, other] => fun graph =>
      graph = .dependency → prefixedNodeName env node ≠ prefixedNodeName otherEnv other
  | _, _ => fun _ => True

/-- The primary graph takes the change of the call and the dependency graph
does not. -/
def HalfApplied (world : World) (call : WriteCall) : Prop :=
  match call.method, call.args with
  | .createEnv, [name] =>
      world.roster .primary name = none ∧ world.roster .dependency name ≠ none
  | .addHost, [name] =>
      world.roster .primary name = none ∧ world.roster .dependency name ≠ none
  | .removeEnv, [name] => world.roster .primary name = some .environment ∧
      world.roster .dependency name ≠ some .environment
  | _, _ => False

instance (world : World) (call : WriteCall) : Decidable (call.HalfApplied world) := by
  unfold HalfApplied
  split
  · exact inferInstanceAs (Decidable (_ ∧ _))
  · exact inferInstanceAs (Decidable (_ ∧ _))
  · exact inferInstanceAs (Decidable (_ ∧ _))
  · exact inferInstanceAs (Decidable False)

variable {world after : World}

theorem roster_eq_none_iff (quiet : world.Quiet) (graph : GraphName) (name : String) :
    world.roster graph name = none ↔ ¬ (world.graph graph).inst.Live name := by
  unfold World.roster
  rw [GraphDB.roster_ofInstance (quiet.graph graph)]
  split
  · rename_i live
    simp [live]
  · rename_i absent
    simp [absent]

theorem halfCreated_iff (quiet : world.Quiet) (name : String) :
    world.roster .primary name = none ∧ world.roster .dependency name ≠ none ↔
      ¬ world.primary.inst.Live name ∧ ¬ ¬ world.dependency.inst.Live name := by
  rw [Ne, roster_eq_none_iff quiet, roster_eq_none_iff quiet]
  rfl

theorem run_ok (quiet : world.Quiet) {call : WriteCall} {result : Bool}
    (returned : call.run world = (.ok result, after)) :
    CallStep world call.rosterChange (call.effect world) call.Apart after := by
  obtain ⟨method, args, id⟩ := call
  unfold run at returned
  dsimp only at returned
  split at returned
  · exact inEachGraph_ok (createEnvIn_spec _) quiet returned
  · exact inEachGraph_ok (removeEnvIn_spec _) quiet returned
  · exact (addClusterToEnv_ok quiet returned).1
  · exact removeClusterFromEnv_ok quiet returned
  · exact (addClusterToCluster_ok quiet returned).1
  · exact removeClusterFromCluster_ok quiet returned
  · exact removeCluster_ok quiet returned
  · exact (addHostToCluster_ok quiet returned).1
  · exact removeHostFromCluster_ok quiet returned
  · exact inEachGraph_ok (addHostIn_spec _) quiet returned
  · exact removeHost_ok quiet returned
  · exact addNodeKeyValue_ok quiet returned
  · exact removeNodeKeyValue_ok quiet returned
  · exact removeKeyFromNode_ok quiet returned
  · exact (addNodeExtDependency_ok quiet returned).1
  · exact removeNodeExtDependency_ok quiet returned
  · simp at returned

/-- A call that throws leaves the tables as they were, or its change reaches
the primary graph only. -/
theorem run_error (quiet : world.Quiet) {call : WriteCall} {error : ApiError}
    (thrown : call.run world = (.error error, after)) :
    (¬ call.HalfApplied world ∧ after.tables = world.tables ∧ after.saved = none) ∨
      (call.HalfApplied world ∧ HalfStep world (call.rosterChange .primary) after) := by
  obtain ⟨method, args, id⟩ := call
  unfold run at thrown
  dsimp only at thrown
  split at thrown
  · rcases inEachGraph_error (createEnvIn_spec _) quiet thrown with ⟨whole, same⟩ |
      ⟨accepted, refused, step⟩
    · exact Or.inl ⟨fun half => whole ((halfCreated_iff quiet _).mp half), same⟩
    · exact Or.inr ⟨(halfCreated_iff quiet _).mpr ⟨accepted, refused⟩, step⟩
  · rcases inEachGraph_error (removeEnvIn_spec _) quiet thrown with ⟨whole, same⟩ |
      ⟨accepted, refused, step⟩
    · exact Or.inl ⟨whole, same⟩
    · exact Or.inr ⟨⟨accepted, refused⟩, step⟩
  · exact Or.inl ⟨not_false, inBothTxns_error quiet thrown⟩
  · exact Or.inl ⟨not_false, removeClusterFromEnv_error quiet thrown⟩
  · exact Or.inl ⟨not_false, inBothTxns_error quiet thrown⟩
  · exact Or.inl ⟨not_false, removeClusterFromCluster_error quiet thrown⟩
  · exact Or.inl ⟨not_false, inBothTxns_error quiet thrown⟩
  · exact Or.inl ⟨not_false, inBothTxns_error quiet thrown⟩
  · exact Or.inl ⟨not_false, removeHostFromCluster_error quiet thrown⟩
  · rcases inEachGraph_error (addHostIn_spec _) quiet thrown with ⟨whole, same⟩ |
      ⟨accepted, refused, step⟩
    · exact Or.inl ⟨fun half => whole ((halfCreated_iff quiet _).mp half), same⟩
    · exact Or.inr ⟨(halfCreated_iff quiet _).mpr ⟨accepted, refused⟩, step⟩
  · exact Or.inl ⟨not_false, inBothTxns_error quiet thrown⟩
  · exact Or.inl ⟨not_false, addNodeKeyValue_error quiet thrown⟩
  · exact Or.inl ⟨not_false, removeNodeKeyValue_error quiet thrown⟩
  · exact Or.inl ⟨not_false, removeKeyFromNode_error quiet thrown⟩
  · exact Or.inl ⟨not_false, addNodeExtDependency_error quiet thrown⟩
  · exact Or.inl ⟨not_false, removeNodeExtDependency_error quiet thrown⟩
  · rename_i mismatch₁ mismatch₂ _ _ _ _ _ _ _ mismatch₃ _ _ _ _ _ _
    obtain ⟨_, rfl⟩ := Prod.mk.inj thrown
    refine Or.inl ⟨?_, rfl, quiet.saved⟩
    unfold HalfApplied
    dsimp only
    split
    · exact (mismatch₁ _ rfl rfl).elim
    · exact (mismatch₃ _ rfl rfl).elim
    · exact (mismatch₂ _ rfl rfl).elim
    · exact not_false

/-- The parent that a call links a node to is there and has the right type. -/
def ParentFound (world : World) (call : WriteCall) : Prop :=
  match call.method, call.args with
  | .addClusterToEnv, [env, _] => world.roster .primary env = some .environment
  | .addClusterToCluster, [env, parent, _] =>
      world.roster .primary (prefixedNodeName env parent) = some .cluster
  | .addHostToCluster, [env, parent, _] =>
      world.roster .primary (prefixedNodeName env parent) = some .cluster
  | _, _ => True

/-- The call creates a node of the primary graph under a name that is stored
there but not live. -/
def Revives (world : World) (call : WriteCall) : Prop :=
  Rangexx.Revives world.primary.inst (call.rosterChange .primary) ∧ call.ParentFound world

/-- The call links a node to itself. -/
def SelfLinks (world : World) (call : WriteCall) : Prop :=
  match call.method, call.args with
  | .addClusterToCluster, [env, parent, child] =>
      prefixedNodeName env parent = prefixedNodeName env child ∧
        world.roster .primary (prefixedNodeName env parent) = some .cluster
  | .addNodeExtDependency, [env, node, otherEnv, other] =>
      prefixedNodeName env node = prefixedNodeName otherEnv other ∧
        ∃ type, world.roster .dependency (prefixedNodeName env node) = some type ∧
          type ≠ .environment ∧ type ≠ .unknown
  | _, _ => False

theorem run_parentFound (quiet : world.Quiet) {call : WriteCall} {result : Bool}
    (returned : call.run world = (.ok result, after)) : call.ParentFound world := by
  obtain ⟨method, args, id⟩ := call
  unfold ParentFound
  dsimp only
  split
  · exact (addClusterToEnv_ok quiet returned).2.parent
  · exact (addClusterToCluster_ok quiet returned).2.parent
  · exact (addHostToCluster_ok quiet returned).2.1.parent
  · trivial

theorem run_apart (quiet : world.Quiet) {call : WriteCall} {result : Bool}
    (returned : call.run world = (.ok result, after)) (noLoop : ¬ call.SelfLinks world)
    (graph : GraphName) : call.Apart graph := by
  obtain ⟨method, args, id⟩ := call
  unfold Apart
  dsimp only
  split
  · intro _ same
    exact noLoop ⟨same, (addClusterToCluster_ok quiet returned).2.parent⟩
  · intro _ same
    exact noLoop ⟨same, (addNodeExtDependency_ok quiet returned).2⟩
  · trivial

theorem HalfApplied.parentFound {call : WriteCall} (half : call.HalfApplied world) :
    call.ParentFound world := by
  obtain ⟨method, args, id⟩ := call
  unfold HalfApplied at half
  dsimp only at half
  split at half
  · trivial
  · trivial
  · trivial
  · exact half.elim

end WriteCall

/-! ## Whatever the outcome -/

/-- A step of a graph, whatever the call does to its roster. -/
structure Passage (base : GraphInstance) (fresh apart : Prop) (after : GraphInstance) : Prop where
  committed : Committed after
  past : Past base after
  unrevived : fresh → Unrevived base after
  balanced : apart → Balanced base → Balanced after
  written : Written base → Written after

theorem GraphStep.passage {base after : GraphInstance} {change : Roster.Change String NodeType}
    {effect : Effect} {fresh apart fresh' apart' : Prop}
    (step : GraphStep base change effect fresh apart after)
    (freshly : fresh' → fresh) (apartly : apart' → apart) : Passage base fresh' apart' after where
  committed := step.committed
  past := step.past
  unrevived := fun isFresh => step.unrevived (freshly isFresh)
  balanced := fun isApart => step.balanced (apartly isApart)
  written := step.written

theorem Passage.unchanged {base : GraphInstance} {fresh apart : Prop}
    (committed : Committed base) : Passage base fresh apart base where
  committed := committed
  past := Past.refl base
  unrevived := fun _ => Unrevived.refl base
  balanced := fun _ balanced => balanced
  written := id

namespace WriteCall

theorem run_passage {world : World} (quiet : world.Quiet) (call : WriteCall)
    (graph : GraphName) :
    Passage (world.graph graph).inst (graph = .primary ∧ ¬ call.Revives world)
      (¬ call.SelfLinks world) ((call.run world).2.graph graph).inst := by
  cases outcome : call.run world with
  | mk result after =>
      cases result with
      | ok value =>
          refine ((run_ok quiet outcome).graphs graph).passage ?_ fun noLoop =>
            run_apart quiet outcome noLoop graph
          rintro ⟨rfl, notRevived⟩ revived
          exact notRevived ⟨revived, run_parentFound quiet outcome⟩
      | error error =>
          rcases run_error quiet outcome with ⟨_, same, _⟩ | ⟨half, step⟩
          · dsimp only
            rw [World.inst_of_tables same]
            exact Passage.unchanged (quiet.graph graph)
          · cases graph with
            | primary =>
                refine step.primary.passage ?_ fun _ => trivial
                rintro ⟨_, notRevived⟩ revived
                exact notRevived ⟨revived, half.parentFound⟩
            | dependency =>
                have unchanged : (after.graph .dependency).inst = world.dependency.inst :=
                  step.dependency
                dsimp only
                rw [unchanged]
                exact Passage.unchanged quiet.dependency

theorem run_unlocked {world : World} (quiet : world.Quiet) (call : WriteCall) :
    (call.run world).2.saved = none := by
  cases outcome : call.run world with
  | mk result after =>
      cases result with
      | ok value => exact (run_ok quiet outcome).unlocked
      | error error =>
          rcases run_error quiet outcome with ⟨_, _, unlocked⟩ | ⟨_, step⟩
          · exact unlocked
          · exact step.unlocked

theorem run_quiet {world : World} (quiet : world.Quiet) (call : WriteCall) :
    (call.run world).2.Quiet :=
  ⟨(run_passage quiet call .primary).committed, (run_passage quiet call .dependency).committed,
    run_unlocked quiet call⟩

end WriteCall

/-! ## Sequences of calls -/

namespace World

/-- The world after a sequence of calls. -/
def calls (world : World) (calls : List WriteCall) : World :=
  calls.foldl (fun world call => (call.run world).2) world

/-- Every call of a sequence has a property in the world it is made in. -/
def Along (property : World → WriteCall → Prop) : World → List WriteCall → Prop
  | _, [] => True
  | world, call :: rest => property world call ∧ Along property (call.run world).2 rest

/-- The call returns. -/
def Returns (world : World) (call : WriteCall) : Prop :=
  failed (call.run world).1 = false

instance (world : World) (call : WriteCall) : Decidable (world.Returns call) :=
  inferInstanceAs (Decidable (_ = _))

/-- A property that can be decided of a call can be decided of a sequence. -/
def Along.decidable {property : World → WriteCall → Prop}
    (each : ∀ world call, Decidable (property world call)) :
    ∀ world sequence, Decidable (Along property world sequence)
  | _, [] => inferInstanceAs (Decidable True)
  | world, call :: rest =>
      have := each world call
      have := decidable each (call.run world).2 rest
      inferInstanceAs (Decidable (property world call ∧ Along property (call.run world).2 rest))

instance (property : World → WriteCall → Prop)
    [each : ∀ world call, Decidable (property world call)] (world : World)
    (sequence : List WriteCall) : Decidable (Along property world sequence) :=
  Along.decidable each world sequence

theorem Quiet.calls {world : World} (quiet : world.Quiet) (sequence : List WriteCall) :
    (world.calls sequence).Quiet := by
  induction sequence generalizing world with
  | nil => exact quiet
  | cons call rest ih => exact ih (WriteCall.run_quiet quiet call)

theorem Along.of_forall {property : World → WriteCall → Prop} {sequence : List WriteCall}
    (always : ∀ world, ∀ call ∈ sequence, property world call) (world : World) :
    Along property world sequence := by
  induction sequence generalizing world with
  | nil => trivial
  | cons call rest ih =>
      refine ⟨always world call List.mem_cons_self, ih (fun world other member => ?_) _⟩
      exact always world other (List.mem_cons_of_mem call member)

/-- An invariant that every call keeps holds after the sequence. -/
theorem Along.calls {property : World → WriteCall → Prop} {invariant : World → Prop}
    {world : World} {sequence : List WriteCall} (along : Along property world sequence)
    (start : invariant world)
    (step : ∀ world call, invariant world → property world call →
      invariant (call.run world).2) : invariant (world.calls sequence) := by
  induction sequence generalizing world with
  | nil => exact start
  | cons call rest ih => exact ih along.2 (step world call start along.1)

theorem calls_append (world : World) (first second : List WriteCall) :
    world.calls (first ++ second) = (world.calls first).calls second := by
  simp [calls, List.foldl_append]

end World

end Rangexx
