import Rangexx.CallRuns
import Rangexx.RosterGraph

/-!
# The primary graph

Every call, returning or throwing, leaves the primary graph or takes one step
on it.  Here the step is seen as a step of a graph over the roster of live
nodes: which link it may add, and what the call has checked before it adds it.
-/

namespace Rangexx

namespace World

/-- An edge that a newly opened graph shows at one of its ends. -/
def Edge (world : World) (graph : GraphName) (source target : String) : Prop :=
  target ∈ ((world.graph graph).inst.readNode source).getEdges .forward none ∨
    source ∈ ((world.graph graph).inst.readNode target).getEdges .reverse none

instance (world : World) (graph : GraphName) (source target : String) :
    Decidable (world.Edge graph source target) :=
  inferInstanceAs (Decidable (_ ∨ _))

/-- The live nodes of a graph and the edges it shows. -/
def drawing (world : World) (graph : GraphName) : RosterGraph String NodeType :=
  ⟨world.roster graph, world.Edge graph⟩

variable {world : World}

theorem drawing_congr {after : World} {graph : GraphName}
    (same : (after.graph graph).inst = (world.graph graph).inst) :
    after.drawing graph = world.drawing graph := by
  unfold drawing roster Edge
  rw [same]

theorem Quiet.edge_iff (quiet : world.Quiet) (graph : GraphName) (source target : String) :
    world.Edge graph source target ↔
      ((world.graph graph).inst.readNode source).Present .forward target ∨
        ((world.graph graph).inst.readNode target).Present .reverse source :=
  or_congr (NodeInfo.mem_getEdges ((quiet.graph graph).wf source) .forward none target)
    (NodeInfo.mem_getEdges ((quiet.graph graph).wf target) .reverse none source)

end World

/-- A step of a graph is one of its drawing. -/
theorem GraphStep.drawing {world after : World} (graph : GraphName)
    {change : Roster.Change String NodeType} {effect : Effect} {fresh apart : Prop}
    (quiet : world.Quiet) (quietAfter : after.Quiet) (paired : Paired (world.graph graph).inst)
    (step : GraphStep (world.graph graph).inst change effect fresh apart
      (after.graph graph).inst) :
    RosterGraph.Step change (fun source target => effect = .links source target)
      (world.drawing graph) (after.drawing graph) where
  roster := step.roster
  edges := by
    intro source target edge
    change world.Edge graph source target ∨ _
    rw [quiet.edge_iff]
    rcases (quietAfter.edge_iff graph source target).mp edge with found | found
    · rcases step.wired.bound source .forward target found with old | new
      · exact Or.inl (Or.inl old)
      · exact Or.inr (effect.eq_links_of_adds_forward new)
    · rcases step.wired.bound target .reverse source found with old | new
      · exact Or.inl (Or.inr old)
      · exact Or.inr (effect.eq_links_of_adds_reverse new)
  erased := by
    intro name isErased source target edge
    rcases (quietAfter.edge_iff graph source target).mp edge with found | found
    · exact step.cleared name isErased paired source .forward target found
    · exact (step.cleared name isErased paired target .reverse source found).symm

/-! ## Links -/

/-- The edge a call adds, with the types of its ends. -/
structure Link where
  source : String
  sourceType : NodeType
  target : String
  targetType : NodeType
  deriving DecidableEq, Repr

namespace WriteCall

open RangeApi

/-- The edge of the primary graph that a call adds when it returns. -/
def link (call : WriteCall) : Option Link :=
  match call.method, call.args with
  | .addClusterToEnv, [env, cluster] =>
      some ⟨env, .environment, prefixedNodeName env cluster, .cluster⟩
  | .addClusterToCluster, [env, parent, child] =>
      some ⟨prefixedNodeName env parent, .cluster, prefixedNodeName env child, .cluster⟩
  | .addHostToCluster, [env, parent, host] =>
      some ⟨prefixedNodeName env parent, .cluster, host, .host⟩
  | _, _ => none

/-- What a call that returns has checked. -/
structure Admitted (world : World) (call : WriteCall) : Prop where
  linkable : ∀ link, call.link = some link →
    Linkable world link.source link.sourceType link.target link.targetType
  within : ∀ env parent host, call.method = .addHostToCluster →
    call.args = [env, parent, host] → world.primary.inst.Live host →
      ParentsWithin world.primary.inst env host

theorem link_of_effect {world : World} {call : WriteCall} {source target : String}
    (links : call.effect world .primary = .links source target) :
    ∃ sourceType targetType, call.link = some ⟨source, sourceType, target, targetType⟩ := by
  obtain ⟨method, args, id⟩ := call
  unfold effect at links
  dsimp only at links
  split at links
  · obtain ⟨rfl, rfl⟩ := Effect.links.inj links
    exact ⟨_, _, rfl⟩
  · obtain ⟨rfl, rfl⟩ := Effect.links.inj links
    exact ⟨_, _, rfl⟩
  · obtain ⟨rfl, rfl⟩ := Effect.links.inj links
    exact ⟨_, _, rfl⟩
  · exact absurd links (keyedEffect_ne_links _ _ _ _ _)
  · exact absurd links (keyedEffect_ne_links _ _ _ _ _)
  · exact absurd links (keyedEffect_ne_links _ _ _ _ _)
  · simp [Effect.onlyIn] at links
  · simp [quietly] at links

theorem rosterChange_of_link {call : WriteCall} {link : Link} (isLink : call.link = some link) :
    call.rosterChange .primary = .ensure link.target link.targetType := by
  obtain ⟨method, args, id⟩ := call
  unfold WriteCall.link at isLink
  dsimp only at isLink
  split at isLink
  · obtain rfl := Option.some.inj isLink
    rfl
  · obtain rfl := Option.some.inj isLink
    rfl
  · obtain rfl := Option.some.inj isLink
    rfl
  · simp at isLink

variable {world after : World}

theorem run_admitted (quiet : world.Quiet) {call : WriteCall} {result : Bool}
    (returned : call.run world = (.ok result, after)) : call.Admitted world := by
  obtain ⟨method, args, id⟩ := call
  constructor
  · intro link isLink
    unfold WriteCall.link at isLink
    dsimp only at isLink
    split at isLink
    · obtain rfl := Option.some.inj isLink
      exact (addClusterToEnv_ok quiet returned).2
    · obtain rfl := Option.some.inj isLink
      exact (addClusterToCluster_ok quiet returned).2
    · obtain rfl := Option.some.inj isLink
      exact (addHostToCluster_ok quiet returned).2.1
    · simp at isLink
  · rintro env parent host ⟨⟩ ⟨⟩
    exact (addHostToCluster_ok quiet returned).2.2

/-- A call that is applied to the primary graph only adds no edge. -/
theorem HalfApplied.unlinked {call : WriteCall} (half : call.HalfApplied world) :
    call.Admitted world ∧ call.effect world .primary = .still := by
  obtain ⟨method, args, id⟩ := call
  unfold HalfApplied at half
  dsimp only at half
  split at half
  · exact ⟨⟨by simp [link], by simp⟩, rfl⟩
  · exact ⟨⟨by simp [link], by simp⟩, rfl⟩
  · exact ⟨⟨by simp [link], by simp⟩, rfl⟩
  · exact half.elim

/-- A call leaves the primary graph or takes its step there. -/
theorem run_primary (quiet : world.Quiet) (call : WriteCall) :
    (call.run world).2.primary.inst = world.primary.inst ∨
      call.Admitted world ∧ GraphStep world.primary.inst (call.rosterChange .primary)
        (call.effect world .primary)
        (¬ Rangexx.Revives world.primary.inst (call.rosterChange .primary))
        (call.Apart .primary) (call.run world).2.primary.inst := by
  cases outcome : call.run world with
  | mk result after =>
      cases result with
      | ok value =>
          exact Or.inr ⟨run_admitted quiet outcome, (run_ok quiet outcome).graphs .primary⟩
      | error error =>
          rcases run_error quiet outcome with ⟨_, same, _⟩ | ⟨half, step⟩
          · exact Or.inl (congrArg Tables.primary same)
          · obtain ⟨admitted, unlinked⟩ := half.unlinked
            rw [unlinked]
            exact Or.inr ⟨admitted, step.primary.mono (fun fresh => fresh) fun _ => trivial⟩

end WriteCall

/-! ## Rules for edges -/

/-- The state between two calls, as far as the edges of the primary graph
go. -/
structure World.Regular (world : World) : Prop where
  quiet : world.Quiet
  paired : Paired world.primary.inst

theorem World.empty_regular : World.empty.Regular :=
  ⟨empty_quiet, Paired.empty⟩

section Rules

open RangeApi

variable {world : World} {rule : String → NodeType → String → NodeType → Prop}

theorem World.obeys_empty : (World.empty.drawing .primary).Obeys rule := by
  intro source target edge
  rcases edge with found | found
  · exact absurd found List.not_mem_nil
  · exact absurd found List.not_mem_nil

theorem World.Regular.run (regular : world.Regular) (call : WriteCall) :
    (call.run world).2.Regular := by
  refine ⟨WriteCall.run_quiet regular.quiet call, ?_⟩
  rcases WriteCall.run_primary regular.quiet call with same | ⟨_, step⟩
  · rw [same]
    exact regular.paired
  · exact step.wired.paired regular.paired

/-- A call leaves the drawing of the primary graph or takes its step there. -/
theorem World.Regular.drawn (regular : world.Regular) (call : WriteCall) :
    (call.run world).2.drawing .primary = world.drawing .primary ∨
      call.Admitted world ∧ RosterGraph.Step (call.rosterChange .primary)
        (fun source target => call.effect world .primary = .links source target)
        (world.drawing .primary) ((call.run world).2.drawing .primary) := by
  rcases WriteCall.run_primary regular.quiet call with same | ⟨admitted, step⟩
  · exact Or.inl (drawing_congr same)
  · exact Or.inr ⟨admitted, GraphStep.drawing .primary regular.quiet (regular.run call).quiet
      regular.paired step⟩

/-- The ends of a link have their types after the call. -/
theorem RangeApi.Linkable.after {change : Roster.Change String NodeType}
    {parent name : String} {parentType type : NodeType}
    (linkable : Linkable world parent parentType name type)
    (isChange : change = .ensure name type) :
    change.apply (world.roster .primary) parent = some parentType ∧
      change.apply (world.roster .primary) name = some type := by
  subst isChange
  refine ⟨Roster.Change.apply_of_some _ linkable.parent (by simp), ?_⟩
  simp only [Roster.Change.apply, if_true]
  cases isFound : world.roster .primary name with
  | none => rfl
  | some found => rw [linkable.child found isFound, Option.getD_some]

/-- A rule for edges holds after a call when it holds before and for the link
that the call adds. -/
theorem World.Regular.obeys (regular : world.Regular)
    (obeys : (world.drawing .primary).Obeys rule) (call : WriteCall)
    (allowed : ∀ link, call.link = some link →
      Linkable world link.source link.sourceType link.target link.targetType →
        rule link.source link.sourceType link.target link.targetType) :
    ((call.run world).2.drawing .primary).Obeys rule := by
  rcases regular.drawn call with same | ⟨admitted, drawn⟩
  · rw [same]
    exact obeys
  · apply obeys.step drawn
    intro source target links
    obtain ⟨sourceType, targetType, isLink⟩ := WriteCall.link_of_effect links
    have linkable := admitted.linkable _ isLink
    obtain ⟨isSource, isTarget⟩ := linkable.after (WriteCall.rosterChange_of_link isLink)
    rw [drawn.roster]
    exact ⟨sourceType, targetType, isSource, isTarget, allowed _ isLink linkable⟩

end Rules

end Rangexx
