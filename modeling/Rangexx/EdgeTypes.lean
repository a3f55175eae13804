import Rangexx.PrimaryGraph

/-!
# Types along edges

Calls with plain environment names draw edges from an environment `e` to
clusters `e#…`, between two clusters of one environment and from a cluster to a
host.  The one exception is `add_cluster_to_cluster` with an empty child name:
`prefixed_node_name` then yields the name of the environment, and unlike
`add_cluster_to_env` the call does not ask for the environment, so once that is
removed the call creates a cluster under its name.
-/

namespace Rangexx

open RangeApi

/-- The name is `env#…`. -/
def InEnvironment (env name : String) : Prop :=
  (env ++ "#").toList <+: name.toList

instance (env name : String) : Decidable (InEnvironment env name) :=
  inferInstanceAs (Decidable (_ <+: _))

/-- An environment name that is not empty and has no separator in it. -/
def PlainName (env : String) : Prop :=
  env ≠ "" ∧ '#' ∉ env.toList

instance (env : String) : Decidable (PlainName env) :=
  inferInstanceAs (Decidable (_ ∧ _))

theorem inEnvironment_prefixed {env node : String} (envNamed : env ≠ "") (nodeNamed : node ≠ "") :
    InEnvironment env (prefixedNodeName env node) := by
  rw [prefixedNodeName_of_ne env nodeNamed, envPrefix_of_ne envNamed, InEnvironment]
  simp

theorem InEnvironment.separator_mem {env name : String} (within : InEnvironment env name) :
    '#' ∈ name.toList :=
  within.subset (by simp)

/-- The edges the primary graph is meant to have. -/
def LegalEdge (source : String) (sourceType : NodeType) (target : String)
    (targetType : NodeType) : Prop :=
  match sourceType, targetType with
  | .environment, .cluster => InEnvironment source target
  | .cluster, .cluster =>
      ∃ env, PlainName env ∧ InEnvironment env source ∧ InEnvironment env target
  | .cluster, .host => True
  | _, _ => False

namespace WriteCall

/-- The environment names among the arguments of a call. -/
def envNames (call : WriteCall) : List String :=
  match call.method, call.args with
  | .addHost, _ => []
  | .addNodeExtDependency, [env, _, otherEnv, _] => [env, otherEnv]
  | .removeNodeExtDependency, [env, _, otherEnv, _] => [env, otherEnv]
  | _, env :: _ => [env]
  | _, [] => []

/-- The call creates a cluster under the name of an environment that is not
there. -/
def BareCluster (world : World) (call : WriteCall) : Prop :=
  match call.method, call.args with
  | .addClusterToCluster, [env, parent, child] => child = "" ∧
      world.roster .primary (prefixedNodeName env parent) = some .cluster ∧
        world.roster .primary env = none
  | _, _ => False

/-- The two calls that create clusters. -/
theorem link_of_cluster {call : WriteCall} {name : String}
    (creates : call.rosterChange .primary = .ensure name .cluster) :
    (∃ env cluster, name = prefixedNodeName env cluster ∧ env ∈ call.envNames ∧
      call.link = some ⟨env, .environment, name, .cluster⟩) ∨
    ∃ env parent child, name = prefixedNodeName env child ∧ env ∈ call.envNames ∧
      call.method = .addClusterToCluster ∧ call.args = [env, parent, child] ∧
      call.link = some ⟨prefixedNodeName env parent, .cluster, name, .cluster⟩ := by
  obtain ⟨method, args, id⟩ := call
  unfold rosterChange at creates
  dsimp only at creates
  split at creates
  · simp [onBoth] at creates
  · simp [onBoth] at creates
  · obtain ⟨rfl, _⟩ := Roster.Change.ensure.inj creates
    exact Or.inl ⟨_, _, rfl, List.mem_singleton_self _, rfl⟩
  · obtain ⟨rfl, _⟩ := Roster.Change.ensure.inj creates
    exact Or.inr ⟨_, _, _, rfl, List.mem_singleton_self _, rfl, rfl, rfl⟩
  · simp [onBoth] at creates
  · simp [onBoth] at creates
  · simp [onPrimary] at creates
  · simp [onPrimary] at creates
  · simp [onBoth] at creates

end WriteCall

/-- What calls with plain environment names keep. -/
structure World.EnvironmentLocal (world : World) : Prop where
  regular : world.Regular
  named : ∀ name, world.roster .primary name = some .cluster →
    ∃ env, PlainName env ∧ InEnvironment env name
  legal : (world.drawing .primary).Obeys LegalEdge

namespace World.EnvironmentLocal

variable {world : World} {call : WriteCall}

theorem not_cluster (typed : world.EnvironmentLocal) {env : String} (plain : PlainName env) :
    world.roster .primary env ≠ some .cluster := by
  intro isCluster
  obtain ⟨_, _, within⟩ := typed.named env isCluster
  exact plain.2 within.separator_mem

/-- An environment does not become a cluster of itself. -/
theorem cluster_named {env cluster : String}
    (linkable : Linkable world env .environment (prefixedNodeName env cluster) .cluster) :
    cluster ≠ "" := by
  rintro rfl
  have isCluster := linkable.child .environment (by
    rw [prefixedNodeName_empty]
    exact linkable.parent)
  simp at isCluster

theorem clusters_named (typed : world.EnvironmentLocal) {env parent child : String}
    (plain : PlainName env)
    (notBare : ¬ (child = "" ∧ world.roster .primary (prefixedNodeName env parent) =
      some .cluster ∧ world.roster .primary env = none))
    (linkable : Linkable world (prefixedNodeName env parent) .cluster
      (prefixedNodeName env child) .cluster) : parent ≠ "" ∧ child ≠ "" := by
  constructor
  · rintro rfl
    have isCluster := linkable.parent
    rw [prefixedNodeName_empty] at isCluster
    exact typed.not_cluster plain isCluster
  · rintro rfl
    have fits := linkable.child
    rw [prefixedNodeName_empty] at fits
    cases isFound : world.roster .primary env with
    | none => exact notBare ⟨rfl, linkable.parent, isFound⟩
    | some found => exact typed.not_cluster plain (isFound.trans (congrArg some (fits found isFound)))

/-- The link of a call obeys the rule. -/
theorem link_legal (typed : world.EnvironmentLocal) (plain : ∀ env ∈ call.envNames, PlainName env)
    (notBare : ¬ call.BareCluster world) {link : Link} (isLink : call.link = some link)
    (linkable : Linkable world link.source link.sourceType link.target link.targetType) :
    LegalEdge link.source link.sourceType link.target link.targetType := by
  obtain ⟨method, args, id⟩ := call
  unfold WriteCall.link at isLink
  dsimp only at isLink
  split at isLink
  · obtain rfl := Option.some.inj isLink
    have envPlain := plain _ (List.mem_singleton_self _)
    exact inEnvironment_prefixed envPlain.1 (cluster_named linkable)
  · obtain rfl := Option.some.inj isLink
    have envPlain := plain _ (List.mem_singleton_self _)
    obtain ⟨parentNamed, childNamed⟩ := typed.clusters_named envPlain notBare linkable
    exact ⟨_, envPlain, inEnvironment_prefixed envPlain.1 parentNamed,
      inEnvironment_prefixed envPlain.1 childNamed⟩
  · obtain rfl := Option.some.inj isLink
    exact trivial
  · simp at isLink

/-- A cluster that a call creates has a name `env#…`. -/
theorem created_named (typed : world.EnvironmentLocal)
    (plain : ∀ env ∈ call.envNames, PlainName env) (notBare : ¬ call.BareCluster world)
    (admitted : call.Admitted world) {name : String}
    (creates : call.rosterChange .primary = .ensure name .cluster) :
    ∃ env, PlainName env ∧ InEnvironment env name := by
  rcases WriteCall.link_of_cluster creates with ⟨env, cluster, rfl, member, isLink⟩ |
    ⟨env, parent, child, rfl, member, isMethod, areArgs, isLink⟩
  · exact ⟨env, plain env member, inEnvironment_prefixed (plain env member).1
      (cluster_named (admitted.linkable _ isLink))⟩
  · have bare : ¬ (child = "" ∧ world.roster .primary (prefixedNodeName env parent) =
        some .cluster ∧ world.roster .primary env = none) := by
      unfold WriteCall.BareCluster at notBare
      rw [isMethod, areArgs] at notBare
      exact notBare
    have childNamed := (typed.clusters_named (plain env member) bare
      (admitted.linkable _ isLink)).2
    exact ⟨env, plain env member, inEnvironment_prefixed (plain env member).1 childNamed⟩

theorem run (typed : world.EnvironmentLocal) (plain : ∀ env ∈ call.envNames, PlainName env)
    (notBare : ¬ call.BareCluster world) : (call.run world).2.EnvironmentLocal where
  regular := typed.regular.run call
  named := by
    intro name isCluster
    rcases typed.regular.drawn call with same | ⟨admitted, drawn⟩
    · have unchanged : (call.run world).2.roster .primary = world.roster .primary :=
        congrArg RosterGraph.roster same
      rw [unchanged] at isCluster
      exact typed.named name isCluster
    · have created := (congrFun drawn.roster name).symm.trans isCluster
      rcases Roster.Change.of_apply_eq_some created with old | ⟨_, creates⟩
      · exact typed.named name old
      · exact typed.created_named plain notBare admitted creates
  legal := typed.regular.obeys typed.legal call fun _ isLink linkable =>
    typed.link_legal plain notBare isLink linkable

end World.EnvironmentLocal

theorem World.empty_environmentLocal : World.empty.EnvironmentLocal where
  regular := empty_regular
  named := by
    intro name isCluster
    have unused : World.empty.roster .primary name = none := rfl
    rw [unused] at isCluster
    simp at isCluster
  legal := obeys_empty

/-- Every edge of the primary graph leads from an environment to one of its
clusters, between two clusters of one environment or from a cluster to a host;
hence environments have no parents and hosts no children. -/
structure World.TypedEdges (world : World) : Prop where
  edges : ∀ source target, world.Edge .primary source target → ∃ sourceType targetType,
    world.roster .primary source = some sourceType ∧
    world.roster .primary target = some targetType ∧
    LegalEdge source sourceType target targetType
  environments : ∀ name, world.roster .primary name = some .environment →
    ∀ source, ¬ world.Edge .primary source name
  hosts : ∀ name, world.roster .primary name = some .host →
    ∀ target, ¬ world.Edge .primary name target

namespace World

variable {world : World}

theorem EnvironmentLocal.typedEdges (typed : world.EnvironmentLocal) : world.TypedEdges where
  edges := typed.legal
  environments := by
    intro name isEnvironment source edge
    obtain ⟨sourceType, targetType, _, isTarget, legal⟩ := typed.legal source name edge
    obtain rfl := Option.some.inj (isEnvironment.symm.trans isTarget)
    cases sourceType <;> exact legal
  hosts := by
    intro name isHost target edge
    obtain ⟨sourceType, targetType, isSource, _, legal⟩ := typed.legal name target edge
    obtain rfl := Option.some.inj (isHost.symm.trans isSource)
    exact legal

/-- A call that creates a cluster under the name of a missing environment draws
an edge to it. -/
theorem Quiet.not_typedEdges_of_bareCluster (quiet : world.Quiet) {call : WriteCall}
    (plain : ∀ env ∈ call.envNames, PlainName env) (bare : call.BareCluster world) :
    ¬ (call.run world).2.TypedEdges := by
  intro typed
  obtain ⟨method, args, id⟩ := call
  unfold WriteCall.BareCluster at bare
  dsimp only at bare
  split at bare
  · rename_i env parent child
    obtain ⟨rfl, isParent, missing⟩ := bare
    have linkable : Linkable world (prefixedNodeName env parent) .cluster
        (prefixedNodeName env "") .cluster := by
      refine ⟨isParent, ?_⟩
      rw [prefixedNodeName_empty, missing]
      simp
    obtain ⟨after, returned⟩ := addClusterToCluster_returns quiet linkable id
    have step := (addClusterToCluster_ok quiet returned).1.graphs .primary
    have ran : (WriteCall.run ⟨.addClusterToCluster, [env, parent, ""], id⟩ world).2 = after :=
      congrArg Prod.snd returned
    have quietAfter := WriteCall.run_quiet quiet ⟨.addClusterToCluster, [env, parent, ""], id⟩
    rw [ran] at typed quietAfter
    have edge := (quietAfter.edge_iff .primary _ _).mpr (step.wired.linked _ _ rfl)
    obtain ⟨sourceType, targetType, isSource, isTarget, legal⟩ := typed.edges _ _ edge
    obtain ⟨sourceAfter, targetAfter⟩ := linkable.after rfl
    obtain rfl := Option.some.inj
      (sourceAfter.symm.trans ((congrFun step.roster _).symm.trans isSource))
    obtain rfl := Option.some.inj
      (targetAfter.symm.trans ((congrFun step.roster _).symm.trans isTarget))
    obtain ⟨_, _, _, within⟩ := legal
    rw [prefixedNodeName_empty] at within
    exact (plain env (List.mem_singleton_self env)).2 within.separator_mem
  · exact bare

/-- With plain environment names, the edges stay typed through a run exactly
when no call of it creates a cluster under the name of a missing environment. -/
theorem EnvironmentLocal.typedEdges_iff (typed : world.EnvironmentLocal)
    {sequence : List WriteCall}
    (plain : ∀ call ∈ sequence, ∀ env ∈ call.envNames, PlainName env) :
    (∀ front, front <+: sequence → (world.calls front).TypedEdges) ↔
      Along (fun world call => ¬ call.BareCluster world) world sequence := by
  induction sequence generalizing world with
  | nil =>
      refine ⟨fun _ => trivial, fun _ front isPrefix => ?_⟩
      rw [List.prefix_nil.mp isPrefix]
      exact typed.typedEdges
  | cons call rest ih =>
      have callPlain := plain call List.mem_cons_self
      have restPlain : ∀ other ∈ rest, ∀ env ∈ other.envNames, PlainName env :=
        fun other member => plain other (List.mem_cons_of_mem call member)
      constructor
      · intro always
        have notBare : ¬ call.BareCluster world := by
          intro bare
          exact typed.regular.quiet.not_typedEdges_of_bareCluster callPlain bare
            (always [call] (by simp))
        refine ⟨notBare, (ih (typed.run callPlain notBare) restPlain).mp ?_⟩
        intro front isPrefix
        exact always (call :: front) (List.cons_prefix_cons.mpr ⟨rfl, isPrefix⟩)
      · rintro ⟨notBare, along⟩ front isPrefix
        cases front with
        | nil => exact typed.typedEdges
        | cons first more =>
            obtain ⟨rfl, morePrefix⟩ := List.cons_prefix_cons.mp isPrefix
            exact (ih (typed.run callPlain notBare) restPlain).mpr along more morePrefix

/-- The same from an empty store. -/
theorem edges_typed_iff (sequence : List WriteCall)
    (plain : ∀ call ∈ sequence, ∀ env ∈ call.envNames, PlainName env) :
    (∀ front, front <+: sequence → (empty.calls front).TypedEdges) ↔
      Along (fun world call => ¬ call.BareCluster world) empty sequence :=
  empty_environmentLocal.typedEdges_iff plain

/-- An environment with two clusters and a host. -/
def hostedStore : List WriteCall :=
  [⟨.createEnv, ["e"], 1⟩, ⟨.addClusterToEnv, ["e", "c"], 2⟩,
    ⟨.addClusterToCluster, ["e", "c", "d"], 3⟩, ⟨.addHostToCluster, ["e", "d", "h"], 4⟩]

theorem edges_typed_hostedStore :
    (empty.calls hostedStore).Edge .primary "e#c" "e#d" ∧
      (empty.calls hostedStore).TypedEdges := by
  have plain : ∀ call ∈ hostedStore, ∀ env ∈ call.envNames, PlainName env := by decide
  have notBare : Along (fun world call => ¬ call.BareCluster world) empty hostedStore := by
    refine ⟨not_false, not_false, ?_, not_false, trivial⟩
    rintro ⟨isEmpty, _⟩
    simp at isEmpty
  exact ⟨by decide +kernel, (edges_typed_iff hostedStore plain).mpr notBare hostedStore
    List.prefix_rfl⟩

/-- An environment is removed before its cluster, and then the cluster is given
a child without a name. -/
def childOfMissing : List WriteCall :=
  [⟨.createEnv, ["e"], 1⟩, ⟨.addClusterToEnv, ["e", "c"], 2⟩, ⟨.removeEnv, ["e"], 3⟩,
    ⟨.addClusterToCluster, ["e", "c", ""], 4⟩]

/-- The child is a cluster with the name of the environment. -/
theorem edges_untyped_childOfMissing :
    (∀ call ∈ childOfMissing, ∀ env ∈ call.envNames, PlainName env) ∧
      Along Returns empty childOfMissing ∧
      (empty.calls childOfMissing).Edge .primary "e#c" "e" ∧
      (empty.calls childOfMissing).roster .primary "e#c" = some .cluster ∧
      (empty.calls childOfMissing).roster .primary "e" = some .cluster ∧
      ¬ LegalEdge "e#c" .cluster "e" .cluster := by
  refine ⟨by decide, by decide +kernel, by decide +kernel, by decide +kernel,
    by decide +kernel, ?_⟩
  rintro ⟨env, _, _, within⟩
  have separated := within.separator_mem
  simp at separated

end World

end Rangexx
