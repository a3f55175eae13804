import Mathlib.Data.Set.Function
import Rangexx.PrimaryGraph

/-!
# The name space of the primary graph

Environments, clusters and hosts are stored under one kind of name: a cluster
under the prefix of its environment, the others under their own names.  No call
checks its arguments for a `#`, so whether two entities share a node is a
matter of the names in use.
-/

namespace Rangexx

open RangeApi

/-- What the arguments of a call stand for. -/
inductive Entity where
  | environment (env : String)
  | cluster (env name : String)
  | host (name : String)
  deriving DecidableEq, Repr

namespace Entity

/-- The name of the node that stands for an entity. -/
def storedName : Entity → String
  | .environment env => env
  | .cluster env name => prefixedNodeName env name
  | .host name => name

/-- The entity has its names from the given ones, and a cluster has a name. -/
def Within (envs hosts : Set String) : Entity → Prop
  | .environment env => env ∈ envs
  | .cluster env name => env ∈ envs ∧ name ≠ ""
  | .host name => name ∈ hosts

/-- An environment, when the name of the cluster is empty. -/
def clusterOf (env name : String) : Entity :=
  if name = "" then .environment env else .cluster env name

theorem storedName_clusterOf (env name : String) :
    (clusterOf env name).storedName = prefixedNodeName env name := by
  unfold clusterOf
  split
  · rename_i isEmpty
    rw [isEmpty, prefixedNodeName_empty]
    rfl
  · rfl

end Entity

/-! ## When names differ -/

/-- No environment name starts with the prefix of another environment, and no
host has the name of an environment or one that a cluster may have. -/
structure NamesApart (envs hosts : Set String) : Prop where
  environments : ∀ env ∈ envs, ∀ other ∈ envs, env ≠ other →
    ¬ (envPrefix env).toList <+: other.toList
  hosts : ∀ env ∈ envs, ∀ host ∈ hosts, host ≠ env ∧
    ¬ ((envPrefix env).toList <+: host.toList ∧ host ≠ envPrefix env)

theorem toList_envPrefix {env : String} (named : env ≠ "") :
    (envPrefix env).toList = env.toList ++ ['#'] := by
  rw [envPrefix_of_ne named, String.toList_append]
  rfl

theorem envPrefix_empty : envPrefix "" = "" :=
  rfl

/-- One prefix of another environment's prefix is one of its name. -/
theorem eq_or_prefix_of_envPrefix {env other : String}
    (isPrefix : (envPrefix env).toList <+: (envPrefix other).toList) :
    env = other ∨ (envPrefix env).toList <+: other.toList := by
  by_cases otherEmpty : other = ""
  · subst otherEmpty
    exact Or.inr isPrefix
  rw [toList_envPrefix otherEmpty, List.prefix_concat_iff] at isPrefix
  rcases isPrefix with same | shorter
  · by_cases empty : env = ""
    · rw [empty, envPrefix_empty] at same
      simp at same
    · rw [toList_envPrefix empty] at same
      exact Or.inl (String.toList_inj.mp (List.append_cancel_right same))
  · exact Or.inr shorter

theorem prefix_prefixedNodeName (env : String) {name : String} (named : name ≠ "") :
    (envPrefix env).toList <+: (prefixedNodeName env name).toList := by
  rw [prefixedNodeName_of_ne env named, String.toList_append]
  exact List.prefix_append _ _

/-- A cluster does not have the name of its own environment. -/
theorem prefixedNodeName_ne (env : String) {name : String} (named : name ≠ "") :
    prefixedNodeName env name ≠ env := by
  rw [prefixedNodeName_of_ne env named]
  intro same
  by_cases empty : env = ""
  · rw [empty, envPrefix_empty, String.empty_append] at same
    exact named same
  · have lengths := congrArg List.length (congrArg String.toList same)
    rw [String.toList_append, toList_envPrefix empty, List.length_append, List.length_append,
      List.length_singleton] at lengths
    omega

namespace NamesApart

variable {envs hosts : Set String} (apart : NamesApart envs hosts)

include apart

theorem environment_ne_cluster {env other name : String} (isEnv : env ∈ envs)
    (isOther : other ∈ envs) (named : name ≠ "") : env ≠ prefixedNodeName other name := by
  intro same
  by_cases equal : other = env
  · rw [equal] at same
    exact prefixedNodeName_ne env named same.symm
  · apply apart.environments other isOther env isEnv equal
    rw [same]
    exact prefix_prefixedNodeName other named

theorem host_ne_cluster {env host name : String} (isEnv : env ∈ envs) (isHost : host ∈ hosts)
    (named : name ≠ "") : host ≠ prefixedNodeName env name := by
  intro same
  refine (apart.hosts env isEnv host isHost).2 ⟨?_, ?_⟩
  · rw [same]
    exact prefix_prefixedNodeName env named
  · rw [same, prefixedNodeName_of_ne env named]
    intro bare
    exact named ((String.append_right_inj _).mp (bare.trans String.append_empty.symm))

theorem cluster_inj {env other name otherName : String} (isEnv : env ∈ envs)
    (isOther : other ∈ envs) (named : name ≠ "") (otherNamed : otherName ≠ "")
    (same : prefixedNodeName env name = prefixedNodeName other otherName) :
    env = other ∧ name = otherName := by
  have sameEnv : env = other := by
    have first := prefix_prefixedNodeName env named
    have second := prefix_prefixedNodeName other otherNamed
    rw [same] at first
    rcases List.prefix_or_prefix_of_prefix first second with shorter | shorter
    · by_contra differ
      rcases eq_or_prefix_of_envPrefix shorter with equal | isPrefix
      · exact differ equal
      · exact apart.environments env isEnv other isOther differ isPrefix
    · by_contra differ
      rcases eq_or_prefix_of_envPrefix shorter with equal | isPrefix
      · exact differ equal.symm
      · exact apart.environments other isOther env isEnv (Ne.symm differ) isPrefix
  subst sameEnv
  rw [prefixedNodeName_of_ne env named, prefixedNodeName_of_ne env otherNamed] at same
  exact ⟨rfl, (String.append_right_inj _).mp same⟩

theorem injOn_storedName : Set.InjOn Entity.storedName {entity | entity.Within envs hosts} := by
  intro first isFirst second isSecond same
  cases first with
  | environment env =>
      cases second with
      | environment other => exact congrArg Entity.environment same
      | cluster other name =>
          exact absurd same (apart.environment_ne_cluster isFirst isSecond.1 isSecond.2)
      | host name => exact absurd same.symm (apart.hosts env isFirst name isSecond).1
  | cluster env name =>
      cases second with
      | environment other =>
          exact absurd same.symm (apart.environment_ne_cluster isSecond isFirst.1 isFirst.2)
      | cluster other otherName =>
          obtain ⟨rfl, rfl⟩ := apart.cluster_inj isFirst.1 isSecond.1 isFirst.2 isSecond.2 same
          rfl
      | host other =>
          exact absurd same.symm (apart.host_ne_cluster isFirst.1 isSecond isFirst.2)
  | host name =>
      cases second with
      | environment other => exact absurd same (apart.hosts other isSecond name isFirst).1
      | cluster other otherName =>
          exact absurd same (apart.host_ne_cluster isSecond.1 isFirst isSecond.2)
      | host other => exact congrArg Entity.host same

end NamesApart

/-- Names that are not apart are shared by two entities. -/
theorem namesApart_of_injOn {envs hosts : Set String}
    (injective : Set.InjOn Entity.storedName {entity | entity.Within envs hosts}) :
    NamesApart envs hosts where
  environments := by
    rintro env isEnv other isOther differ ⟨rest, split⟩
    have otherNamed : other ≠ "" := by
      rintro rfl
      have nothing := List.append_eq_nil_iff.mp (split.trans String.toList_empty)
      by_cases empty : env = ""
      · exact differ empty
      · rw [toList_envPrefix empty] at nothing
        simp at nothing
    -- A cluster of the longer environment is one of the shorter as well.
    have shared : (Entity.cluster other "c").storedName =
        (Entity.cluster env (String.ofList rest ++ "#c")).storedName := by
      change prefixedNodeName other "c" = prefixedNodeName env (String.ofList rest ++ "#c")
      rw [prefixedNodeName_of_ne other (by simp), prefixedNodeName_of_ne env (by simp)]
      apply String.toList_inj.mp
      simp only [String.toList_append, toList_envPrefix otherNamed, ← split, String.toList_ofList,
        List.append_assoc]
      rfl
    have same := injective (show Entity.Within envs hosts (.cluster other "c") from
      ⟨isOther, by simp⟩) (show Entity.Within envs hosts (.cluster env _) from ⟨isEnv, by simp⟩)
      shared
    exact differ (Entity.cluster.inj same).1.symm
  hosts := by
    intro env isEnv host isHost
    constructor
    · intro isName
      have shared : (Entity.host host).storedName = (Entity.environment env).storedName := isName
      have same := injective (show Entity.Within envs hosts (.host host) from isHost)
        (show Entity.Within envs hosts (.environment env) from isEnv) shared
      simp at same
    · rintro ⟨⟨rest, split⟩, differs⟩
      have named : String.ofList rest ≠ "" := by
        intro empty
        have nothing : rest = [] := by simpa using congrArg String.toList empty
        rw [nothing, List.append_nil] at split
        exact differs (String.toList_inj.mp split).symm
      have shared : (Entity.host host).storedName =
          (Entity.cluster env (String.ofList rest)).storedName := by
        change host = prefixedNodeName env (String.ofList rest)
        rw [prefixedNodeName_of_ne env named]
        apply String.toList_inj.mp
        rw [String.toList_append, String.toList_ofList, split]
      have same := injective (show Entity.Within envs hosts (.host host) from isHost)
        (show Entity.Within envs hosts (.cluster env _) from ⟨isEnv, named⟩) shared
      simp at same

/-! ## What calls name -/

/-- The entities a call on keys may stand for: an environment, or a cluster
and, when there is no such cluster, a host. -/
def Entity.keyed (env node : String) : List Entity :=
  if node = "" ∨ node = env then [.environment env]
  else if env = "" then [.host node]
  else [.cluster env node, .host node]

/-- The entity an end of an external dependency stands for: that of a node
without an environment is a host. -/
def Entity.endpoint (env node : String) : Entity :=
  if node ≠ "" ∧ env = "" then .host node else .clusterOf env node

namespace WriteCall

/-- The entities that the arguments of a call name. -/
def entities (call : WriteCall) : List Entity :=
  match call.method, call.args with
  | .createEnv, [env] => [.environment env]
  | .removeEnv, [env] => [.environment env]
  | .addClusterToEnv, [env, cluster] => [.environment env, .clusterOf env cluster]
  | .removeClusterFromEnv, [env, cluster] => [.environment env, .clusterOf env cluster]
  | .addClusterToCluster, [env, parent, child] => [.clusterOf env parent, .clusterOf env child]
  | .removeClusterFromCluster, [env, parent, child] =>
      [.clusterOf env parent, .clusterOf env child]
  | .removeCluster, [env, cluster] => [.clusterOf env cluster]
  | .addHostToCluster, [env, parent, host] => [.clusterOf env parent, .host host]
  | .removeHostFromCluster, [env, parent, host] => [.clusterOf env parent, .host host]
  | .addHost, [host] => [.host host]
  | .removeHost, [env, host] => [.environment env, .host host]
  | .addNodeKeyValue, [env, node, _, _] => Entity.keyed env node
  | .removeNodeKeyValue, [env, node, _, _] => Entity.keyed env node
  | .removeKeyFromNode, [env, node, _] => Entity.keyed env node
  | .addNodeExtDependency, [env, node, otherEnv, other] =>
      [.endpoint env node, .endpoint otherEnv other]
  | .removeNodeExtDependency, [env, node, otherEnv, other] =>
      [.endpoint env node, .endpoint otherEnv other]
  | _, _ => []

/-- A name that the roster of the primary graph may change at belongs to an
entity the call names. -/
theorem entity_of_rosterChange {call : WriteCall} {roster : Roster String NodeType}
    {name : String} (changes : (call.rosterChange .primary).apply roster name ≠ roster name) :
    ∃ entity ∈ call.entities, entity.storedName = name := by
  have ensured : ∀ {other : String} {type : NodeType},
      (Roster.Change.ensure other type).apply roster name ≠ roster name → other = name := by
    intro other type differs
    by_contra same
    exact differs (if_neg (Ne.symm same))
  have erased : ∀ {other : String},
      (.erase other : Roster.Change String NodeType).apply roster name ≠ roster name →
        other = name := by
    intro other differs
    by_contra same
    exact differs (if_neg (Ne.symm same))
  obtain ⟨method, args, id⟩ := call
  unfold rosterChange at changes
  dsimp only at changes
  split at changes
  · exact ⟨_, List.mem_singleton_self _, ensured changes⟩
  · exact ⟨_, List.mem_singleton_self _, erased changes⟩
  · exact ⟨.clusterOf _ _, List.mem_cons_of_mem _ (List.mem_singleton_self _),
      (Entity.storedName_clusterOf _ _).trans (ensured changes)⟩
  · exact ⟨.clusterOf _ _, List.mem_cons_of_mem _ (List.mem_singleton_self _),
      (Entity.storedName_clusterOf _ _).trans (ensured changes)⟩
  · exact ⟨.host _, List.mem_cons_of_mem _ (List.mem_singleton_self _), ensured changes⟩
  · exact ⟨.host _, List.mem_singleton_self _, ensured changes⟩
  · exact ⟨.clusterOf _ _, List.mem_singleton_self _,
      (Entity.storedName_clusterOf _ _).trans (erased changes)⟩
  · exact ⟨.host _, List.mem_cons_of_mem _ (List.mem_singleton_self _), erased changes⟩
  · exact absurd rfl changes

/-- So does the name of a node whose tags a call may change. -/
theorem entity_of_keyedEffect {world : World} {env node name : String}
    (tagged : (keyedEffect world env node).Tags name) :
    ∃ entity ∈ Entity.keyed env node, entity.storedName = name := by
  unfold keyedEffect at tagged
  split at tagged
  · rename_i chosen choice
    obtain rfl : name = chosen := tagged
    unfold Entity.keyed
    rcases resolve_eq_some choice with ⟨isEnv, rfl⟩ | ⟨notEnv, rfl, rfl⟩ |
      ⟨notEnv, envNamed, rfl | rfl⟩
    · rw [if_pos isEnv]
      exact ⟨.environment name, List.mem_singleton_self _, rfl⟩
    · rw [if_neg notEnv, if_pos rfl]
      exact ⟨.host name, List.mem_singleton_self _, rfl⟩
    · rw [if_neg notEnv, if_neg envNamed]
      exact ⟨.cluster env node, List.mem_cons_self, rfl⟩
    · rw [if_neg notEnv, if_neg envNamed]
      exact ⟨.host name, List.mem_cons_of_mem _ (List.mem_singleton_self _), rfl⟩
  · exact tagged.elim

theorem entity_of_effect {world : World} {call : WriteCall} {name : String}
    (tagged : (call.effect world .primary).Tags name) :
    ∃ entity ∈ call.entities, entity.storedName = name := by
  obtain ⟨method, args, id⟩ := call
  unfold effect at tagged
  dsimp only at tagged
  split at tagged
  · exact tagged.elim
  · exact tagged.elim
  · exact tagged.elim
  · exact entity_of_keyedEffect tagged
  · exact entity_of_keyedEffect tagged
  · exact entity_of_keyedEffect tagged
  · exact tagged.elim
  · exact tagged.elim

end WriteCall

namespace World

/-- The values a key of a node of the primary graph has. -/
def tagValues (world : World) (name key : String) : Option (List String) :=
  ((world.primary.inst.readNode name).tagTable none).lookup key

theorem Quiet.tagValues_eq {world : World} (quiet : world.Quiet) (name key : String) :
    world.tagValues name key = (world.primary.inst.readNode name).tagNow key :=
  NodeInfo.lookup_tagTable (quiet.primary.wf name) none key

/-- A call leaves a node that none of its entities is stored under. -/
theorem Quiet.run_frame {world : World} (quiet : world.Quiet) {call : WriteCall} {name : String}
    (unnamed : ∀ entity ∈ call.entities, entity.storedName ≠ name) :
    (call.run world).2.roster .primary name = world.roster .primary name ∧
      ∀ key, (call.run world).2.tagValues name key = world.tagValues name key := by
  have quietAfter := WriteCall.run_quiet quiet call
  rcases WriteCall.run_primary quiet call with same | ⟨_, step⟩
  · constructor
    · exact congrArg (fun inst => (GraphDB.ofInstance inst).roster name) same
    · intro key
      rw [quietAfter.tagValues_eq, quiet.tagValues_eq, same]
  · constructor
    · apply (congrFun step.roster name).trans
      by_contra changes
      obtain ⟨entity, member, isName⟩ := WriteCall.entity_of_rosterChange changes
      exact unnamed entity member isName
    · intro key
      rw [quietAfter.tagValues_eq, quiet.tagValues_eq]
      apply step.wired.tags name key
      intro tagged
      obtain ⟨entity, member, isName⟩ := WriteCall.entity_of_effect tagged
      exact unnamed entity member isName

/-- Entities with names from the given ones are stored under different names
exactly when these are apart, and then no call creates, removes, retypes or
tags the node of an entity it does not name. -/
theorem namespaces_isolated (envs hosts : Set String) :
    (Set.InjOn Entity.storedName {entity | entity.Within envs hosts} ↔
      NamesApart envs hosts) ∧
    (NamesApart envs hosts → ∀ (sequence : List WriteCall) (call : WriteCall),
      (∀ entity ∈ call.entities, entity.Within envs hosts) →
      ∀ entity : Entity, entity.Within envs hosts → entity ∉ call.entities →
        (call.run (empty.calls sequence)).2.roster .primary entity.storedName =
          (empty.calls sequence).roster .primary entity.storedName ∧
        ∀ key, (call.run (empty.calls sequence)).2.tagValues entity.storedName key =
          (empty.calls sequence).tagValues entity.storedName key) := by
  refine ⟨⟨namesApart_of_injOn, NamesApart.injOn_storedName⟩, ?_⟩
  intro apart sequence call within entity isEntity unnamed
  apply (empty_quiet.calls sequence).run_frame
  intro other member sameName
  have same := apart.injOn_storedName (within other member) isEntity sameName
  rw [same] at member
  exact unnamed member

/-- An environment with a cluster, and a host. -/
def separateNames : List WriteCall :=
  [⟨.createEnv, ["e"], 1⟩, ⟨.addClusterToEnv, ["e", "c"], 2⟩, ⟨.addHost, ["h"], 3⟩]

theorem namespaces_isolated_separateNames :
    NamesApart {"e"} {"h"} ∧
      ((⟨.removeCluster, ["e", "c"], 4⟩ : WriteCall).run
        (empty.calls separateNames)).2.roster .primary "h" = some .host := by
  have apart : NamesApart {"e"} {"h"} := by
    constructor
    · rintro env ⟨⟩ other ⟨⟩ differ
      exact absurd rfl differ
    · rintro env ⟨⟩ host ⟨⟩
      decide
  have before : (empty.calls separateNames).roster .primary "h" = some .host := by decide +kernel
  have kept := (namespaces_isolated {"e"} {"h"}).2 apart separateNames
    ⟨.removeCluster, ["e", "c"], 4⟩ (by
      intro entity member
      obtain rfl := List.mem_singleton.mp member
      exact ⟨rfl, by decide⟩) (.host "h") rfl (by decide)
  exact ⟨apart, kept.1.trans before⟩

/-- A cluster `b#c` of `a` and a cluster `c` of `a#b`. -/
def sharedName : List WriteCall :=
  [⟨.createEnv, ["a"], 1⟩, ⟨.addClusterToEnv, ["a", "b#c"], 2⟩, ⟨.createEnv, ["a#b"], 3⟩,
    ⟨.addClusterToEnv, ["a#b", "c"], 4⟩]

/-- Both are one node: a call that tags the first tags the second. -/
theorem namespaces_shared :
    Along Returns empty sharedName ∧
      (Entity.cluster "a" "b#c").storedName = (Entity.cluster "a#b" "c").storedName ∧
      Entity.cluster "a#b" "c" ∉
        (⟨.addNodeKeyValue, ["a", "b#c", "k", "v"], 5⟩ : WriteCall).entities ∧
      (empty.calls sharedName).tagValues (Entity.cluster "a#b" "c").storedName "k" = none ∧
      ((⟨.addNodeKeyValue, ["a", "b#c", "k", "v"], 5⟩ : WriteCall).run
        (empty.calls sharedName)).2.tagValues (Entity.cluster "a#b" "c").storedName "k" =
          some ["v"] := by
  have returns : Along Returns empty sharedName := by decide +kernel
  exact ⟨returns, by decide, by decide, by decide +kernel, by decide +kernel⟩

end World

end Rangexx
