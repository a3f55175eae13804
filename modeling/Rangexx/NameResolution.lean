import Rangexx.CallParts

/-!
# Which node a name stands for

The read calls and the calls on keys look a node up under several names and
check its type.  Their choice depends on the roster of live nodes only;
`resolve` and `resolveMember` state it, and the programs are shown to follow
them.
-/

namespace Rangexx

open StateProgram

namespace RangeApi

open Api

/-! ## Stored names -/

theorem length_pos_iff (name : String) : 0 < name.length ↔ name ≠ "" := by
  rw [Nat.pos_iff_ne_zero]
  simp

theorem envPrefix_of_ne {envName : String} (named : envName ≠ "") :
    envPrefix envName = envName ++ "#" :=
  if_pos ((length_pos_iff envName).mpr named)

theorem prefixedNodeName_empty (envName : String) : prefixedNodeName envName "" = envName := by
  by_cases isEmpty : envName = ""
  · rw [isEmpty]
    rfl
  · unfold prefixedNodeName
    rw [if_neg (by simp), if_pos ((length_pos_iff envName).mpr isEmpty)]

theorem prefixedNodeName_of_ne (envName : String) {nodeName : String} (named : nodeName ≠ "") :
    prefixedNodeName envName nodeName = envPrefix envName ++ nodeName := by
  have nodePos := (length_pos_iff nodeName).mpr named
  unfold prefixedNodeName
  by_cases isEmpty : envName = ""
  · rw [isEmpty, if_neg (by simp), if_neg (by simp), if_pos nodePos]
    simp [envPrefix]
  · rw [if_pos ⟨(length_pos_iff envName).mpr isEmpty, nodePos⟩]

/-! ## The node a call reads -/

/-- The choice `get_node` makes. -/
def resolve (roster : Roster String NodeType) (envName nodeName : String) :
    Except ApiError (Option String) :=
  let notFound := Except.error (ApiError.nodeNotFound (prefixedNodeName envName nodeName))
  let environment := if roster envName = some .environment then .ok (some envName) else notFound
  if nodeName = "" ∧ envName = "" then .ok none
  else if nodeName = "" then environment
  else if envName = "" then
    if roster nodeName = some .string ∨ roster nodeName = some .host then .ok (some nodeName)
    else notFound
  else if envName = nodeName then environment
  else
    match roster (prefixedNodeName envName nodeName) with
    | some _ => .ok (some (prefixedNodeName envName nodeName))
    | none =>
        match roster nodeName with
        | none => .ok none
        | some .host => .ok (some nodeName)
        | some type => .error (.nodeNotFound
            (prefixedNodeName envName nodeName ++ ":" ++ type.name))

/-- The names `get_node` can choose. -/
theorem resolve_eq_some {roster : Roster String NodeType} {envName nodeName name : String}
    (chosen : resolve roster envName nodeName = .ok (some name)) :
    ((nodeName = "" ∨ nodeName = envName) ∧ name = envName) ∨
      (¬ (nodeName = "" ∨ nodeName = envName) ∧ envName = "" ∧ name = nodeName) ∨
      (¬ (nodeName = "" ∨ nodeName = envName) ∧ envName ≠ "" ∧
        (name = prefixedNodeName envName nodeName ∨ name = nodeName)) := by
  unfold resolve at chosen
  dsimp only at chosen
  split at chosen
  · simp at chosen
  split at chosen
  · rename_i noNode
    split at chosen
    · simp only [Except.ok.injEq, Option.some.injEq] at chosen
      exact Or.inl ⟨Or.inl noNode, chosen.symm⟩
    · simp at chosen
  rename_i hasNode
  split at chosen
  · rename_i noEnv
    split at chosen
    · simp only [Except.ok.injEq, Option.some.injEq] at chosen
      refine Or.inr (Or.inl ⟨?_, noEnv, chosen.symm⟩)
      rw [noEnv, or_self]
      exact hasNode
    · simp at chosen
  rename_i hasEnv
  split at chosen
  · rename_i same
    split at chosen
    · simp only [Except.ok.injEq, Option.some.injEq] at chosen
      exact Or.inl ⟨Or.inr same.symm, chosen.symm⟩
    · simp at chosen
  rename_i differ
  refine Or.inr (Or.inr ⟨not_or.mpr ⟨hasNode, Ne.symm differ⟩, hasEnv, ?_⟩)
  split at chosen
  · simp only [Except.ok.injEq, Option.some.injEq] at chosen
    exact Or.inl chosen.symm
  · split at chosen
    · simp at chosen
    · simp only [Except.ok.injEq, Option.some.injEq] at chosen
      exact Or.inr chosen.symm
    · simp at chosen

/-- The choice `get_clusters` makes. -/
def resolveMember (roster : Roster String NodeType) (envName nodeName : String) :
    Except ApiError String :=
  match roster (prefixedNodeName envName nodeName) with
  | some _ => .ok (prefixedNodeName envName nodeName)
  | none =>
      if roster nodeName = some .environment ∨ roster nodeName = some .host then .ok nodeName
      else .error (.nodeNotFound (prefixedNodeName envName nodeName))

variable {world : World}

/-- A node of the graph in use, or the reason there is none. -/
def fetch (graph : GraphDB) : Except ApiError (Option String) → Except ApiError (Option Node)
  | .error error => .error error
  | .ok none => .ok none
  | .ok (some name) => .ok (graph.getNode name)

private theorem requireEnvironment_apply (graph : GraphName) (name : String)
    (notFound : ApiError) (world : World) :
    (do
      match ← Api.getNode graph name with
      | none => StateProgram.raise notFound
      | some node =>
          if (← nodeType graph node) = .environment then return some node
          else StateProgram.raise notFound : Api (Option Node)) world =
      (fetch (world.graph graph) (if (world.graph graph).roster name = some .environment then
        .ok (some name) else .error notFound), world) := by
  rw [Api.getNode, read_bind]
  cases found : (world.graph graph).getNode name with
  | none => simp [GraphDB.roster, found, fetch]
  | some node =>
      by_cases isEnvironment : node.type (world.graph graph).inst = .environment
      · simp [GraphDB.roster, found, fetch, nodeType, isEnvironment]
      · simp [GraphDB.roster, found, fetch, nodeType, isEnvironment]

/-- `get_node` returns the node its choice stands for. -/
theorem getNode_apply (graph : GraphName) (envName nodeName : String) (world : World) :
    getNode graph envName nodeName world =
      (fetch (world.graph graph) (resolve (world.graph graph).roster envName nodeName),
        world) := by
  unfold getNode resolve
  dsimp only
  by_cases bothEmpty : nodeName = "" ∧ envName = ""
  · rw [if_pos bothEmpty, if_pos bothEmpty]
    rfl
  rw [if_neg bothEmpty, if_neg bothEmpty]
  by_cases noNode : nodeName = ""
  · rw [if_pos noNode, if_pos noNode]
    exact requireEnvironment_apply graph envName _ world
  rw [if_neg noNode, if_neg noNode]
  by_cases noEnv : envName = ""
  · rw [if_pos noEnv, if_pos noEnv, Api.getNode, read_bind]
    cases found : (world.graph graph).getNode nodeName with
    | none => simp [GraphDB.roster, found, fetch]
    | some node =>
        by_cases hasType : node.type (world.graph graph).inst = .string ∨
            node.type (world.graph graph).inst = .host
        · simp [GraphDB.roster, found, fetch, nodeType, hasType]
        · simp [GraphDB.roster, found, fetch, nodeType, hasType]
  rw [if_neg noEnv, if_neg noEnv]
  by_cases same : envName = nodeName
  · rw [if_pos same, if_pos same]
    exact requireEnvironment_apply graph envName _ world
  rw [if_neg same, if_neg same, Api.getNode, read_bind]
  cases prefixed : (world.graph graph).getNode (prefixedNodeName envName nodeName) with
  | some node => simp [GraphDB.roster, prefixed, fetch]
  | none =>
      dsimp only
      rw [Api.getNode, read_bind]
      cases found : (world.graph graph).getNode nodeName with
      | none => simp [GraphDB.roster, prefixed, found, fetch]
      | some node =>
          by_cases isHost : node.type (world.graph graph).inst = .host
          · simp [GraphDB.roster, prefixed, found, fetch, nodeType, isHost]
          · simp only [nodeType, read_bind, isHost, ne_eq, not_false_eq_true, if_true,
              raise_apply, GraphDB.roster, prefixed, found, Option.map_none, Option.map_some]
            cases type : node.type (world.graph graph).inst with
            | host => exact absurd type isHost
            | _ => rfl

end RangeApi

end Rangexx
