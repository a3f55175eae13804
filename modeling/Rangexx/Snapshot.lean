import Rangexx.CallRuns

/-!
# Reading a snapshot

A read call opens the primary graph at a version and then reads from it.  What
it reads is a function of the opened graph, and two graphs that show the same
nodes give the same answers.
-/

namespace Rangexx

open StateProgram

/-- `past` shows what the graph `present` showed as its current version. -/
structure Mirrors (past present : GraphDB) : Prop where
  roster : past.roster = present.roster
  view : ∀ name node, present.getNode name = some node →
    ∃ pastNode, past.getNode name = some pastNode ∧
      SameView pastNode past.inst node present.inst

theorem Mirrors.type_eq {past present : GraphDB} (mirrors : Mirrors past present)
    {name : String} {pastNode node : Node} (pastFound : past.getNode name = some pastNode)
    (found : present.getNode name = some node) :
    pastNode.type past.inst = node.type present.inst := by
  have same := congrFun mirrors.roster name
  unfold GraphDB.roster at same
  rw [pastFound, found] at same
  exact Option.some.inj same

theorem Mirrors.getNode_eq_none {past present : GraphDB} (mirrors : Mirrors past present)
    {name : String} (missing : present.getNode name = none) : past.getNode name = none := by
  have same := congrFun mirrors.roster name
  unfold GraphDB.roster at same
  rwa [missing, Option.map_none, Option.map_eq_none_iff] at same

/-- The answers of two reads: the same elements, unless the second one throws. -/
def Answers (past present : Except ApiError (List String)) : Prop :=
  ∀ result, present = .ok result →
    ∃ pastResult, past = .ok pastResult ∧ ∀ name, name ∈ pastResult ↔ name ∈ result

/-- One read gives what another gave: the same elements or the same exception. -/
def Repeats (past present : Except ApiError (List String)) : Prop :=
  match present with
  | .ok result => ∃ pastResult, past = .ok pastResult ∧ ∀ name, name ∈ pastResult ↔ name ∈ result
  | .error error => past = .error error

theorem Repeats.refl (answer : Except ApiError (List String)) : Repeats answer answer := by
  cases answer with
  | ok result => exact ⟨result, rfl, fun _ => Iff.rfl⟩
  | error error => rfl

theorem Repeats.answers {past present : Except ApiError (List String)}
    (repeats : Repeats past present) : Answers past present := by
  rintro result rfl
  exact repeats

namespace RangeApi

open Api

/-- The part of a read call after `get_node`. -/
def inNode (graph : GraphDB) (envName nodeName : String)
    (read : Node → Except ApiError (List String)) : Except ApiError (List String) :=
  match fetch graph (resolve graph.roster envName nodeName) with
  | .error error => .error error
  | .ok none => .error (.nodeNotFound (prefixedNodeName envName nodeName))
  | .ok (some node) => read node

/-- What `simple_expand` reads from a node. -/
def expansion (graph : GraphDB) (envName : String) (type : NodeType) (node : Node) :
    Except ApiError (List String) :=
  if type ≠ .unknown ∧ node.type graph.inst ≠ type then
    .error (.incorrectNodeType ((node.type graph.inst).name ++ " != " ++ type.name))
  else if node.type graph.inst ≠ .host then
    .ok (((node.neighbours .forward graph.inst).map Node.name).map (unprefixNodeName envName))
  else .ok []

/-- What `fetch_key` reads from a node. -/
def keyValues (graph : GraphDB) (key : String) (node : Node) : Except ApiError (List String) :=
  match (node.tags graph.inst).lookup key with
  | none => .error (.keyNotFound key)
  | some values => .ok values

/-- What `get_clusters` reads. -/
def parents (graph : GraphDB) (envName nodeName : String) : Except ApiError (List String) :=
  match resolveMember graph.roster envName nodeName with
  | .error error => .error error
  | .ok name =>
      match graph.getNode name with
      | none => .error (.nodeNotFound (prefixedNodeName envName nodeName))
      | some node => .ok (((node.neighbours .reverse graph.inst).map Node.name).map
          (unprefixNodeName envName))

/-- Open the primary graph and answer from it. -/
def answering {Value : Type} (version : Option Nat)
    (answer : GraphDB → Except ApiError Value) : Api Value := do
  graphdb .primary version
  fun opened => (answer opened.primary, opened)

theorem answering_apply {Value : Type} {version : Option Nat} {world opened : World}
    (opens : graphdb .primary version world = (.ok (), opened))
    (answer : GraphDB → Except ApiError Value) :
    answering version answer world = (answer opened.primary, opened) := by
  unfold answering
  rw [bind_of_ok opens]

/-- Opening a graph and then only reading it. -/
theorem eq_answering {Value : Type} {version : Option Nat} {rest : Api Value}
    {answer : GraphDB → Except ApiError Value}
    (reads : ∀ opened, rest opened = (answer opened.primary, opened)) :
    (graphdb .primary version >>= fun _ => rest) = answering version answer := by
  unfold answering
  congr
  funext _ opened
  exact reads opened

private theorem inNode_apply {envName nodeName : String} {rest : Node → Api (List String)}
    {read : Node → Except ApiError (List String)} {opened : World}
    (reads : ∀ node, rest node opened = (read node, opened)) :
    (do
      match ← getNode .primary envName nodeName with
      | none => StateProgram.raise (.nodeNotFound (prefixedNodeName envName nodeName))
      | some node => rest node : Api (List String)) opened =
      (inNode opened.primary envName nodeName read, opened) := by
  have fetched := getNode_apply .primary envName nodeName opened
  unfold inNode
  change getNode .primary envName nodeName opened = (fetch opened.primary
    (resolve opened.primary.roster envName nodeName), opened) at fetched
  cases found : fetch opened.primary (resolve opened.primary.roster envName nodeName) with
  | error error =>
      rw [found] at fetched
      rw [bind_of_error fetched]
  | ok result =>
      rw [found] at fetched
      rw [bind_of_ok fetched]
      cases result with
      | none => rfl
      | some node => exact reads node

theorem simpleExpand_eq (envName nodeName : String) (version : Option Nat) (type : NodeType) :
    simpleExpand envName nodeName version type = answering version fun graph =>
      inNode graph envName nodeName (expansion graph envName type) := by
  apply eq_answering
  intro opened
  apply inNode_apply
  intro node
  rw [nodeType, read_bind]
  unfold expansion
  change (if type ≠ .unknown ∧ node.type opened.primary.inst ≠ type then _ else
    if node.type opened.primary.inst ≠ .host then _ else _ : Api (List String)) opened = _
  split
  · rfl
  · split
    · rfl
    · rfl

theorem getKeys_eq (envName nodeName : String) (version : Option Nat) :
    getKeys envName nodeName version = answering version fun graph =>
      inNode graph envName nodeName fun node => .ok (node.tags graph.inst).keys :=
  eq_answering fun _ => inNode_apply fun _ => rfl

theorem fetchKey_eq (envName nodeName key : String) (version : Option Nat) :
    fetchKey envName nodeName key version = answering version fun graph =>
      inNode graph envName nodeName (keyValues graph key) := by
  apply eq_answering
  intro opened
  apply inNode_apply
  intro node
  rw [read_bind, keyValues]
  cases (node.tags opened.primary.inst).lookup key with
  | none => rfl
  | some values => rfl

theorem getClusters_eq (envName nodeName : String) (version : Option Nat) :
    getClusters envName nodeName version = answering version fun graph =>
      parents graph envName nodeName := by
  apply eq_answering
  intro opened
  dsimp only
  rw [Api.getNode, read_bind]
  unfold parents resolveMember
  simp only [World.graph]
  cases prefixed : opened.primary.getNode (prefixedNodeName envName nodeName) with
  | some node =>
      simp only [GraphDB.roster, prefixed, Option.map_some]
      rfl
  | none =>
      dsimp only
      rw [Api.getNode, read_bind]
      simp only [World.graph]
      cases found : opened.primary.getNode nodeName with
      | none => simp [GraphDB.roster, prefixed, found]
      | some node =>
          dsimp only
          rw [nodeType, read_bind]
          by_cases allowed : node.type opened.primary.inst = .environment ∨
              node.type opened.primary.inst = .host
          · rw [if_neg (by
              rintro ⟨notEnvironment, notHost⟩
              exact allowed.elim notEnvironment notHost)]
            simp only [GraphDB.roster, prefixed, found, Option.map_none, Option.map_some,
              Option.some.injEq, if_pos allowed]
            rfl
          · have refused : node.type (opened.graph .primary).inst ≠ .environment ∧
                node.type (opened.graph .primary).inst ≠ .host := not_or.mp allowed
            rw [if_pos refused]
            simp only [GraphDB.roster, prefixed, found, Option.map_none, Option.map_some,
              Option.some.injEq, if_neg allowed]
            rfl

/-! ## The same answers -/

section Answers

variable {past present : GraphDB} (mirrors : Mirrors past present)

include mirrors

theorem inNode_repeats {readPast read : Node → Except ApiError (List String)}
    (envName nodeName : String)
    (reads : ∀ pastNode node, SameView pastNode past.inst node present.inst →
      pastNode.type past.inst = node.type present.inst →
      Repeats (readPast pastNode) (read node)) :
    Repeats (inNode past envName nodeName readPast) (inNode present envName nodeName read) := by
  unfold inNode
  rw [mirrors.roster]
  cases choice : resolve present.roster envName nodeName with
  | error error => rfl
  | ok chosen =>
      cases chosen with
      | none => rfl
      | some name =>
          cases found : present.getNode name with
          | none =>
              simp only [fetch, found, mirrors.getNode_eq_none found]
              rfl
          | some node =>
              obtain ⟨pastNode, pastFound, view⟩ := mirrors.view name node found
              simp only [fetch, found, pastFound]
              exact reads pastNode node view (mirrors.type_eq pastFound found)

theorem expansion_repeats (envName nodeName : String) (type : NodeType) :
    Repeats (inNode past envName nodeName (expansion past envName type))
      (inNode present envName nodeName (expansion present envName type)) := by
  apply inNode_repeats mirrors envName nodeName
  intro pastNode node view sameType
  unfold expansion
  rw [sameType]
  split
  · rfl
  · split
    · refine ⟨_, rfl, fun name => ?_⟩
      simp only [List.mem_map (f := unprefixNodeName envName)]
      exact exists_congr fun target => and_congr_left fun _ => view.edges .forward target
    · exact ⟨_, rfl, fun _ => Iff.rfl⟩

theorem keys_repeats (envName nodeName : String) :
    Repeats (inNode past envName nodeName fun node => .ok (node.tags past.inst).keys)
      (inNode present envName nodeName fun node => .ok (node.tags present.inst).keys) := by
  apply inNode_repeats mirrors envName nodeName
  intro pastNode node view _
  refine ⟨_, rfl, fun key => ?_⟩
  rw [← AList.mem_keys, ← AList.mem_keys, ← AList.lookup_isSome, ← AList.lookup_isSome,
    view.tags key]

theorem keyValues_repeats (envName nodeName key : String) :
    Repeats (inNode past envName nodeName (keyValues past key))
      (inNode present envName nodeName (keyValues present key)) := by
  apply inNode_repeats mirrors envName nodeName
  intro pastNode node view _
  unfold keyValues
  rw [view.tags key]
  exact Repeats.refl _

theorem parents_repeats (envName nodeName : String) :
    Repeats (parents past envName nodeName) (parents present envName nodeName) := by
  unfold parents
  rw [mirrors.roster]
  cases choice : resolveMember present.roster envName nodeName with
  | error error => rfl
  | ok name =>
      cases found : present.getNode name with
      | none =>
          simp only [found, mirrors.getNode_eq_none found]
          rfl
      | some node =>
          obtain ⟨pastNode, pastFound, view⟩ := mirrors.view name node found
          simp only [found, pastFound]
          refine ⟨_, rfl, fun other => ?_⟩
          simp only [List.mem_map (f := unprefixNodeName envName)]
          exact exists_congr fun target => and_congr_left fun _ => view.edges .reverse target

end Answers

end RangeApi

end Rangexx
