import Rangexx.BreadthFirst
import Rangexx.ReadStarts

/-!
# The nearest node with a key

`bfs_search_parents_for_first_key` and the operator `^` of range expressions
search the reverse edges breadth first for a node that carries a key.
-/

namespace Rangexx

open StateProgram Worklist BreadthFirst

namespace RangeApi

open Api

/-- The tags of a name, read at a wanted list version. -/
def tagsAt (inst : GraphInstance) (wanted : Option Nat) (name : String) :
    AList fun _ : String => List String :=
  (⟨name, wanted, none⟩ : Node).tags inst

/-- The search of both functions. -/
def nearestKey (inst : GraphInstance) (start : Node) (key : String) :
    Option (String × List String) :=
  firstFound (nextNames inst .reverse start.wantedVersion)
    (fun name => (tagsAt inst start.wantedVersion name).lookup key)
    (searchRounds inst .reverse) [start.name] []

/-- `bfs_search_parents_for_first_key`. -/
def bfsSearchParentsForFirstKey (envName nodeName key : String) (version : Option Nat) :
    Api (String × List String) := do
  graphdb .primary version
  match ← getNode .primary envName nodeName with
  | none => StateProgram.raise (.nodeNotFound (prefixedNodeName envName nodeName))
  | some start =>
      StateProgram.read fun world =>
        match nearestKey world.primary.inst start key with
        | some (name, values) => (unprefixNodeName envName name, values)
        | none => ("", [])

end RangeApi

/-- The exceptions of the evaluation of a range expression. -/
inductive CompilerError where
  | invalidRangeExpression (text : String)
  deriving DecidableEq, Repr

/-- The parts of `RangeExpandingVisitor` that the operator uses. -/
structure RangeExpandingVisitor where
  graph : GraphDB
  prefixText : String

namespace RangeExpandingVisitor

open RangeApi

/-- `prefix_child`. -/
def prefixChild (visitor : RangeExpandingVisitor) (child : String) : String :=
  if visitor.prefixText = "" then child
  else if child.length < visitor.prefixText.length ∨
      ¬ visitor.prefixText.toList <+: child.toList then
    if (visitor.graph.getNode (visitor.prefixText ++ child)).isSome then
      visitor.prefixText ++ child
    else child
  else child

/-- The loop of `operator()(ASTAdmin&)` over the children, with the admins
found so far. -/
def admins (visitor : RangeExpandingVisitor) :
    List String → List String → Except CompilerError (List String)
  | [], found => .ok found
  | child :: rest, found =>
      match visitor.graph.getNode (visitor.prefixChild child) with
      | none => .error (.invalidRangeExpression
          ("cannot resolve node" ++ visitor.prefixChild child))
      | some start =>
          match nearestKey visitor.graph.inst start "ADMIN_NODE" with
          | some (_, values) =>
              admins visitor rest (values.foldl (fun found admin => found.insert admin) found)
          | none => admins visitor rest found

end RangeExpandingVisitor

namespace RangeApi

/-- What a search for a key gives: a nearest node that carries it, with the
values, or nothing when no node carries it. -/
structure FindsNearest (inst : GraphInstance) (start : Node) (key : String)
    (result : Option (String × List String)) : Prop where
  nearest : ∀ name values, result = some (name, values) →
    Nearest (nextNames inst .reverse start.wantedVersion)
      (fun name => (tagsAt inst start.wantedVersion name).lookup key) start.name name values
  nothing : result = none ↔ ∀ name,
    Reaches (nextNames inst .reverse start.wantedVersion) start.name name →
      (tagsAt inst start.wantedVersion name).lookup key = none

theorem nearestKey_finds {inst : GraphInstance} (committed : Committed inst) (start : Node)
    (key : String) : FindsNearest inst start key (nearestKey inst start key) := by
  obtain ⟨nearest, nothing⟩ := @firstFound_root _ _
    (nextNames inst .reverse start.wantedVersion) _
    (fun name => (tagsAt inst start.wantedVersion name).lookup key)
    (GraphDB.cursorNames inst) (cursorNames_nodup inst)
    (mem_cursorNames_of_nextNames committed .reverse start.wantedVersion)
    (searchRounds inst .reverse) start.name
    (openEdges_le_searchRounds inst .reverse start.wantedVersion [])
  exact ⟨nearest, nothing⟩

variable {world opened : World} {version : Option Nat} {envName nodeName : String} {start : Node}

theorem Starts.bfsSearch_eq (starts : Starts world version envName nodeName opened start)
    (key : String) :
    (bfsSearchParentsForFirstKey envName nodeName key version world).1 =
      .ok ((nearestKey opened.primary.inst start key).elim ("", [])
        fun result => (unprefixNodeName envName result.1, result.2)) := by
  unfold bfsSearchParentsForFirstKey
  rw [bind_of_ok starts.opens, bind_of_ok starts.getNode_eq]
  change Except.ok _ = _
  dsimp only
  cases nearestKey opened.primary.inst start key with
  | none => rfl
  | some result => rfl

end RangeApi

namespace RangeExpandingVisitor

open RangeApi

variable {visitor : RangeExpandingVisitor}

theorem mem_foldl_insert (values found : List String) (admin : String) :
    admin ∈ values.foldl (fun found admin => found.insert admin) found ↔
      admin ∈ values ∨ admin ∈ found := by
  induction values generalizing found with
  | nil => simp
  | cons value rest ih =>
      rw [List.foldl_cons, ih, List.mem_insert_iff, List.mem_cons]
      tauto

theorem nodup_foldl_insert (values : List String) {found : List String} (nodup : found.Nodup) :
    (values.foldl (fun found admin => found.insert admin) found).Nodup := by
  induction values generalizing found with
  | nil => exact nodup
  | cons value rest ih => exact ih nodup.insert

theorem nodup_admins {children found admins : List String} (nodup : found.Nodup)
    (evaluates : visitor.admins children found = .ok admins) : admins.Nodup := by
  induction children generalizing found with
  | nil =>
      cases evaluates
      exact nodup
  | cons child rest ih =>
      rw [RangeExpandingVisitor.admins] at evaluates
      split at evaluates
      · cases evaluates
      · split at evaluates
        · exact ih (nodup_foldl_insert _ nodup) evaluates
        · exact ih nodup evaluates

/-- What the search from the node of a child finds. -/
def foundFrom (visitor : RangeExpandingVisitor) (child : String) :
    Option (String × List String) :=
  (visitor.graph.getNode (visitor.prefixChild child)).bind fun start =>
    nearestKey visitor.graph.inst start "ADMIN_NODE"

theorem foundFrom_eq {child : String} {start : Node}
    (isFound : visitor.graph.getNode (visitor.prefixChild child) = some start) :
    visitor.foundFrom child = nearestKey visitor.graph.inst start "ADMIN_NODE" := by
  rw [foundFrom, isFound]
  rfl

theorem admins_eq (children found : List String) (nodup : found.Nodup)
    (resolved : ∀ child ∈ children, (visitor.graph.getNode (visitor.prefixChild child)) ≠ none) :
    ∃ result, visitor.admins children found = .ok result ∧ result.Nodup ∧
      ∀ admin, admin ∈ result ↔ admin ∈ found ∨
        ∃ child ∈ children, ∃ name values, visitor.foundFrom child = some (name, values) ∧
          admin ∈ values := by
  induction children generalizing found with
  | nil => exact ⟨found, rfl, nodup, by simp⟩
  | cons child rest ih =>
      have later : ∀ other ∈ rest, visitor.graph.getNode (visitor.prefixChild other) ≠ none :=
        fun other member => resolved other (List.mem_cons_of_mem child member)
      obtain ⟨start, isFound⟩ := Option.ne_none_iff_exists'.mp (resolved child List.mem_cons_self)
      rw [admins, isFound]
      simp only [List.exists_mem_cons_iff, foundFrom_eq isFound]
      cases search : nearestKey visitor.graph.inst start "ADMIN_NODE" with
      | none =>
          obtain ⟨result, ran, isNodup, members⟩ := ih found nodup later
          refine ⟨result, ran, isNodup, fun admin => ?_⟩
          simp [members]
      | some nearest =>
          obtain ⟨name, values⟩ := nearest
          obtain ⟨result, ran, isNodup, members⟩ :=
            ih _ (nodup_foldl_insert values nodup) later
          refine ⟨result, ran, isNodup, fun admin => ?_⟩
          have own : (∃ other others, some (name, values) = some (other, others) ∧
              admin ∈ others) ↔ admin ∈ values := by
            simp
          rw [members, mem_foldl_insert, own]
          tauto

end RangeExpandingVisitor

namespace RangeApi

/-- The search for a key gives the values of a nearest node that carries it,
with the name of the node less the prefix of the environment, or an empty name
and no values when no ancestor carries it.  The operator `^` gives exactly the
`ADMIN_NODE` values that such searches from its operands find. -/
theorem nearest_key {world opened : World} {version : Option Nat} {envName nodeName : String}
    {start : Node} (starts : Starts world version envName nodeName opened start)
    (key : String) :
    (∃ result, FindsNearest opened.primary.inst start key result ∧
      (bfsSearchParentsForFirstKey envName nodeName key version world).1 =
        .ok (result.elim ("", []) fun found => (unprefixNodeName envName found.1, found.2))) ∧
    ∀ prefixText children,
      (∀ child ∈ children, opened.primary.getNode
        (RangeExpandingVisitor.prefixChild ⟨opened.primary, prefixText⟩ child) ≠ none) →
      ∃ (admins : List String) (found : String → Option (String × List String)),
        RangeExpandingVisitor.admins ⟨opened.primary, prefixText⟩ children [] = .ok admins ∧
        admins.Nodup ∧
        (∀ child ∈ children, ∀ node, opened.primary.getNode
            (RangeExpandingVisitor.prefixChild ⟨opened.primary, prefixText⟩ child) = some node →
          FindsNearest opened.primary.inst node "ADMIN_NODE" (found child)) ∧
        ∀ admin, admin ∈ admins ↔
          ∃ child ∈ children, ∃ name values, found child = some (name, values) ∧
            admin ∈ values := by
  refine ⟨⟨_, nearestKey_finds starts.committed start key, starts.bfsSearch_eq key⟩, ?_⟩
  intro prefixText children resolved
  obtain ⟨admins, evaluates, nodup, members⟩ :=
    RangeExpandingVisitor.admins_eq children [] List.nodup_nil resolved
  refine ⟨admins, RangeExpandingVisitor.foundFrom ⟨opened.primary, prefixText⟩, evaluates,
    nodup, ?_, ?_⟩
  · intro child _ node isFound
    rw [RangeExpandingVisitor.foundFrom_eq isFound]
    exact nearestKey_finds starts.committed node "ADMIN_NODE"
  · intro admin
    rw [members, List.mem_nil_iff, false_or]

/-- A cluster and its host, of which the cluster has an admin. -/
def administered : List WriteCall :=
  [⟨.createEnv, ["e"], 1⟩, ⟨.addClusterToEnv, ["e", "c"], 2⟩,
    ⟨.addHostToCluster, ["e", "c", "h"], 3⟩,
    ⟨.addNodeKeyValue, ["e", "c", "ADMIN_NODE", "a"], 4⟩]

theorem nearest_key_administered :
    ∃ result, FindsNearest (World.empty.calls administered).primary.inst
        ⟨"h", none, some ((World.empty.calls administered).primary.inst.readNode "h")⟩
        "ADMIN_NODE" result ∧
      (bfsSearchParentsForFirstKey "e" "h" "ADMIN_NODE" none
        (World.empty.calls administered)).1 =
          .ok (result.elim ("", []) fun found => (unprefixNodeName "e" found.1, found.2)) ∧
      (bfsSearchParentsForFirstKey "e" "h" "ADMIN_NODE" none
        (World.empty.calls administered)).1 = .ok ("c", ["a"]) := by
  obtain ⟨⟨result, finds, found⟩, -⟩ := @nearest_key (World.empty.calls administered)
    ((World.empty.calls administered).setGraph .primary
      (.ofInstance (World.empty.calls administered).primary.inst)) none "e" "h"
    ⟨"h", none, some ((World.empty.calls administered).primary.inst.readNode "h")⟩
    ⟨World.empty_quiet.calls administered, rfl, by decide +kernel⟩ "ADMIN_NODE"
  exact ⟨result, finds, found, by decide +kernel⟩

/-- A host whose name is the prefix of an environment. -/
def prefixNamed : List WriteCall :=
  [⟨.createEnv, ["e"], 1⟩, ⟨.addHost, ["e#"], 2⟩, ⟨.addNodeKeyValue, ["", "e#", "k", "v"], 3⟩]

/-- The host carries the key itself, and its name less the prefix is empty. -/
theorem nearest_key_prefixNamed :
    World.Along World.Returns World.empty prefixNamed ∧
      (tagsAt (World.empty.calls prefixNamed).primary.inst none "e#").lookup "k" =
        some ["v"] ∧
      (bfsSearchParentsForFirstKey "e" "e#" "k" none (World.empty.calls prefixNamed)).1 =
        .ok ("", ["v"]) := by
  refine ⟨by decide +kernel, by decide +kernel, by decide +kernel⟩

end RangeApi

end Rangexx
