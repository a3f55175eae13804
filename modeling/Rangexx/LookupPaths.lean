import Rangexx.ExpandHosts
import Rangexx.OperatorChains
import Rangexx.QuotedTokens

/-!
# Two ways to look a name up

`simple_expand` and `get_clusters` choose the node of a name with a rule each,
and the expressions `%c` and `*c` choose it with `prefix_child`.  The rules take
the same node but for a name that is the environment's own or has its prefix
already, when the node with the prefix before the whole name is live as well.
-/

namespace Rangexx

open StateProgram

/-- What `expand_range_expression` takes from outside: the functions of the
symbol table, and what the visitor takes. -/
structure Compiler where
  functions : RangeScanner.SymbolTable
  function : String → RangeFunction
  regex : String → Except String (String → Bool)
  mapOrder : List String → List String
  mapOrder_perm : ∀ names, (mapOrder names).Perm names

namespace Compiler

open RangeScanner RangeParser RangeApi

variable (compiler : Compiler)

/-- The visitor of an expression in an environment. -/
def visitor (graph : GraphDB) (envName : String) : ExpressionVisitor where
  graph := graph
  prefixText := if 0 < envName.length then envName ++ "#" else ""
  envName := envName
  regex := compiler.regex
  mapOrder := compiler.mapOrder
  mapOrder_perm := compiler.mapOrder_perm

/-- The body of `expand_range_expression` on a graph. -/
def evaluate (graph : GraphDB) (envName expression : String) :
    Except ExpansionError (List String) :=
  match parse compiler.function (tokens compiler.functions (scannerOn expression.toList)) with
  | some (.accept top) => do
      let results ← (compiler.visitor graph envName).children top
      return results.map (unprefixNodeName envName)
  | some .thrown => .error .badGet
  | _ => .error (.thrown (.invalidRangeExpression expression))

/-- `expand_range_expression`.  The exceptions of the compiler are in the
value. -/
def expandRangeExpression (envName expression : String) (version : Option Nat) :
    Api (Except ExpansionError (List String)) := do
  graphdb .primary version
  StateProgram.read fun world => compiler.evaluate world.primary envName expression

variable {compiler} {graph : GraphDB} {envName name : String} {world : World}

theorem expandRangeExpression_eq (expression : String) :
    (compiler.expandRangeExpression envName expression none world).1 =
      .ok (compiler.evaluate (.ofInstance world.primary.inst) envName expression) :=
  rfl

/-! ## Expressions of one sign -/

/-- The name is a word of its own. -/
def LexesAsWord (compiler : Compiler) (name : String) : Prop :=
  tokens compiler.functions (scannerOn name.toList) = [⟨.bareword, name.toList⟩]

theorem parse_signed (sign : PrefixSign) (lexes : LexesAsWord compiler name) :
    parse compiler.function (tokens compiler.functions (scannerOn (sign.char :: name.toList))) =
      some (.accept (sign.tree (.word name))) := by
  have operator : Operator sign.char := by
    unfold Operator
    cases sign <;> decide
  have isTokens : tokens compiler.functions (scannerOn (sign.char :: name.toList)) =
      [⟨.char sign.char, [sign.char]⟩, ⟨.bareword, name.toList⟩] :=
    (tokens_emit (lexTurn_operator operator)).trans (congrArg _ lexes)
  have parsed := parses_of_reads (Chain.reads compiler.function
    (.single (.mk [(sign, [sign.char])] (.word name.toList) [])))
  have isTree : (Chain.single (.mk [(sign, [sign.char])] (.word name.toList) [])).tree =
      sign.tree (.word name) := by
    rw [Chain.tree, Operand.tree, Atom.tree, String.ofList_toList]
    rfl
  rw [isTokens, parse_eq_some_iff, ← isTree]
  exact parsed

/-- The names that an evaluation gives are those of a list. -/
def Gives (evaluated : Except ExpansionError (List String)) (names : List String) : Prop :=
  ∃ results, evaluated = .ok results ∧ ∀ other, other ∈ results ↔ other ∈ names

/-- The names of the neighbours of a node, without the prefix of an
environment. -/
def neighboursOf (graph : GraphDB) (direction : Direction) (envName : String) (node : Node) :
    List String :=
  ((node.neighbours direction graph.inst).map Node.name).map (unprefixNodeName envName)

theorem evaluate_of_parse {expression : String} {top : ASTNode}
    (parsed : parse compiler.function (tokens compiler.functions (scannerOn expression.toList)) =
      some (.accept top)) {results : List String}
    (children : (compiler.visitor graph envName).children top = .ok results) :
    compiler.evaluate graph envName expression = .ok (results.map (unprefixNodeName envName)) := by
  unfold evaluate
  rw [parsed]
  dsimp only
  rw [children]
  rfl

theorem edgeNames_single {direction : Direction} {node : Node}
    (found : graph.getNode ((compiler.visitor graph envName).prefixChild name) = some node) :
    (compiler.visitor graph envName).edgeNames direction [name] =
      .ok ((node.neighbours direction graph.inst).map Node.name) := by
  have resolved : (compiler.visitor graph envName).resolve name = .ok node := by
    unfold ExpressionVisitor.resolve
    rw [show (compiler.visitor graph envName).graph = graph from rfl, found]
  unfold ExpressionVisitor.edgeNames
  rw [resolved]
  change Except.ok (_ ++ []) = _
  rw [List.append_nil]
  rfl

/-- `%c` gives the children of the node that the name stands for. -/
theorem gives_expand (lexes : LexesAsWord compiler name) {node : Node}
    (found : graph.getNode ((compiler.visitor graph envName).prefixChild name) = some node) :
    Gives (compiler.evaluate graph envName ("%" ++ name))
      (neighboursOf graph .forward envName node) := by
  have isText : ("%" ++ name).toList = '%' :: name.toList := by simp
  have parsed := parse_signed .expand lexes
  have children : (compiler.visitor graph envName).children (.expand (.word name)) =
      .ok (SortedLists.unique (SortedLists.sorted
        ((node.neighbours .forward graph.inst).map Node.name))) := by
    unfold ExpressionVisitor.children ExpressionVisitor.children
    change (ExpressionVisitor.edgeNames _ .forward [name] >>= _) = _
    rw [edgeNames_single found]
    rfl
  refine ⟨_, evaluate_of_parse (isText ▸ parsed) children, fun other => ?_⟩
  unfold neighboursOf
  rw [List.mem_map, List.mem_map, SortedLists.unique_eq_dedup (SortedLists.sorted_pairwise _)]
  simp only [List.mem_dedup, (SortedLists.sorted_perm _).mem_iff]

/-- `*c` gives the parents of the node that the name stands for. -/
theorem gives_getCluster (lexes : LexesAsWord compiler name) {node : Node}
    (found : graph.getNode ((compiler.visitor graph envName).prefixChild name) = some node) :
    Gives (compiler.evaluate graph envName ("*" ++ name))
      (neighboursOf graph .reverse envName node) := by
  have isText : ("*" ++ name).toList = '*' :: name.toList := by simp
  have parsed := parse_signed .getCluster lexes
  have children : (compiler.visitor graph envName).children (.getCluster (.word name)) =
      .ok ((node.neighbours .reverse graph.inst).map Node.name) := by
    unfold ExpressionVisitor.children ExpressionVisitor.children
    exact edgeNames_single found
  exact ⟨_, evaluate_of_parse (isText ▸ parsed) children, fun _ => Iff.rfl⟩

/-! ## The node of a name -/

/-- The node with the prefix before the name is live. -/
def PrefixedLive (roster : Roster String NodeType) (envName name : String) : Prop :=
  roster (prefixedNodeName envName name) ≠ none

/-- The name has the prefix of the environment already. -/
def HasPrefix (envName name : String) : Prop :=
  (envPrefix envName).toList <+: name.toList

theorem prefixChild_eq (envNamed : envName ≠ "") (name : String) :
    (compiler.visitor graph envName).prefixChild name =
      if (envPrefix envName).toList <+: name.toList then name
      else if (graph.getNode (envPrefix envName ++ name)).isSome then envPrefix envName ++ name
      else name := by
  have isPrefix : (compiler.visitor graph envName).prefixText = envPrefix envName := rfl
  have some : envPrefix envName ≠ "" := by
    rw [envPrefix_of_ne envNamed]
    simp
  have isGraph : (compiler.visitor graph envName).graph = graph := rfl
  unfold RangeExpandingVisitor.prefixChild
  rw [isPrefix, isGraph, if_neg some]
  by_cases has : (envPrefix envName).toList <+: name.toList
  · have long := has.length_le
    rw [String.length_toList, String.length_toList] at long
    have neither : ¬ (name.length < (envPrefix envName).length ∨
        ¬ (envPrefix envName).toList <+: name.toList) := by
      rw [not_or]
      exact ⟨by omega, not_not_intro has⟩
    rw [if_pos has, if_neg neither]
  · rw [if_neg has, if_pos (Or.inr has)]

/-- The expression takes the node of the name alone: the name has the prefix
already, or nothing has the name behind the prefix. -/
theorem prefixChild_alone (envNamed : envName ≠ "") (named : name ≠ "")
    (alone : HasPrefix envName name ∨ ¬ PrefixedLive graph.roster envName name) :
    (compiler.visitor graph envName).prefixChild name = name := by
  unfold HasPrefix PrefixedLive GraphDB.roster at alone
  rw [prefixedNodeName_of_ne envName named, Ne, Option.map_eq_none_iff] at alone
  rw [prefixChild_eq envNamed]
  split
  · rfl
  · rename_i has
    have dead := not_not.mp (alone.resolve_left has)
    rw [dead]
    rfl

theorem prefixChild_prefixed (envNamed : envName ≠ "") (named : name ≠ "")
    (bare : ¬ HasPrefix envName name) (live : PrefixedLive graph.roster envName name) :
    (compiler.visitor graph envName).prefixChild name = prefixedNodeName envName name := by
  unfold HasPrefix at bare
  unfold PrefixedLive GraphDB.roster at live
  rw [prefixedNodeName_of_ne envName named, Ne, Option.map_eq_none_iff] at live
  rw [prefixChild_eq envNamed, if_neg bare, if_pos (Option.isSome_iff_ne_none.mpr live),
    prefixedNodeName_of_ne envName named]

/-- The name that `get_node` chooses is that of the expression, but for the
environment's own name and names with its prefix. -/
theorem prefixChild_of_resolve {chosen : String} (envNamed : envName ≠ "") (named : name ≠ "")
    (resolved : resolve graph.roster envName name = .ok (some chosen))
    (single : PrefixedLive graph.roster envName name → name ≠ envName ∧ ¬ HasPrefix envName name) :
    (compiler.visitor graph envName).prefixChild name = chosen := by
  unfold resolve at resolved
  dsimp only at resolved
  rw [if_neg fun both => named both.1, if_neg named, if_neg envNamed] at resolved
  by_cases live : PrefixedLive graph.roster envName name
  · obtain ⟨other, bare⟩ := single live
    obtain ⟨type, inUse⟩ := Option.ne_none_iff_exists'.mp live
    rw [if_neg (Ne.symm other), inUse] at resolved
    rw [prefixChild_prefixed envNamed named bare live]
    exact Option.some.inj (Except.ok.inj resolved)
  · rw [prefixChild_alone envNamed named (Or.inr live)]
    by_cases same : envName = name
    · rw [if_pos same] at resolved
      split at resolved
      · rw [← same]
        exact Option.some.inj (Except.ok.inj resolved)
      · cases resolved
    · rw [if_neg same, not_not.mp live] at resolved
      dsimp only at resolved
      split at resolved
      · cases resolved
      · exact Option.some.inj (Except.ok.inj resolved)
      · cases resolved

/-- So is the name that `get_clusters` chooses. -/
theorem prefixChild_of_resolveMember {chosen : String} (envNamed : envName ≠ "") (named : name ≠ "")
    (resolved : resolveMember graph.roster envName name = .ok chosen)
    (single : PrefixedLive graph.roster envName name → ¬ HasPrefix envName name) :
    (compiler.visitor graph envName).prefixChild name = chosen := by
  unfold resolveMember at resolved
  by_cases live : PrefixedLive graph.roster envName name
  · obtain ⟨type, inUse⟩ := Option.ne_none_iff_exists'.mp live
    rw [inUse] at resolved
    rw [prefixChild_prefixed envNamed named (single live) live]
    exact Except.ok.inj resolved
  · rw [not_not.mp live] at resolved
    rw [prefixChild_alone envNamed named (Or.inr live)]
    dsimp only at resolved
    split at resolved
    · exact Except.ok.inj resolved
    · cases resolved

end Compiler

namespace World

open RangeApi Compiler

variable {compiler : Compiler} {envName name : String}

/-! ## Reachable graphs -/

/-- A host has no children. -/
theorem neighbours_host (sequence : List WriteCall) {node : Node}
    (found : (GraphDB.ofInstance (empty.calls sequence).primary.inst).getNode name = some node)
    (isHost : node.type (empty.calls sequence).primary.inst = .host) :
    node.neighbours .forward (empty.calls sequence).primary.inst = [] := by
  have ends := liveEnds_calls sequence
  have inUse : (empty.calls sequence).roster .primary name = some .host := by
    change (GraphDB.ofInstance (empty.calls sequence).primary.inst).roster name = some .host
    unfold GraphDB.roster
    rw [found]
    exact congrArg some isHost
  have none : (empty.calls sequence).children name = [] := by
    rw [List.eq_nil_iff_forall_not_mem]
    intro target isChild
    obtain ⟨sourceType, _, isSource, _, isGroup⟩ :=
      edges_from_groups sequence name target (ends.edge_of_child isChild)
    cases isSource.symm.trans inUse
    exact isGroup.elim nofun nofun
  rw [GraphDB.getNode_ofInstance ends.regular.quiet.primary, Option.ite_none_right_eq_some] at found
  rw [← Option.some.inj found.2]
  exact List.map_eq_nil_iff.mp none

/-- What `simple_expand` returns are the children of the node it chooses. -/
theorem simpleExpand_chosen (sequence : List WriteCall) {type : NodeType} {names : List String}
    (returned : (simpleExpand envName name none type (empty.calls sequence)).1 = .ok names) :
    ∃ chosen node, resolve (GraphDB.ofInstance (empty.calls sequence).primary.inst).roster envName
        name = .ok (some chosen) ∧
      (GraphDB.ofInstance (empty.calls sequence).primary.inst).getNode chosen = some node ∧
        names = neighboursOf (.ofInstance (empty.calls sequence).primary.inst) .forward envName
          node := by
  rw [simpleExpand_eq, answering_apply (graphdb_none .primary _)] at returned
  change inNode (.ofInstance (empty.calls sequence).primary.inst) _ _
    (expansion (.ofInstance (empty.calls sequence).primary.inst) envName type) = _ at returned
  generalize isGraph : GraphDB.ofInstance (empty.calls sequence).primary.inst = graph at returned ⊢
  unfold inNode at returned
  cases resolved : resolve graph.roster envName name with
  | error error =>
      rw [resolved] at returned
      cases returned
  | ok found =>
      rw [resolved] at returned
      cases found with
      | none => cases returned
      | some chosen =>
          cases found : graph.getNode chosen with
          | none =>
              simp only [fetch, found] at returned
              cases returned
          | some node =>
              simp only [fetch, found] at returned
              refine ⟨chosen, node, rfl, found, ?_⟩
              unfold expansion at returned
              split at returned
              · cases returned
              · split at returned
                · exact (Except.ok.inj returned).symm
                · rename_i isHost
                  subst isGraph
                  rw [← Except.ok.inj returned, neighboursOf]
                  have none := neighbours_host sequence found (not_not.mp isHost)
                  change [] = ((node.neighbours .forward (empty.calls sequence).primary.inst).map
                    Node.name).map (unprefixNodeName envName)
                  rw [none]
                  rfl

/-- What `get_clusters` returns are the parents of the node it chooses. -/
theorem getClusters_chosen {world : World} {names : List String}
    (returned : (getClusters envName name none world).1 = .ok names) :
    ∃ chosen node, resolveMember (GraphDB.ofInstance world.primary.inst).roster envName name =
        .ok chosen ∧
      (GraphDB.ofInstance world.primary.inst).getNode chosen = some node ∧
        names = neighboursOf (.ofInstance world.primary.inst) .reverse envName node := by
  rw [getClusters_eq, answering_apply (graphdb_none .primary _)] at returned
  change parents (.ofInstance world.primary.inst) _ _ = _ at returned
  generalize GraphDB.ofInstance world.primary.inst = graph at returned ⊢
  unfold parents at returned
  cases resolved : resolveMember graph.roster envName name with
  | error error =>
      rw [resolved] at returned
      cases returned
  | ok chosen =>
      rw [resolved] at returned
      dsimp only at returned
      cases found : graph.getNode chosen with
      | none =>
          rw [found] at returned
          cases returned
      | some node =>
          rw [found] at returned
          exact ⟨chosen, node, rfl, found, (Except.ok.inj returned).symm⟩

theorem ne_empty_of_lexes (lexes : LexesAsWord compiler name) : name ≠ "" := by
  rintro rfl
  have none : RangeScanner.tokens compiler.functions (RangeScanner.scannerOn "".toList) = [] :=
    RangeScanner.tokens_finish (RangeScanner.lexTurn_leave (by decide))
  cases none.symm.trans lexes

/-- An expression gives the names of a list. -/
def ExpressionGives (compiler : Compiler) (world : World) (envName expression : String)
    (names : List String) : Prop :=
  ∃ evaluated, (compiler.expandRangeExpression envName expression none world).1 = .ok evaluated ∧
    Gives evaluated names

/-- `%c` and `*c` give what `simple_expand` and `get_clusters` return, unless
the node with the prefix before the name is live and the name has the prefix
itself or, for the first, is that of the environment. -/
theorem lookup_paths_agree (sequence : List WriteCall) (compiler : Compiler) {envName name : String}
    (envNamed : envName ≠ "") (lexes : LexesAsWord compiler name) :
    (∀ names, (simpleExpand envName name none .unknown (empty.calls sequence)).1 = .ok names →
        (PrefixedLive ((empty.calls sequence).roster .primary) envName name →
          name ≠ envName ∧ ¬ HasPrefix envName name) →
        ExpressionGives compiler (empty.calls sequence) envName ("%" ++ name) names) ∧
      ∀ names, (getClusters envName name none (empty.calls sequence)).1 = .ok names →
        (PrefixedLive ((empty.calls sequence).roster .primary) envName name →
          ¬ HasPrefix envName name) →
        ExpressionGives compiler (empty.calls sequence) envName ("*" ++ name) names := by
  have named := ne_empty_of_lexes lexes
  constructor
  · intro names returned single
    obtain ⟨chosen, node, resolved, found, rfl⟩ := simpleExpand_chosen sequence returned
    rw [← prefixChild_of_resolve envNamed named resolved single] at found
    exact ⟨_, expandRangeExpression_eq _, gives_expand lexes found⟩
  · intro names returned single
    obtain ⟨chosen, node, resolved, found, rfl⟩ := getClusters_chosen returned
    rw [← prefixChild_of_resolveMember envNamed named resolved single] at found
    exact ⟨_, expandRangeExpression_eq _, gives_getCluster lexes found⟩

/-- A compiler without functions. -/
def plainCompiler : Compiler where
  functions _ := false
  function _ _ _ := .ok []
  regex _ := .ok fun _ => false
  mapOrder names := names
  mapOrder_perm := List.Perm.refl

/-- A cluster with the name of its environment. -/
def clusterNamedAsEnv : List WriteCall :=
  [⟨.createEnv, ["e"], 1⟩, ⟨.addClusterToEnv, ["e", "e"], 2⟩,
    ⟨.addHostToCluster, ["e", "e", "h"], 3⟩]

theorem lookup_paths_agree_host :
    (∀ names, (simpleExpand "e" "h" none .unknown (empty.calls clusterNamedAsEnv)).1 = .ok names →
        (PrefixedLive ((empty.calls clusterNamedAsEnv).roster .primary) "e" "h" →
          "h" ≠ "e" ∧ ¬ HasPrefix "e" "h") →
        ExpressionGives plainCompiler (empty.calls clusterNamedAsEnv) "e" ("%" ++ "h") names) ∧
      ∀ names, (getClusters "e" "h" none (empty.calls clusterNamedAsEnv)).1 = .ok names →
        (PrefixedLive ((empty.calls clusterNamedAsEnv).roster .primary) "e" "h" →
          ¬ HasPrefix "e" "h") →
        ExpressionGives plainCompiler (empty.calls clusterNamedAsEnv) "e" ("*" ++ "h") names :=
  lookup_paths_agree clusterNamedAsEnv plainCompiler (by decide)
    (by unfold LexesAsWord; decide +kernel)

/-- A cluster whose name has the prefix of its environment. -/
def clusterNamedPrefixed : List WriteCall :=
  [⟨.createEnv, ["e"], 1⟩, ⟨.addClusterToEnv, ["e", "e#c"], 2⟩]

/-- `simple_expand` takes the name of the environment for the environment, and
the expression takes it for the cluster.  `get_clusters` finds the cluster whose
name has the prefix, and the expression does not. -/
theorem lookup_paths_differ :
    (¬ ∀ (sequence : List WriteCall) (compiler : Compiler) (envName name : String), envName ≠ "" →
      LexesAsWord compiler name → ∀ names,
        (simpleExpand envName name none .unknown (empty.calls sequence)).1 = .ok names →
          ExpressionGives compiler (empty.calls sequence) envName ("%" ++ name) names) ∧
      ¬ ∀ (sequence : List WriteCall) (compiler : Compiler) (envName name : String), envName ≠ "" →
        LexesAsWord compiler name → ∀ names,
          (getClusters envName name none (empty.calls sequence)).1 = .ok names →
            ExpressionGives compiler (empty.calls sequence) envName ("*" ++ name) names := by
  constructor
  · intro all
    have lexes : LexesAsWord plainCompiler "e" := by
      unfold LexesAsWord
      decide +kernel
    have expanded : (simpleExpand "e" "e" none .unknown (empty.calls clusterNamedAsEnv)).1 =
        .ok ["e"] := by decide +kernel
    have evaluated : (plainCompiler.expandRangeExpression "e" ("%" ++ "e") none
        (empty.calls clusterNamedAsEnv)).1 = .ok (.ok ["h"]) := by decide +kernel
    obtain ⟨_, same, results, isResults, members⟩ :=
      all clusterNamedAsEnv plainCompiler "e" "e" (by decide) lexes _ expanded
    cases evaluated.symm.trans same
    cases isResults
    exact absurd ((members "e").mpr List.mem_cons_self) (by decide)
  · intro all
    have lexes : LexesAsWord plainCompiler "e#c" := by
      unfold LexesAsWord
      decide +kernel
    have parents : (getClusters "e" "e#c" none (empty.calls clusterNamedPrefixed)).1 =
        .ok ["e"] := by decide +kernel
    have evaluated : (plainCompiler.expandRangeExpression "e" ("*" ++ "e#c") none
        (empty.calls clusterNamedPrefixed)).1 =
          .ok (.error (.thrown (.invalidRangeExpression "cannot resolve nodee#c"))) := by
      decide +kernel
    obtain ⟨_, same, results, isResults, -⟩ :=
      all clusterNamedPrefixed plainCompiler "e" "e#c" (by decide) lexes _ parents
    cases evaluated.symm.trans same
    cases isResults

end World

end Rangexx
