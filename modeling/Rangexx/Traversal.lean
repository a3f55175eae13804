import Rangexx.Searches

/-!
# Traversals of an earlier version

`get_edges` gives a neighbour the wanted list version of the node it starts
from, although the list versions of two nodes count different changes.  A walk
from a node read at an earlier version therefore reads every node at the list
version of the first one.  `walk_view_iff` says exactly when this shows the
earlier graph: when every node on the way reads the same at that list version
as at its own.
-/

namespace Rangexx

open AscendingScan Worklist

/-- Follow edges by direction and name. -/
def Node.walk (inst : GraphInstance) : Node → List (Direction × String) → Option Node
  | node, [] => some node
  | node, (direction, name) :: path =>
      match (node.neighbours direction inst).find? fun neighbour => neighbour.name == name with
      | none => none
      | some neighbour => neighbour.walk inst path

/-- A record reads the same at two list versions. -/
structure NodeInfo.SameAt (info : NodeInfo) (version other : Nat) : Prop where
  edges : ∀ direction name,
    EdgeAt (info.edges direction) version name ↔ EdgeAt (info.edges direction) other name
  tags : ∀ key, tagAt info.tags version key = tagAt info.tags other key

theorem NodeInfo.SameAt.refl (info : NodeInfo) (version : Nat) : info.SameAt version version :=
  ⟨fun _ _ => Iff.rfl, fun _ => rfl⟩

theorem Node.walk_cons (inst : GraphInstance) (node : Node) (direction : Direction)
    (name : String) (path : List (Direction × String)) :
    node.walk inst ((direction, name) :: path) =
      if name ∈ (node.neighbours direction inst).map Node.name then
        (⟨name, node.wantedVersion, none⟩ : Node).walk inst path
      else none := by
  have search : ((node.neighbours direction inst).find? fun neighbour =>
      neighbour.name == name) =
        if name ∈ (node.neighbours direction inst).map Node.name then
          some ⟨name, node.wantedVersion, none⟩ else none := by
    unfold Node.neighbours
    generalize (node.initInfo inst).getEdges direction node.wantedVersion = names
    induction names with
    | nil => rfl
    | cons head rest ih =>
        by_cases same : head = name
        · simp [same]
        · simp only [List.map_cons, List.find?_cons, List.mem_cons]
          simp only [beq_eq_false_iff_ne.mpr same, ih, Ne.symm same, false_or]
  rw [Node.walk, search]
  split
  · rename_i isNone
    split at isNone
    · simp at isNone
    · rename_i absent
      rw [if_neg absent]
  · rename_i neighbour isSome
    split at isSome
    · rename_i present
      rw [if_pos present, Option.some.inj isSome]
    · simp at isSome

section Simulation

variable {earlier later : GraphInstance}

/-- A node object of the later instance and one of the earlier instance for
the same node, the first reading at `wanted` and the second currently. -/
structure Linked (earlier later : GraphInstance) (wanted : Option Nat) (node past : Node) :
    Prop where
  name : past.name = node.name
  wanted : node.wantedVersion = wanted
  info : node.initInfo later = later.readNode node.name
  pastWanted : past.wantedVersion = none
  pastInfo : past.initInfo earlier = earlier.readNode node.name

theorem Linked.neighbour (earlier later : GraphInstance) (wanted : Option Nat) (name : String) :
    Linked earlier later wanted ⟨name, wanted, none⟩ ⟨name, none, none⟩ where
  name := rfl
  wanted := rfl
  info := rfl
  pastWanted := rfl
  pastInfo := rfl

/-- Two linked objects show the same exactly when the record reads the same at
the wanted list version and at the one it had in the earlier instance. -/
theorem Linked.sameView_iff {wanted : Option Nat} {node past : Node}
    (linked : Linked earlier later wanted node past)
    (wf : (later.readNode node.name).WF) (pastWF : (earlier.readNode node.name).WF)
    (extended : (earlier.readNode node.name).Extends (later.readNode node.name)) :
    SameView node later past earlier ↔
      (later.readNode node.name).SameAt
        ((later.readNode node.name).cmpVersion wanted)
        (earlier.readNode node.name).listVersion := by
  have edges (direction : Direction) (name : String) :
      name ∈ (node.neighbours direction later).map Node.name ↔
        EdgeAt ((later.readNode node.name).edges direction)
          ((later.readNode node.name).cmpVersion wanted) name := by
    rw [Node.mem_neighbours (by rw [linked.info]; exact wf), linked.info, linked.wanted]
  have pastEdges (direction : Direction) (name : String) :
      name ∈ (past.neighbours direction earlier).map Node.name ↔
        EdgeAt ((later.readNode node.name).edges direction)
          (earlier.readNode node.name).listVersion name := by
    rw [Node.mem_neighbours (by rw [linked.pastInfo]; exact pastWF), linked.pastInfo,
      linked.pastWanted]
    exact (extended.pastEdges direction _ name (Nat.le_refl _)).symm
  have tags (key : String) :
      (node.tags later).lookup key =
        tagAt (later.readNode node.name).tags
          ((later.readNode node.name).cmpVersion wanted) key := by
    rw [Node.lookup_tags (by rw [linked.info]; exact wf), linked.info, linked.wanted]
  have pastTags (key : String) :
      (past.tags earlier).lookup key =
        tagAt (later.readNode node.name).tags
          (earlier.readNode node.name).listVersion key := by
    rw [Node.lookup_tags (by rw [linked.pastInfo]; exact pastWF), linked.pastInfo,
      linked.pastWanted]
    exact (extended.pastTags _ key (Nat.le_refl _)).symm
  constructor
  · intro view
    refine ⟨fun direction name => ?_, fun key => ?_⟩
    · rw [← edges, ← pastEdges]
      exact view.edges direction name
    · rw [← tags, ← pastTags]
      exact view.tags key
  · intro same
    refine ⟨fun direction name => ?_, fun key => ?_⟩
    · rw [edges, pastEdges]
      exact same.edges direction name
    · rw [tags, pastTags]
      exact same.tags key

/-- Every node on a walk from `node` shows what it showed in the earlier
instance. -/
def ShowsPast (earlier later : GraphInstance) (node : Node) : Prop :=
  ∀ path reached, node.walk later path = some reached →
    SameView reached later (Node.createNode reached.name) earlier

/-- Every node on a walk in the earlier instance has a record that reads the
same at `wanted` as at the list version it had there. -/
def CoincidesOnWalks (earlier later : GraphInstance) (wanted : Option Nat) (past : Node) :
    Prop :=
  ∀ path reached, past.walk earlier path = some reached →
    (later.readNode reached.name).SameAt
      ((later.readNode reached.name).cmpVersion wanted)
      (earlier.readNode reached.name).listVersion

theorem ShowsPast.neighbour {node : Node} (shows : ShowsPast earlier later node)
    {direction : Direction} {name : String}
    (member : name ∈ (node.neighbours direction later).map Node.name) :
    ShowsPast earlier later ⟨name, node.wantedVersion, none⟩ := by
  intro path reached walked
  apply shows ((direction, name) :: path) reached
  rw [Node.walk_cons, if_pos member]
  exact walked

theorem CoincidesOnWalks.neighbour {wanted : Option Nat} {past : Node}
    (current : past.wantedVersion = none)
    (coincides : CoincidesOnWalks earlier later wanted past)
    {direction : Direction} {name : String}
    (member : name ∈ (past.neighbours direction earlier).map Node.name) :
    CoincidesOnWalks earlier later wanted ⟨name, none, none⟩ := by
  intro path reached walked
  apply coincides ((direction, name) :: path) reached
  rw [Node.walk_cons, if_pos member, current]
  exact walked

/-- A linked object shows the same as a fresh object for its node. -/
theorem Linked.view_createNode {wanted : Option Nat} {node past : Node}
    (linked : Linked earlier later wanted node past) :
    SameView node later past earlier ↔
      SameView node later (Node.createNode node.name) earlier := by
  have sameInfo : past.initInfo earlier = (Node.createNode node.name).initInfo earlier :=
    linked.pastInfo
  have sameEdges (direction : Direction) : past.neighbours direction earlier =
      (Node.createNode node.name).neighbours direction earlier := by
    unfold Node.neighbours
    rw [sameInfo, linked.pastWanted]
    rfl
  have sameTags : past.tags earlier = (Node.createNode node.name).tags earlier := by
    unfold Node.tags
    rw [sameInfo, linked.pastWanted]
    rfl
  constructor
  · intro view
    refine ⟨fun direction name => ?_, fun key => ?_⟩
    · rw [← sameEdges]
      exact view.edges direction name
    · rw [← sameTags]
      exact view.tags key
  · intro view
    refine ⟨fun direction name => ?_, fun key => ?_⟩
    · rw [sameEdges]
      exact view.edges direction name
    · rw [sameTags]
      exact view.tags key

variable (wf : ∀ name, (later.readNode name).WF) (pastWF : ∀ name, (earlier.readNode name).WF)
  (extended : ∀ name, (earlier.readNode name).Extends (later.readNode name))

include wf pastWF extended

theorem Linked.coincidesOnWalks {wanted : Option Nat} {node past : Node}
    (linked : Linked earlier later wanted node past) (shows : ShowsPast earlier later node) :
    CoincidesOnWalks earlier later wanted past := by
  intro path
  induction path generalizing node past with
  | nil =>
      intro reached walked
      obtain rfl : past = reached := Option.some.inj walked
      have view := linked.view_createNode.mpr (shows [] node rfl)
      rw [linked.name]
      exact (linked.sameView_iff (wf _) (pastWF _) (extended _)).mp view
  | cons step path ih =>
      obtain ⟨direction, name⟩ := step
      intro reached walked
      have view := linked.view_createNode.mpr (shows [] node rfl)
      rw [Node.walk_cons] at walked
      split at walked
      · rename_i member
        rw [linked.pastWanted] at walked
        have forward := (view.edges direction name).mpr member
        have next := shows.neighbour forward
        rw [linked.wanted] at next
        exact ih (Linked.neighbour earlier later wanted name) next reached walked
      · simp at walked

theorem Linked.showsPast {wanted : Option Nat} {node past : Node}
    (linked : Linked earlier later wanted node past)
    (coincides : CoincidesOnWalks earlier later wanted past) :
    ShowsPast earlier later node := by
  intro path
  induction path generalizing node past with
  | nil =>
      intro reached walked
      obtain rfl : node = reached := Option.some.inj walked
      have same := coincides [] past rfl
      rw [linked.name] at same
      exact linked.view_createNode.mp
        ((linked.sameView_iff (wf _) (pastWF _) (extended _)).mpr same)
  | cons step path ih =>
      obtain ⟨direction, name⟩ := step
      intro reached walked
      have same := coincides [] past rfl
      rw [linked.name] at same
      have view := (linked.sameView_iff (wf _) (pastWF _) (extended _)).mpr same
      rw [Node.walk_cons] at walked
      split at walked
      · rename_i member
        rw [linked.wanted] at walked
        have back := (view.edges direction name).mp member
        exact ih (Linked.neighbour earlier later wanted name)
          (coincides.neighbour linked.pastWanted back) reached walked
      · simp at walked

omit wf pastWF in
/-- When the nodes on all walks coincide, a search follows the edges of the
earlier instance. -/
theorem CoincidesOnWalks.mem_search_iff (committed : Committed later)
    (pastCommitted : Committed earlier) {node : Node}
    (coincides : CoincidesOnWalks earlier later node.wantedVersion (Node.createNode node.name))
    (direction : Direction) (name : String) :
    name ∈ RangeApi.search later direction node [] ↔
      name ∈ RangeApi.search earlier direction (Node.createNode node.name) [] := by
  have agree : ∀ key,
      Reaches (RangeApi.nextNames earlier direction none) node.name key →
      CoincidesOnWalks earlier later node.wantedVersion (Node.createNode key) := by
    intro key reaches
    induction reaches with
    | refl => exact coincides
    | tail _ edge ih => exact ih.neighbour rfl edge
  have sameEdges : ∀ key,
      Reaches (RangeApi.nextNames earlier direction none) node.name key → ∀ target,
        target ∈ RangeApi.nextNames later direction node.wantedVersion key ↔
          target ∈ RangeApi.nextNames earlier direction none key := by
    intro key reaches target
    rw [RangeApi.mem_nextNames committed, RangeApi.mem_nextNames pastCommitted]
    exact ((agree key reaches [] _ rfl).edges direction target).trans
      ((extended key).pastEdges direction _ target (Nat.le_refl _))
  have searched := RangeApi.mem_search committed direction node [] (by simp) name
  have pastSearched := RangeApi.mem_search pastCommitted direction (Node.createNode node.name)
    [] (by simp) name
  simp only [List.not_mem_nil, false_or] at searched pastSearched
  rw [searched, pastSearched]
  exact reaches_congr sameEdges name

omit wf pastWF extended in
/-- When every node shows its past, the same walks are possible. -/
theorem Linked.walk_isSome {wanted : Option Nat} {node past : Node}
    (linked : Linked earlier later wanted node past) (shows : ShowsPast earlier later node)
    (path : List (Direction × String)) :
    (node.walk later path).isSome = (past.walk earlier path).isSome := by
  induction path generalizing node past with
  | nil => rfl
  | cons step path ih =>
      obtain ⟨direction, name⟩ := step
      have view := linked.view_createNode.mpr (shows [] node rfl)
      rw [Node.walk_cons, Node.walk_cons]
      by_cases member : name ∈ (node.neighbours direction later).map Node.name
      · have next := shows.neighbour member
        rw [if_pos member, if_pos ((view.edges direction name).mp member)]
        rw [linked.wanted] at next ⊢
        rw [linked.pastWanted]
        exact ih (Linked.neighbour earlier later wanted name) next
      · rw [if_neg member, if_neg (mt (view.edges direction name).mpr member)]

end Simulation

namespace GraphDB

/-- The node that a later graph, set to an earlier version, fetches. -/
private theorem fetched_at_past {before after : List (List TxnOp)}
    (positive : 1 ≤ (history before).version) {graph : GraphDB}
    (isSet : (history (before ++ after)).setWantedVersion (some (history before).version) =
      (.ok true, graph))
    {name : String} {node : Node} (found : graph.getNode name = some node) :
    graph.inst = (history (before ++ after)).inst ∧
      Past (history before).inst graph.inst ∧ node = ⟨name,
        if (history before).version ≠ (history (before ++ after)).version then
          listedVersion name
            (graph.inst.changelist.change.drop ((history before).version - 1)) else none,
        some (graph.inst.readNode name)⟩ := by
  have earlier := history_settled before
  have settled := history_settled (before ++ after)
  have past : Past (history before).inst (history (before ++ after)).inst := by
    rw [history_append]
    exact (earlier.transactions after).2
  have le : (history before).version ≤
      (history (before ++ after)).inst.changelist.currentVersion := by
    rw [earlier.version_eq]
    exact past.version
  obtain ⟨reached, isReached, sameInst, isWanted, positioned⟩ :=
    setWantedVersion_eq settled.committed settled.positioned positive le
  obtain rfl : reached = graph := by
    rw [isSet] at isReached
    exact (Prod.ext_iff.mp isReached).2.symm
  have committed : Committed reached.inst := by
    rw [sameInst]
    exact settled.committed
  have version : reached.version = (history (before ++ after)).version := by
    rw [GraphDB.version, sameInst]
    rfl
  refine ⟨sameInst, ?_, ?_⟩
  · rw [sameInst]
    exact past
  · rw [getNode_eq committed, isWanted, version, Option.getD_some] at found
    split at found
    · rw [positioned _ isWanted name] at found
      exact (Option.some.inj found).symm
    · simp at found

/-- Walks from a node fetched at an earlier version show the graph of that
version, and searches find what they found then, exactly when the version is
the current one, or every node on a walk in the earlier graph reads the same at
the list version that the changelist gives the first node as at its own. -/
theorem walk_view_iff (before after : List (List TxnOp))
    (positive : 1 ≤ (history before).version) {graph : GraphDB}
    (isSet : (history (before ++ after)).setWantedVersion (some (history before).version) =
      (.ok true, graph))
    {name : String} {node : Node} (found : graph.getNode name = some node) :
    (ShowsPast (history before).inst graph.inst node ∧
      (∀ path, (node.walk graph.inst path).isSome =
        ((Node.createNode name).walk (history before).inst path).isSome) ∧
      ∀ direction other, other ∈ RangeApi.search graph.inst direction node [] ↔
        other ∈ RangeApi.search (history before).inst direction (Node.createNode name) []) ↔
      ((history (before ++ after)).version = (history before).version ∨
        CoincidesOnWalks (history before).inst graph.inst
          (listedVersion name
            (graph.inst.changelist.change.drop ((history before).version - 1)))
          (Node.createNode name)) := by
  have earlier := history_settled before
  have settled := history_settled (before ++ after)
  obtain ⟨sameInst, past, isNode⟩ := fetched_at_past positive isSet found
  have committed : Committed graph.inst := by
    rw [sameInst]
    exact settled.committed
  have linked : Linked (history before).inst graph.inst node.wantedVersion node
      (Node.createNode name) := by
    rw [isNode]
    exact ⟨rfl, rfl, rfl, rfl, rfl⟩
  have showsIff : ShowsPast (history before).inst graph.inst node ↔
      CoincidesOnWalks (history before).inst graph.inst node.wantedVersion
        (Node.createNode name) :=
    ⟨linked.coincidesOnWalks committed.wf earlier.committed.wf past.records,
      linked.showsPast committed.wf earlier.committed.wf past.records⟩
  have walksToo : (ShowsPast (history before).inst graph.inst node ∧
      (∀ path, (node.walk graph.inst path).isSome =
        ((Node.createNode name).walk (history before).inst path).isSome) ∧
      ∀ direction other, other ∈ RangeApi.search graph.inst direction node [] ↔
        other ∈ RangeApi.search (history before).inst direction (Node.createNode name) []) ↔
      ShowsPast (history before).inst graph.inst node := by
    refine ⟨And.left, fun shows => ⟨shows, linked.walk_isSome shows, ?_⟩⟩
    have coincides := showsIff.mp shows
    have sameName : node.name = name := by rw [isNode]
    rw [← sameName] at coincides ⊢
    exact coincides.mem_search_iff past.records committed earlier.committed
  rw [walksToo, showsIff]
  by_cases current : (history (before ++ after)).version = (history before).version
  · have unchanged : ∀ other, graph.inst.readNode other =
        (history before).inst.readNode other := by
      apply past.unchanged
      rw [sameInst, ← settled.version_eq, current, earlier.version_eq]
    have notWanted : node.wantedVersion = none := by
      rw [isNode]
      simp [current]
    rw [notWanted]
    refine ⟨fun _ => Or.inl current, fun _ path reached _ => ?_⟩
    rw [unchanged reached.name]
    exact NodeInfo.SameAt.refl _ _
  · have wanted : node.wantedVersion = listedVersion name
        (graph.inst.changelist.change.drop ((history before).version - 1)) := by
      rw [isNode]
      simp [Ne.symm current]
    rw [wanted]
    constructor
    · exact Or.inr
    · rintro (same | coincides)
      · exact absurd same current
      · exact coincides

/-- An environment with one cluster, which carries a tag, and a change of the
environment. -/
def taggedCluster : List (List TxnOp) :=
  [[.create "env", .setType 0 .environment, .create "cluster", .setType 1 .cluster,
    .addEdge .forward 0 1 true, .updateTag 1 "key" ["value"]],
    [.getNode "env", .updateTag 0 "key" ["value"]]]

theorem walk_view_iff_taggedCluster :
    ∃ graph node, (history taggedCluster).setWantedVersion (some 2) = (.ok true, graph) ∧
      graph.getNode "env" = some node ∧
      ShowsPast (history taggedCluster).inst graph.inst node := by
  have live : (((history taggedCluster).setWantedVersion (some 2)).2.getNode "env").isSome =
      true := by decide
  obtain ⟨node, found⟩ := Option.isSome_iff_exists.mp live
  have isSet : (history (taggedCluster ++ [])).setWantedVersion
      (some (history taggedCluster).version) =
        (.ok true, ((history taggedCluster).setWantedVersion (some 2)).2) :=
    Prod.ext (by decide) rfl
  have shows := (walk_view_iff taggedCluster [] (by decide) isSet found).mpr (Or.inl rfl)
  exact ⟨_, node, Prod.ext (by decide) rfl, found, shows.1⟩

/-- At version 1 the cluster carried its tag, but the neighbour of the
environment fetched at version 1 shows none: it is read at the list version of
the environment, which counts one change less. -/
theorem walk_loses_tag :
    ∃ graph node cluster,
      (history taggedCluster).setWantedVersion (some 1) = (.ok true, graph) ∧
      graph.getNode "env" = some node ∧
      node.walk graph.inst [(.forward, "cluster")] = some cluster ∧
      (cluster.tags graph.inst).lookup "key" = none ∧
      ((Node.createNode "cluster").tags (history (taggedCluster.take 1)).inst).lookup "key" =
        some ["value"] ∧
      (history (taggedCluster.take 1)).version = 1 := by
  refine ⟨((history taggedCluster).setWantedVersion (some 1)).2,
    ⟨"env", some 2,
      some (((history taggedCluster).setWantedVersion (some 1)).2.inst.readNode "env")⟩,
    ⟨"cluster", some 2, none⟩, Prod.ext ?_ rfl, ?_, ?_, ?_, ?_, ?_⟩
  all_goals decide

end GraphDB

end Rangexx
