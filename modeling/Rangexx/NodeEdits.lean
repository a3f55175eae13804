import Mathlib.Data.Finset.Basic
import Mathlib.Data.List.Induction
import Rangexx.GraphDB

/-!
# Runs of changes to one node object

A node object is changed by seven functions: the four that add or remove an
edge at one of its sides, the two for tags and the one for its type.  Seen from
outside, the object has two sets of edges, and a change inserts a name into one
of them, erases a name, or leaves both alone.  `currentEdges` says so without
versions.  The record keeps every one of these sets: after any run of changes
the object reads at an earlier list version the sets it had at that version.
-/

namespace Rangexx

open AscendingScan

/-- A change of a node object.  With `update_other_…_edge` set, the source goes
on to change the object at the other end, which is a change of that object. -/
inductive NodeEdit where
  | addEdge (direction : Direction) (other : String)
  | removeEdge (direction : Direction) (other : String)
  | updateTag (key : String) (values : List String)
  | deleteTag (key : String)
  | setType (type : NodeType)
  deriving DecidableEq, Repr

/-- The sets of edges of a node, one for each direction. -/
abbrev EdgeSets :=
  Direction → Finset String

namespace NodeEdit

/-- What the change does to the record; `none` is the result `false`. -/
def apply (info : NodeInfo) : NodeEdit → Option NodeInfo
  | addEdge direction other => info.addEdge direction other
  | removeEdge direction other => info.removeEdge direction other
  | updateTag key values => some (info.updateTag key values)
  | deleteTag key => info.deleteTag key
  | setType type => some (info.setType type)

/-- What the change is for, on the sets of edges. -/
def applyEdges (sets : EdgeSets) : NodeEdit → EdgeSets
  | addEdge direction other => Function.update sets direction (insert other (sets direction))
  | removeEdge direction other => Function.update sets direction ((sets direction).erase other)
  | updateTag _ _ => sets
  | deleteTag _ => sets
  | setType _ => sets

end NodeEdit

/-- The sets of edges after a run of changes of a fresh node. -/
def currentEdges (edits : List NodeEdit) : EdgeSets :=
  edits.foldl NodeEdit.applyEdges fun _ => ∅

/-- The record after a run of changes; a change that fails leaves it. -/
def NodeInfo.edited (info : NodeInfo) (edits : List NodeEdit) : NodeInfo :=
  edits.foldl (fun info edit => (edit.apply info).getD info) info

namespace Node

/-- `version`. -/
def version (node : Node) (inst : GraphInstance) : Nat :=
  (node.initInfo inst).listVersion

/-- `set_wanted_version`. -/
def setWantedVersion (node : Node) (version : Option Nat) : Node :=
  { node with wantedVersion := version }

/-- The call of one changing function of the object. -/
def edit (node : Node) (inst : GraphInstance) : NodeEdit → Bool × Node × GraphInstance
  | .addEdge direction other => node.addHalfEdge direction other inst
  | .removeEdge direction other => node.removeHalfEdge direction other inst
  | .updateTag key values => node.updateTag key values inst
  | .deleteTag key => node.deleteTag key inst
  | .setType type => (true, node.setType type inst)

/-- The object and the instance after a run of calls. -/
def edits (node : Node) (inst : GraphInstance) (edits : List NodeEdit) : Node × GraphInstance :=
  edits.foldl (fun state edit => (state.1.edit state.2 edit).2) (node, inst)

end Node

/-! ## One change -/

namespace NodeEdit

/-- The record shows exactly the edges of the sets. -/
def Shows (info : NodeInfo) (sets : EdgeSets) : Prop :=
  ∀ direction other, info.Present direction other ↔ other ∈ sets direction

theorem mem_update_insert {sets : EdgeSets} {direction side : Direction} {other name : String} :
    name ∈ Function.update sets direction (insert other (sets direction)) side ↔
      name ∈ sets side ∨ (side = direction ∧ name = other) := by
  by_cases same : side = direction
  · subst same
    simp [or_comm]
  · simp [same]

theorem mem_update_erase {sets : EdgeSets} {direction side : Direction} {other name : String} :
    name ∈ Function.update sets direction ((sets direction).erase other) side ↔
      name ∈ sets side ∧ ¬ (side = direction ∧ name = other) := by
  by_cases same : side = direction
  · subst same
    simp [and_comm]
  · simp [same]

theorem apply_advance {info changed : NodeInfo} {sets : EdgeSets} {edit : NodeEdit}
    (wf : info.WF) (shows : Shows info sets) (applied : edit.apply info = some changed) :
    info.Extends changed ∧ changed.WF ∧ changed.listVersion = info.listVersion + 1 ∧
      Shows changed (edit.applyEdges sets) := by
  -- Each function advances the record to a set of present edges; only these sets differ.
  have advanced : ∃ present, info.Advance changed present ∧
      ∀ direction other, present direction other ↔ other ∈ edit.applyEdges sets direction := by
    cases edit with
    | addEdge direction other =>
        refine ⟨_, NodeInfo.addEdge_advance wf applied, fun side name => ?_⟩
        rw [shows side name]
        exact mem_update_insert.symm
    | removeEdge direction other =>
        refine ⟨_, NodeInfo.removeEdge_advance wf applied, fun side name => ?_⟩
        rw [shows side name]
        exact mem_update_erase.symm
    | updateTag key values =>
        obtain rfl := Option.some.inj applied
        exact ⟨_, NodeInfo.updateTag_advance wf key values, shows⟩
    | deleteTag key => exact ⟨_, NodeInfo.deleteTag_advance wf applied, shows⟩
    | setType type =>
        obtain rfl := Option.some.inj applied
        exact ⟨_, NodeInfo.setType_advance wf type, shows⟩
  obtain ⟨present, advance, same⟩ := advanced
  refine ⟨advance.extends, advance.wf, advance.listVersion, fun direction other => ?_⟩
  exact (advance.present direction other).trans (same direction other)

/-- A change fails only when it would leave the sets as they are. -/
theorem applyEdges_of_none {info : NodeInfo} {sets : EdgeSets} {edit : NodeEdit}
    (wf : info.WF) (shows : Shows info sets) (failed : edit.apply info = none) :
    edit.applyEdges sets = sets := by
  cases edit with
  | addEdge direction other =>
      have present := (NodeInfo.addEdge_eq_none_iff wf direction other).mp failed
      rw [shows direction other] at present
      simp [applyEdges, Finset.insert_eq_self.mpr present]
  | removeEdge direction other =>
      have absent := (NodeInfo.removeEdge_eq_none_iff wf direction other).mp failed
      rw [shows direction other] at absent
      simp [applyEdges, Finset.erase_eq_of_notMem absent]
  | updateTag key values => simp [apply] at failed
  | deleteTag key => rfl
  | setType type => simp [apply] at failed

end NodeEdit

/-! ## Runs of changes -/

theorem currentEdges_concat (edits : List NodeEdit) (edit : NodeEdit) :
    currentEdges (edits ++ [edit]) = edit.applyEdges (currentEdges edits) := by
  simp [currentEdges]

namespace NodeInfo

theorem edited_concat (info : NodeInfo) (edits : List NodeEdit) (edit : NodeEdit) :
    info.edited (edits ++ [edit]) =
      (edit.apply (info.edited edits)).getD (info.edited edits) := by
  simp [edited]

theorem default_shows : NodeEdit.Shows NodeInfo.default fun _ => ∅ := by
  intro direction other
  cases direction <;> simp [Present, NodeInfo.default, edges]

/-- After any run of changes of a fresh record, the record is well formed and
shows the edges that the changes are meant to leave. -/
theorem edited_shows (edits : List NodeEdit) :
    (default.edited edits).WF ∧
      NodeEdit.Shows (default.edited edits) (currentEdges edits) := by
  induction edits using List.reverseRecOn with
  | nil => exact ⟨default_wf, default_shows⟩
  | append_singleton edits edit ih =>
      obtain ⟨wf, shows⟩ := ih
      rw [edited_concat, currentEdges_concat]
      cases applied : edit.apply (default.edited edits) with
      | none =>
          rw [NodeEdit.applyEdges_of_none wf shows applied]
          exact ⟨wf, shows⟩
      | some changed =>
          obtain ⟨-, changedWF, -, changedShows⟩ := NodeEdit.apply_advance wf shows applied
          exact ⟨changedWF, changedShows⟩

/-- One more change keeps the record or moves it to the next list version. -/
theorem edited_concat_extends (edits : List NodeEdit) (edit : NodeEdit) :
    (default.edited edits).Extends (default.edited (edits ++ [edit])) ∧
      (default.edited (edits ++ [edit])).listVersion ≤
        (default.edited edits).listVersion + 1 := by
  obtain ⟨wf, shows⟩ := edited_shows edits
  rw [edited_concat]
  cases applied : edit.apply (default.edited edits) with
  | none => exact ⟨Extends.refl _, Nat.le_succ _⟩
  | some changed =>
      obtain ⟨extended, -, version, -⟩ := NodeEdit.apply_advance wf shows applied
      exact ⟨extended, Nat.le_of_eq version⟩

theorem edited_append_extends (edits more : List NodeEdit) :
    (default.edited edits).Extends (default.edited (edits ++ more)) := by
  induction more using List.reverseRecOn with
  | nil =>
      rw [List.append_nil]
      exact Extends.refl _
  | append_singleton more edit ih =>
      rw [← List.append_assoc]
      exact ih.trans (edited_concat_extends (edits ++ more) edit).1

/-- No list version is skipped. -/
theorem exists_prefix_listVersion {edits : List NodeEdit} {version : Nat}
    (le : version ≤ (default.edited edits).listVersion) :
    ∃ earlier, earlier <+: edits ∧ (default.edited earlier).listVersion = version := by
  induction edits using List.reverseRecOn with
  | nil =>
      have zero : version = 0 := Nat.le_zero.mp le
      subst zero
      exact ⟨[], List.prefix_rfl, rfl⟩
  | append_singleton edits edit ih =>
      have step := (edited_concat_extends edits edit).2
      by_cases before : version ≤ (default.edited edits).listVersion
      · obtain ⟨earlier, isPrefix, same⟩ := ih before
        exact ⟨earlier, isPrefix.trans (List.prefix_append edits [edit]), same⟩
      · refine ⟨edits ++ [edit], List.prefix_rfl, ?_⟩
        omega

end NodeInfo

/-! ## The object -/

namespace Node

theorem edit_initInfo (node : Node) (inst : GraphInstance) (edit : NodeEdit) :
    (node.edit inst edit).2.1.initInfo (node.edit inst edit).2.2 =
      (edit.apply (node.initInfo inst)).getD (node.initInfo inst) := by
  have changed : ∀ update : NodeInfo → Option NodeInfo,
      (node.change update inst).2.1.initInfo (node.change update inst).2.2 =
        (update (node.initInfo inst)).getD (node.initInfo inst) := by
    intro update
    cases updated : update (node.initInfo inst) with
    | none =>
        rw [change_of_none updated]
        rfl
    | some info =>
        rw [change_of_some updated]
        rfl
  cases edit <;> exact changed _

/-- The object holds the changed record, whatever it wrote to the instance. -/
theorem edits_initInfo (node : Node) (inst : GraphInstance) (edits : List NodeEdit) :
    (node.edits inst edits).1.initInfo (node.edits inst edits).2 =
      (node.initInfo inst).edited edits := by
  induction edits using List.reverseRecOn with
  | nil => rfl
  | append_singleton edits edit ih =>
      have last : node.edits inst (edits ++ [edit]) =
          ((node.edits inst edits).1.edit (node.edits inst edits).2 edit).2 := by
        simp [Node.edits]
      rw [last, edit_initInfo, ih, NodeInfo.edited_concat]

theorem initInfo_createNode {name : String} {inst : GraphInstance}
    (fresh : inst.getRecord (.node, name) = none) :
    (createNode name).initInfo inst = NodeInfo.default := by
  simp [createNode, initInfo, Instance.readNode, fresh]

/-- A new object of a node without a record holds what its run of changes made
of the default record. -/
theorem initInfo_edits {name : String} {inst after : GraphInstance} {object : Node}
    {run : List NodeEdit} (fresh : inst.getRecord (.node, name) = none)
    (reached : (createNode name).edits inst run = (object, after)) :
    object.initInfo after = NodeInfo.default.edited run := by
  have changed := edits_initInfo (createNode name) inst run
  rwa [reached, initInfo_createNode fresh] at changed

/-- Every list version up to the present one was the version of the object at
some moment of the run. -/
theorem exists_moment {name : String} {inst later : GraphInstance} {node : Node}
    {edits : List NodeEdit} {wanted : Nat} (fresh : inst.getRecord (.node, name) = none)
    (ran : (createNode name).edits inst edits = (node, later))
    (le : wanted ≤ node.version later) :
    ∃ earlier past before, earlier <+: edits ∧
      (createNode name).edits inst earlier = (past, before) ∧ past.version before = wanted := by
  rw [version, initInfo_edits fresh ran] at le
  obtain ⟨earlier, isPrefix, sameVersion⟩ := NodeInfo.exists_prefix_listVersion le
  refine ⟨earlier, _, _, isPrefix, rfl, ?_⟩
  rw [version, initInfo_edits fresh rfl, sameVersion]

/-- The names of the nodes that `forward_edges` or `reverse_edges` returns. -/
def edgeNames (node : Node) (direction : Direction) (inst : GraphInstance) : List String :=
  (node.neighbours direction inst).map Node.name

theorem edgeNames_eq (node : Node) (direction : Direction) (inst : GraphInstance) :
    node.edgeNames direction inst =
      (node.initInfo inst).getEdges direction node.wantedVersion := by
  simp [edgeNames, neighbours, Function.comp_def]

/-- The edge history of a node object.  Every list version up to the present
one was the version of the object at some moment of the run, and reading at it
gives, without repetition, the edges the object had at that moment. -/
theorem edgeNames_at_listVersion {name : String} {inst later : GraphInstance} {node : Node}
    {edits : List NodeEdit} {wanted : Nat} (fresh : inst.getRecord (.node, name) = none)
    (ran : (createNode name).edits inst edits = (node, later))
    (le : wanted ≤ node.version later) :
    (∃ earlier past before, earlier <+: edits ∧
      (createNode name).edits inst earlier = (past, before) ∧ past.version before = wanted) ∧
      ∀ earlier past before, earlier <+: edits →
        (createNode name).edits inst earlier = (past, before) → past.version before = wanted →
        ∀ direction,
          ((node.setWantedVersion (some wanted)).edgeNames direction later).Nodup ∧
          (∀ other, other ∈ (node.setWantedVersion (some wanted)).edgeNames direction later ↔
            other ∈ currentEdges earlier direction) ∧
          ∀ other, other ∈ (past.setWantedVersion none).edgeNames direction before ↔
            other ∈ currentEdges earlier direction := by
  have names : ∀ (object : Node) (after : GraphInstance) (version : Option Nat)
      (direction : Direction), (object.setWantedVersion version).edgeNames direction after =
        (object.initInfo after).getEdges direction version := by
    intro object after version direction
    exact edgeNames_eq _ direction after
  constructor
  · exact exists_moment fresh ran le
  · rintro earlier past before ⟨more, rfl⟩ reached sameVersion direction
    rw [version, initInfo_edits fresh reached] at sameVersion
    obtain ⟨wf, shows⟩ := NodeInfo.edited_shows earlier
    have laterWF := (NodeInfo.edited_shows (earlier ++ more)).1
    have kept := NodeInfo.edited_append_extends earlier more
    rw [names, names, initInfo_edits fresh ran, initInfo_edits fresh reached]
    refine ⟨NodeInfo.nodup_getEdges laterWF direction _, fun other => ?_, fun other => ?_⟩
    · rw [NodeInfo.mem_getEdges laterWF, ← shows direction other]
      have pastEdge := kept.pastEdges direction wanted other (Nat.le_of_eq sameVersion.symm)
      unfold NodeInfo.Present
      rw [sameVersion]
      exact pastEdge
    · rw [NodeInfo.mem_getEdges wf, ← shows direction other]
      rfl

/-- A node that gains an edge, loses it and gains it again. -/
theorem edgeNames_of_lost_edge :
    "h" ∈ (((createNode "c").edits Instance.empty [.addEdge .forward "h",
        .removeEdge .forward "h", .addEdge .forward "h"]).1.setWantedVersion
          (some 2)).edgeNames .forward ((createNode "c").edits Instance.empty
            [.addEdge .forward "h", .removeEdge .forward "h", .addEdge .forward "h"]).2 ↔
      "h" ∈ currentEdges [.addEdge .forward "h", .removeEdge .forward "h"] .forward :=
  ((@edgeNames_at_listVersion "c" Instance.empty _ _ _ 2 rfl rfl (by decide)).2
    [.addEdge .forward "h", .removeEdge .forward "h"] _ _ ⟨[.addEdge .forward "h"], rfl⟩ rfl
      (by decide) .forward).2.1 "h"

end Node

end Rangexx
