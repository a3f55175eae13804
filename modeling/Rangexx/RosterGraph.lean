import Rangexx.Roster

/-!
# Graphs over a roster

A directed graph whose nodes are the names of a roster.  A step changes the
roster, may add edges and leaves no edge at a name it takes out of use.  What
an edge is allowed to join then only has to be checked for the edges a step
adds.
-/

structure RosterGraph (Name Kind : Type) where
  roster : Roster Name Kind
  edge : Name → Name → Prop

namespace RosterGraph

variable {Name Kind : Type} [DecidableEq Name]

structure Step (change : Roster.Change Name Kind) (links : Name → Name → Prop)
    (before after : RosterGraph Name Kind) : Prop where
  roster : after.roster = change.apply before.roster
  edges : ∀ source target, after.edge source target →
    before.edge source target ∨ links source target
  erased : ∀ name, change = .erase name → ∀ source target, after.edge source target →
    source ≠ name ∧ target ≠ name

/-- Every edge joins two names in use that the rule allows to be joined. -/
def Obeys (rule : Name → Kind → Name → Kind → Prop) (graph : RosterGraph Name Kind) : Prop :=
  ∀ source target, graph.edge source target → ∃ sourceKind targetKind,
    graph.roster source = some sourceKind ∧ graph.roster target = some targetKind ∧
      rule source sourceKind target targetKind

section Steps

variable {change : Roster.Change Name Kind} {links : Name → Name → Prop}
  {before after : RosterGraph Name Kind} {rule : Name → Kind → Name → Kind → Prop}

theorem Step.kept (step : Step change links before after) {name : Name} {kind : Kind}
    (notErased : change ≠ .erase name) (inUse : before.roster name = some kind) :
    after.roster name = some kind := by
  rw [step.roster]
  exact change.apply_of_some inUse notErased

theorem Step.kept_source (step : Step change links before after) {source target : Name}
    {kind : Kind} (edge : after.edge source target) (inUse : before.roster source = some kind) :
    after.roster source = some kind :=
  step.kept (fun isErased => (step.erased source isErased source target edge).1 rfl) inUse

theorem Step.kept_target (step : Step change links before after) {source target : Name}
    {kind : Kind} (edge : after.edge source target) (inUse : before.roster target = some kind) :
    after.roster target = some kind :=
  step.kept (fun isErased => (step.erased target isErased source target edge).2 rfl) inUse

theorem Obeys.step (obeys : Obeys rule before) (step : Step change links before after)
    (allowed : ∀ source target, links source target → ∃ sourceKind targetKind,
      after.roster source = some sourceKind ∧ after.roster target = some targetKind ∧
        rule source sourceKind target targetKind) : Obeys rule after := by
  intro source target edge
  rcases step.edges source target edge with old | new
  · obtain ⟨sourceKind, targetKind, isSource, isTarget, isAllowed⟩ := obeys source target old
    exact ⟨sourceKind, targetKind, step.kept_source edge isSource,
      step.kept_target edge isTarget, isAllowed⟩
  · exact allowed source target new

/-- The ends of an edge that was there before have the kinds they had. -/
theorem Obeys.kinds_eq (obeys : Obeys rule before) (step : Step change links before after)
    {source target : Name} (edge : after.edge source target) (old : before.edge source target) :
    before.roster source = after.roster source ∧ before.roster target = after.roster target := by
  obtain ⟨sourceKind, targetKind, isSource, isTarget, _⟩ := obeys source target old
  constructor
  · rw [isSource, step.kept_source edge isSource]
  · rw [isTarget, step.kept_target edge isTarget]

end Steps

end RosterGraph
