import Mathlib.Logic.Basic

/-!
# Rosters

A roster says which names are in use and for what.  A change of a roster makes
sure a name is in use, takes a name out of use, or does nothing.  Two rosters
that agree still agree after the same change.
-/

abbrev Roster (Name Kind : Type) : Type :=
  Name → Option Kind

namespace Roster

variable {Name Kind : Type} [DecidableEq Name]

inductive Change (Name Kind : Type) where
  | keep
  | ensure (name : Name) (kind : Kind)
  | erase (name : Name)
  deriving DecidableEq, Repr

/-- The roster after a change; a name in use keeps its kind. -/
def Change.apply : Change Name Kind → Roster Name Kind → Roster Name Kind
  | .keep, roster => roster
  | .ensure name kind, roster => fun other =>
      if other = name then some ((roster name).getD kind) else roster other
  | .erase name, roster => fun other => if other = name then none else roster other

theorem Change.apply_ensure_of_isSome {roster : Roster Name Kind} {name : Name} {kind : Kind}
    (inUse : (roster name).isSome) : (Change.ensure name kind).apply roster = roster := by
  obtain ⟨found, isFound⟩ := Option.isSome_iff_exists.mp inUse
  funext other
  simp only [apply]
  split
  · rename_i same
    rw [same, isFound, Option.getD_some]
  · rfl

theorem Change.apply_ensure_of_none {roster : Roster Name Kind} {name : Name} {kind : Kind}
    (unused : roster name = none) (other : Name) :
    (Change.ensure name kind).apply roster other =
      if other = name then some kind else roster other := by
  simp only [apply, unused, Option.getD_none]

/-- Only an erasure takes a name out of use, and no change gives it another
kind. -/
theorem Change.apply_of_some {roster : Roster Name Kind} {name : Name} {kind : Kind}
    (change : Change Name Kind) (inUse : roster name = some kind)
    (notErased : change ≠ .erase name) : change.apply roster name = some kind := by
  cases change with
  | keep => exact inUse
  | ensure other otherKind =>
      simp only [apply]
      split
      · rename_i same
        rw [← same, inUse, Option.getD_some]
      · exact inUse
  | erase other =>
      simp only [apply]
      rw [if_neg, inUse]
      rintro rfl
      exact notErased rfl

/-- A name in use after a change was in use before, or has just come into
use. -/
theorem Change.of_apply_eq_some {roster : Roster Name Kind} {name : Name} {kind : Kind}
    {change : Change Name Kind} (inUse : change.apply roster name = some kind) :
    roster name = some kind ∨ roster name = none ∧ change = .ensure name kind := by
  cases change with
  | keep => exact Or.inl inUse
  | ensure other otherKind =>
      simp only [apply] at inUse
      split at inUse
      · rename_i same
        subst same
        cases before : roster name with
        | none =>
            rw [before] at inUse
            exact Or.inr ⟨rfl, congrArg (Change.ensure name) (Option.some.inj inUse)⟩
        | some old =>
            rw [before] at inUse
            exact Or.inl inUse
      · exact Or.inl inUse
  | erase other =>
      simp only [apply] at inUse
      split at inUse
      · simp at inUse
      · exact Or.inl inUse

end Roster
