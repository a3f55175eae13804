import Mathlib.Logic.Function.Basic
import Mathlib.Logic.ExistsUnique

/-!
# Lists that differ at one position

A fold whose step is injective in the state and in the element tells two lists
apart that differ at one position: the states before it are the same, those
after it are not, and they stay different to the end.
-/

namespace SingleChange

variable {α σ : Type}

/-- Two lists of one length that differ at one position and no other. -/
inductive Changed : List α → List α → Prop
  | here {first second : α} (different : first ≠ second) (rest : List α) :
      Changed (first :: rest) (second :: rest)
  | there (common : α) {first second : List α} (changed : Changed first second) :
      Changed (common :: first) (common :: second)

theorem Changed.ne_nil {first second : List α} (changed : Changed first second) :
    first ≠ [] := by
  cases changed <;> simp

theorem Changed.symm {first second : List α} (changed : Changed first second) :
    Changed second first := by
  induction changed with
  | here different rest => exact .here different.symm rest
  | there common changed ih => exact .there common ih

/-- The position, from its index. -/
theorem changed_of_unique {first second : List α} (lengths : first.length = second.length)
    (unique : ∃! pos : Nat, first[pos]? ≠ second[pos]?) : Changed first second := by
  induction first generalizing second with
  | nil =>
      have : second = [] := List.eq_nil_of_length_eq_zero lengths.symm
      subst this
      obtain ⟨pos, different, -⟩ := unique
      exact absurd rfl different
  | cons a first ih =>
      cases second with
      | nil => simp at lengths
      | cons b second =>
          obtain ⟨pos, different, only⟩ := unique
          cases pos with
          | zero =>
              have same : first = second := by
                apply List.ext_getElem?
                intro index
                by_contra other
                have := only (index + 1) (by simpa using other)
                omega
              subst same
              exact .here (by simpa using different) first
          | succ pos =>
              have same : a = b := by
                by_contra other
                have := only 0 (by simpa using other)
                omega
              subst same
              refine .there a (ih (by simpa using lengths) ⟨pos, by simpa using different, ?_⟩)
              intro index other
              have := only (index + 1) (by simpa using other)
              omega

/-- States that differ stay different. -/
theorem foldl_injective {step : σ → α → σ}
    (state : ∀ a, Function.Injective fun s => step s a) (list : List α) :
    Function.Injective fun s => list.foldl step s := by
  induction list with
  | nil => exact fun s t same => same
  | cons a list ih => exact fun s t same => state a (ih same)

theorem Changed.foldl_ne {step : σ → α → σ} {first second : List α}
    (changed : Changed first second)
    (state : ∀ a, Function.Injective fun s => step s a)
    (input : ∀ s, Function.Injective (step s)) (start : σ) :
    first.foldl step start ≠ second.foldl step start := by
  induction changed generalizing start with
  | here different rest =>
      intro same
      exact different (input start (foldl_injective state rest same))
  | there common changed ih => exact ih (step start common)

end SingleChange
