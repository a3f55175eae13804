import Mathlib.Data.List.Sort

/-!
# Reverse scans of ascending lists

A version history is a list of numbers to which only larger numbers are
appended.  Looking a number up walks the list from its end and gives up at the
first smaller entry.  This file records what such a walk finds: on an
ascending list the early exit loses nothing, so the walk decides membership.
-/

namespace AscendingScan

/-- What a walk from the end of a list meets first: the wanted number, a
smaller one, or the beginning of the list. -/
inductive Outcome where
  | equal
  | older
  | exhausted
  deriving DecidableEq, Repr

/-- Walk an already reversed list. -/
def walk (wanted : Nat) : List Nat → Outcome
  | [] => .exhausted
  | version :: rest =>
      if version = wanted then .equal
      else if version < wanted then .older
      else walk wanted rest

/-- Walk a list from its last entry to its first. -/
def scan (wanted : Nat) (versions : List Nat) : Outcome :=
  walk wanted versions.reverse

/-- Strictly ascending lists. -/
def Ascending (versions : List Nat) : Prop :=
  versions.Pairwise (· < ·)

theorem walk_eq_equal_iff {wanted : Nat} {reversed : List Nat}
    (descending : reversed.Pairwise (· > ·)) :
    walk wanted reversed = .equal ↔ wanted ∈ reversed := by
  induction reversed with
  | nil => simp [walk]
  | cons version rest ih =>
      have ⟨below, restDescending⟩ := List.pairwise_cons.mp descending
      unfold walk
      split
      · simp_all
      · rename_i different
        split
        · rename_i smaller
          have absent : wanted ∉ rest := by
            intro member
            have := below wanted member
            omega
          simp [absent, Ne.symm different]
        · rw [ih restDescending]
          simp [Ne.symm different]

/-- On an ascending list the early exit of the walk loses no member. -/
theorem scan_eq_equal_iff {wanted : Nat} {versions : List Nat}
    (ascending : Ascending versions) :
    scan wanted versions = .equal ↔ wanted ∈ versions := by
  unfold scan
  rw [walk_eq_equal_iff (List.pairwise_reverse.mpr ascending)]
  simp

theorem walk_eq_older_of_bounded {wanted : Nat} {reversed : List Nat}
    (nonempty : reversed ≠ []) (bounded : ∀ version ∈ reversed, version ≤ wanted)
    (absent : wanted ∉ reversed) :
    walk wanted reversed = .older := by
  cases reversed with
  | nil => exact absurd rfl nonempty
  | cons version rest =>
      have le := bounded version (by simp)
      have ne : version ≠ wanted := by
        rintro rfl
        exact absent (by simp)
      have lt : version < wanted := by omega
      simp [walk, ne, lt]

/-- A walk for a number no entry exceeds either meets it or stops at once. -/
theorem scan_eq_older_of_bounded {wanted : Nat} {versions : List Nat}
    (nonempty : versions ≠ []) (bounded : ∀ version ∈ versions, version ≤ wanted)
    (absent : wanted ∉ versions) :
    scan wanted versions = .older := by
  apply walk_eq_older_of_bounded
  · simpa using nonempty
  · intro version member
    exact bounded version (by simpa using member)
  · simpa using absent

theorem Ascending.append_singleton {versions : List Nat} {next : Nat}
    (ascending : Ascending versions) (above : ∀ version ∈ versions, version < next) :
    Ascending (versions ++ [next]) := by
  unfold Ascending at *
  rw [List.pairwise_append]
  refine ⟨ascending, List.pairwise_singleton _ _, ?_⟩
  intro version member last lastMember
  rw [List.mem_singleton.mp lastMember]
  exact above version member

theorem Ascending.dropLast {versions : List Nat} (ascending : Ascending versions) :
    Ascending versions.dropLast :=
  List.Pairwise.sublist (List.dropLast_sublist versions) ascending

/-- The last entry of an ascending list bounds it. -/
theorem Ascending.le_getLast {versions : List Nat} (ascending : Ascending versions)
    {last version : Nat} (isLast : versions.getLast? = some last)
    (member : version ∈ versions) : version ≤ last := by
  obtain ⟨front, rfl⟩ : ∃ front, versions = front ++ [last] := by
    exact List.getLast?_eq_some_iff.mp isLast
  rcases List.mem_append.mp member with inFront | atEnd
  · have below := (List.pairwise_append.mp ascending).2.2 version inFront last (by simp)
    exact Nat.le_of_lt below
  · rw [List.mem_singleton.mp atEnd]

end AscendingScan
