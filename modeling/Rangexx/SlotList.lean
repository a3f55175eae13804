import Mathlib.Data.List.Nodup

/-!
# Lists with reserved slots

An item keeps the slot it was first given, in the order of first use.  A
selection of the items is listed in the order of their slots, whatever the order
they were selected in.  Selecting one more item puts it at the end of the list
exactly when no selected item has a slot behind it.
-/

namespace SlotList

variable {Item : Type*} [DecidableEq Item]

/-- Give the item a slot behind the others, unless it has one. -/
def reserve (slots : List Item) (item : Item) : List Item :=
  if item ∈ slots then slots else slots ++ [item]

def reserveAll (slots items : List Item) : List Item :=
  items.foldl reserve slots

/-- The items with slots behind that of an item. -/
def behind (slots : List Item) (item : Item) : List Item :=
  (slots.dropWhile fun other => other ≠ item).drop 1

theorem mem_reserve {slots : List Item} {item other : Item} :
    other ∈ reserve slots item ↔ other ∈ slots ∨ other = item := by
  unfold reserve
  split
  · rename_i present
    constructor
    · exact Or.inl
    · rintro (member | rfl)
      · exact member
      · exact present
  · simp

theorem nodup_reserve {slots : List Item} (nodup : slots.Nodup) (item : Item) :
    (reserve slots item).Nodup := by
  unfold reserve
  split
  · exact nodup
  · rename_i absent
    rw [List.nodup_append]
    refine ⟨nodup, List.nodup_singleton item, ?_⟩
    rintro first firstMember second secondMember rfl
    rw [List.mem_singleton.mp secondMember] at firstMember
    exact absent firstMember

theorem nodup_reserveAll {slots : List Item} (nodup : slots.Nodup) (items : List Item) :
    (reserveAll slots items).Nodup := by
  induction items generalizing slots with
  | nil => exact nodup
  | cons item rest ih => exact ih (nodup_reserve nodup item)

theorem reserve_of_mem {slots : List Item} {item : Item} (present : item ∈ slots) :
    reserve slots item = slots :=
  if_pos present

theorem reserveAll_concat (slots items : List Item) (item : Item) :
    reserveAll slots (items ++ [item]) = reserve (reserveAll slots items) item := by
  simp [reserveAll]

theorem reserveAll_of_subset {slots items : List Item} (subset : items ⊆ slots) :
    reserveAll slots items = slots := by
  induction items with
  | nil => rfl
  | cons item rest ih =>
      obtain ⟨present, restSubset⟩ := List.cons_subset.mp subset
      rw [reserveAll, List.foldl_cons, reserve_of_mem present]
      exact ih restSubset

theorem mem_reserveAll {slots items : List Item} {other : Item} :
    other ∈ reserveAll slots items ↔ other ∈ slots ∨ other ∈ items := by
  induction items generalizing slots with
  | nil => simp [reserveAll]
  | cons item rest ih =>
      rw [reserveAll, List.foldl_cons]
      change other ∈ reserveAll (reserve slots item) rest ↔ _
      rw [ih, mem_reserve, List.mem_cons, or_assoc]

/-! ## Selections -/

/-- The items are listed in the order of their slots. -/
def Listed (slots selected : List Item) : Prop :=
  selected = slots.filter fun other => other ∈ selected

theorem Listed.nil (slots : List Item) : Listed slots [] := by
  simp [Listed]

theorem Listed.subset {slots selected : List Item} (listed : Listed slots selected) :
    selected ⊆ slots := by
  intro item member
  rw [listed] at member
  exact (List.mem_filter.mp member).1

/-- What is left of a selection is listed in the order it had. -/
theorem Listed.filter {slots selected : List Item} (listed : Listed slots selected)
    (keep : Item → Bool) : Listed slots (selected.filter keep) := by
  unfold Listed
  conv_lhs => rw [listed, List.filter_filter]
  apply List.filter_congr
  intro item _
  rw [Bool.eq_iff_iff]
  simp [and_comm]

/-! ## One more item -/

theorem behind_of_not_mem {slots : List Item} {item : Item} (absent : item ∉ slots) :
    behind slots item = [] := by
  induction slots with
  | nil => rfl
  | cons first rest ih =>
      simp only [List.mem_cons, not_or] at absent
      have differs : first ≠ item := Ne.symm absent.1
      have unfolded : behind (first :: rest) item = behind rest item := by
        simp [behind, differs]
      rw [unfolded]
      exact ih absent.2

theorem behind_append_cons {front back : List Item} {item : Item} (absent : item ∉ front) :
    behind (front ++ item :: back) item = back := by
  induction front with
  | nil => simp [behind]
  | cons first rest ih =>
      simp only [List.mem_cons, not_or] at absent
      have differs : first ≠ item := Ne.symm absent.1
      have unfolded : behind (first :: rest ++ item :: back) item =
          behind (rest ++ item :: back) item := by
        simp [behind, differs]
      rw [unfolded]
      exact ih absent.2

omit [DecidableEq Item] in
private theorem cons_eq_concat_iff {item : Item} {rest : List Item} (absent : item ∉ rest) :
    item :: rest = rest ++ [item] ↔ rest = [] := by
  constructor
  · intro same
    cases rest with
    | nil => rfl
    | cons first more =>
        rw [List.cons_append, List.cons.injEq] at same
        exact absurd (by simp [same.1]) absent
  · rintro rfl
    rfl

/-- The selection grows at its end exactly when nothing selected is behind the
new item. -/
theorem filter_reserve_eq_concat_iff {slots : List Item} {item : Item} (nodup : slots.Nodup)
    {selected : List Item} (unselected : item ∉ selected) :
    (reserve slots item).filter (fun other => other ∈ selected ++ [item]) =
        slots.filter (fun other => other ∈ selected) ++ [item] ↔
      ∀ other ∈ behind slots item, other ∉ selected := by
  have sameFilter : ∀ part : List Item, item ∉ part →
      part.filter (fun other => other ∈ selected ++ [item]) =
        part.filter fun other => other ∈ selected := by
    intro part absent
    apply List.filter_congr
    intro other member
    have differs : other ≠ item := by
      rintro rfl
      exact absent member
    simp [differs]
  by_cases present : item ∈ slots
  · obtain ⟨front, back, rfl⟩ := List.append_of_mem present
    obtain ⟨frontNodup, restNodup, apart⟩ := List.nodup_append.mp nodup
    have notInFront : item ∉ front := fun member => apart item member item (by simp) rfl
    have notInBack : item ∉ back := (List.nodup_cons.mp restNodup).1
    have notFiltered : item ∉ back.filter fun other => other ∈ selected := fun member =>
      notInBack (List.mem_filter.mp member).1
    rw [reserve_of_mem present, behind_append_cons notInFront, List.filter_append,
      List.filter_cons_of_pos (by simp), sameFilter front notInFront, sameFilter back notInBack,
      List.filter_append, List.filter_cons_of_neg (by simpa using unselected),
      List.append_assoc, List.append_cancel_left_eq, cons_eq_concat_iff notFiltered,
      List.filter_eq_nil_iff]
    simp
  · rw [behind_of_not_mem present, reserve, if_neg present, List.filter_append,
      sameFilter slots present]
    simp

/-- The same for a selection that is listed in the order of its slots. -/
theorem Listed.concat_iff {slots selected : List Item} (listed : Listed slots selected)
    (nodup : slots.Nodup) {item : Item} (unselected : item ∉ selected) :
    ((reserveAll slots (selected ++ [item])).filter fun other => other ∈ selected ++ [item]) =
        selected ++ [item] ↔
      ∀ other ∈ behind slots item, other ∉ selected := by
  rw [reserveAll_concat, reserveAll_of_subset listed.subset,
    ← filter_reserve_eq_concat_iff nodup unselected, ← listed]

end SlotList
