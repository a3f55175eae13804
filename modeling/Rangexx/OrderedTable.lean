import Mathlib.Data.List.Basic
import Mathlib.Data.List.Pairwise
import Mathlib.Order.Lattice

/-!
# Ordered tables

A table of entries in the order of their keys, with the operations of a cursor:
the first entry, the last one, and the one after a key, whether or not that key
is still in the table.
-/

structure OrderedTable (Key Value : Type) [LinearOrder Key] where
  entries : List (Key × Value)
  ascending : entries.Pairwise fun entry later => entry.1 < later.1

namespace OrderedTable

variable {Key Value : Type} [LinearOrder Key]

def empty : OrderedTable Key Value where
  entries := []
  ascending := List.Pairwise.nil

def first (table : OrderedTable Key Value) : Option (Key × Value) :=
  table.entries.head?

def last (table : OrderedTable Key Value) : Option (Key × Value) :=
  table.entries.getLast?

def next (table : OrderedTable Key Value) (key : Key) : Option (Key × Value) :=
  table.entries.find? fun entry => key < entry.1

def del (table : OrderedTable Key Value) (key : Key) : OrderedTable Key Value where
  entries := table.entries.filter fun entry => entry.1 ≠ key
  ascending := table.ascending.filter _

def put (table : OrderedTable Key Value) (key : Key) (value : Value) :
    OrderedTable Key Value where
  entries := (table.entries.filter fun entry => entry.1 < key) ++
    (key, value) :: table.entries.filter fun entry => key < entry.1
  ascending := by
    rw [List.pairwise_append, List.pairwise_cons]
    refine ⟨table.ascending.filter _, ⟨?_, table.ascending.filter _⟩, ?_⟩
    · intro later member
      simpa using (List.mem_filter.mp member).2
    · intro entry member later laterMember
      have below : entry.1 < key := by simpa using (List.mem_filter.mp member).2
      rcases List.mem_cons.mp laterMember with rfl | above
      · exact below
      · exact below.trans (by simpa using (List.mem_filter.mp above).2)

/-- The entries a cursor meets when it is moved on until the end. -/
def walk (table : OrderedTable Key Value) : Nat → Option (Key × Value) → List (Key × Value)
  | 0, _ => []
  | _ + 1, none => []
  | rounds + 1, some entry => entry :: walk table rounds (table.next entry.1)

variable {table : OrderedTable Key Value}

theorem mem_put (key : Key) (value : Value) (entry : Key × Value) :
    entry ∈ (table.put key value).entries ↔
      entry = (key, value) ∨ entry ∈ table.entries ∧ entry.1 ≠ key := by
  unfold put
  simp only [List.mem_append, List.mem_filter, List.mem_cons, decide_eq_true_eq]
  constructor
  · rintro (⟨old, below⟩ | rfl | ⟨old, above⟩)
    · exact Or.inr ⟨old, below.ne⟩
    · exact Or.inl rfl
    · exact Or.inr ⟨old, above.ne'⟩
  · rintro (rfl | ⟨old, differs⟩)
    · exact Or.inr (Or.inl rfl)
    · rcases lt_or_gt_of_ne differs with below | above
      · exact Or.inl ⟨old, below⟩
      · exact Or.inr (Or.inr ⟨old, above⟩)

/-- An entry with the greatest key goes to the end. -/
theorem entries_put_of_greatest {key : Key} (greatest : ∀ entry ∈ table.entries, entry.1 < key)
    (value : Value) : (table.put key value).entries = table.entries ++ [(key, value)] := by
  have below : (table.entries.filter fun entry => entry.1 < key) = table.entries := by
    rw [List.filter_eq_self]
    exact fun entry member => decide_eq_true (greatest entry member)
  have above : (table.entries.filter fun entry => key < entry.1) = [] := by
    rw [List.filter_eq_nil_iff]
    intro entry member
    simpa using (greatest entry member).le
  change _ ++ (key, value) :: _ = _
  rw [below, above]

/-- Without its first entry a table goes on with the entry after that. -/
theorem next_of_entries {front rest : List (Key × Value)} {entry : Key × Value}
    (entries : table.entries = front ++ entry :: rest) : table.next entry.1 = rest.head? := by
  have ascending := table.ascending
  rw [entries, List.pairwise_append, List.pairwise_cons] at ascending
  obtain ⟨-, ⟨after, -⟩, before⟩ := ascending
  have passed : (front.find? fun other => entry.1 < other.1) = none := by
    rw [List.find?_eq_none]
    intro other member
    simpa using (before other member entry List.mem_cons_self).le
  unfold next
  rw [entries, List.find?_append, passed, Option.none_or, List.find?_cons]
  simp only [lt_irrefl, decide_false]
  cases rest with
  | nil => rfl
  | cons later more => simp [after later List.mem_cons_self]

theorem walk_of_entries {front rest : List (Key × Value)}
    (entries : table.entries = front ++ rest) {rounds : Nat} (enough : rest.length ≤ rounds) :
    table.walk rounds rest.head? = rest := by
  induction rest generalizing front rounds with
  | nil => cases rounds <;> rfl
  | cons entry rest ih =>
      cases rounds with
      | zero => simp at enough
      | succ rounds =>
          have onward := @ih (front ++ [entry]) (by simp [entries]) rounds
            (Nat.le_of_succ_le_succ enough)
          rw [List.head?_cons, walk, next_of_entries entries, onward]

/-- A cursor meets every entry, in order. -/
theorem walk_first {rounds : Nat} (enough : table.entries.length ≤ rounds) :
    table.walk rounds table.first = table.entries :=
  @walk_of_entries _ _ _ table [] table.entries rfl rounds enough

theorem del_first {entry : Key × Value} {rest : List (Key × Value)}
    (entries : table.entries = entry :: rest) : (table.del entry.1).entries = rest := by
  have ascending := table.ascending
  rw [entries, List.pairwise_cons] at ascending
  change (table.entries.filter fun other => other.1 ≠ entry.1) = rest
  rw [entries, List.filter_cons_of_neg (by simp), List.filter_eq_self]
  exact fun other member => decide_eq_true (ascending.1 other member).ne'

/-- The entry after a first entry that was deleted is the first one left. -/
theorem next_del_first {entry : Key × Value} {rest : List (Key × Value)}
    (entries : table.entries = entry :: rest) :
    (table.del entry.1).next entry.1 = (table.del entry.1).first := by
  have above := table.ascending
  rw [entries, List.pairwise_cons] at above
  unfold next first
  rw [del_first entries]
  cases rest with
  | nil => rfl
  | cons later more => simp [above.1 later List.mem_cons_self]

end OrderedTable
