import Mathlib.Data.List.AList

/-!
# Keyed tables

A table of updates is written into a table of records one entry at a time.
Since every key occurs once among the updates, the order does not matter: a
key that has an update shows it, and every other key shows its old record.
Entries can also be erased one at a time.
-/

namespace KeyedTable

variable {Key : Type} {Update Data : Type} [DecidableEq Key]

/-- Write every update into the table. -/
def insertAll (data : Update → Data) (updates : AList fun _ : Key => Update)
    (table : AList fun _ : Key => Data) : AList fun _ : Key => Data :=
  updates.entries.foldl (fun table entry => table.insert entry.1 (data entry.2)) table

private theorem lookup_foldl_insert_absent (data : Update → Data)
    (entries : List (Sigma fun _ : Key => Update)) (table : AList fun _ : Key => Data)
    {key : Key} (absent : key ∉ entries.map Sigma.fst) :
    (entries.foldl (fun table entry => table.insert entry.1 (data entry.2)) table).lookup key =
      table.lookup key := by
  induction entries generalizing table with
  | nil => rfl
  | cons entry rest ih =>
      simp only [List.map_cons, List.mem_cons, not_or] at absent
      rw [List.foldl_cons, ih _ absent.2, AList.lookup_insert_ne absent.1]

private theorem lookup_foldl_insert_present (data : Update → Data)
    (entries : List (Sigma fun _ : Key => Update)) (table : AList fun _ : Key => Data)
    (nodup : (entries.map Sigma.fst).Nodup) {key : Key} {update : Update}
    (member : ⟨key, update⟩ ∈ entries) :
    (entries.foldl (fun table entry => table.insert entry.1 (data entry.2)) table).lookup key =
      some (data update) := by
  induction entries generalizing table with
  | nil => simp at member
  | cons entry rest ih =>
      have ⟨headAbsent, restNodup⟩ := List.nodup_cons.mp nodup
      rw [List.foldl_cons]
      rcases List.mem_cons.mp member with rfl | inRest
      · rw [lookup_foldl_insert_absent data rest _ headAbsent, AList.lookup_insert]
      · exact ih _ restNodup inRest

theorem lookup_insertAll (data : Update → Data) (updates : AList fun _ : Key => Update)
    (table : AList fun _ : Key => Data) (key : Key) :
    (insertAll data updates table).lookup key =
      ((updates.lookup key).map data).or (table.lookup key) := by
  have nodup : (updates.entries.map Sigma.fst).Nodup := updates.nodupKeys
  unfold insertAll
  cases found : updates.lookup key with
  | none =>
      rw [lookup_foldl_insert_absent data _ _ (AList.lookup_eq_none.mp found)]
      rfl
  | some update =>
      rw [lookup_foldl_insert_present data _ _ nodup (AList.mem_lookup_iff.mp found)]
      rfl

/-! ## Encoded keys -/

section Encoded

variable {Code Value : Type} [DecidableEq Code]

def encodeEntry (encode : Key → Code) (value : Key → Data → Value)
    (entry : Sigma fun _ : Key => Data) : Sigma fun _ : Code => Value :=
  ⟨encode entry.1, value entry.1 entry.2⟩

/-- One table is another with its keys encoded, entry for entry. -/
def Encodes (encode : Key → Code) (value : Key → Data → Value)
    (codes : AList fun _ : Code => Value) (table : AList fun _ : Key => Data) : Prop :=
  codes.entries = table.entries.map (encodeEntry encode value)

variable {encode : Key → Code} {value : Key → Data → Value}
  {codes : AList fun _ : Code => Value} {table : AList fun _ : Key => Data}

theorem Encodes.lookup (encodes : Encodes encode value codes table)
    (injective : Function.Injective encode) (key : Key) :
    codes.lookup (encode key) = (table.lookup key).map (value key) := by
  rw [AList.lookup, encodes]
  exact @List.dlookup_map Key Code (fun _ => Data) (fun _ => Value) _ _ table.entries encode
    injective value key

theorem Encodes.insert (encodes : Encodes encode value codes table)
    (injective : Function.Injective encode) (key : Key) (data : Data) :
    Encodes encode value (codes.insert (encode key) (value key data)) (table.insert key data) := by
  have erased (entries : List (Sigma fun _ : Key => Data)) :
      List.kerase (encode key) (entries.map (encodeEntry encode value)) =
        (List.kerase key entries).map (encodeEntry encode value) := by
    induction entries with
    | nil => rfl
    | cons entry rest ih =>
        rw [List.map_cons]
        by_cases same : key = entry.1
        · rw [List.kerase_cons_eq same, List.kerase_cons_eq (congrArg encode same)]
        · have apart : encode key ≠ encode entry.1 := fun equal => same (injective equal)
          rw [List.kerase_cons_ne same, List.kerase_cons_ne apart, ih, List.map_cons]
  unfold Encodes at encodes ⊢
  rw [AList.entries_insert, AList.entries_insert, encodes, erased, List.map_cons]
  rfl

end Encoded

/-! ## Erasing entries -/

/-- Erase the entries whose data meets a condition. -/
def eraseWhere (condition : Data → Prop) [DecidablePred condition]
    (table : AList fun _ : Key => Data) : AList fun _ : Key => Data :=
  table.entries.foldl (fun table entry =>
    if condition entry.2 then table.erase entry.1 else table) table

theorem lookup_of_eraseWhere {condition : Data → Prop} [DecidablePred condition]
    {table : AList fun _ : Key => Data} {key : Key} {data : Data}
    (found : (eraseWhere condition table).lookup key = some data) :
    table.lookup key = some data := by
  unfold eraseWhere at found
  -- Over any entries: erasing from a smaller and smaller table finds nothing new.
  generalize table.entries = entries at found
  induction entries generalizing table with
  | nil => exact found
  | cons entry rest ih =>
      have later := ih found
      dsimp only at later
      split at later
      · by_cases same : key = entry.1
        · rw [same, AList.lookup_erase] at later
          simp at later
        · rwa [AList.lookup_erase_ne same] at later
      · exact later

end KeyedTable
