import Rangexx.ListCursor
import Rangexx.Searches
import Rangexx.StoredKeys

/-!
# Cursors of a graph

`BerkeleyDBCXXCursor` and the iterators of a graph, over the keys of the table
in the order of its hash.  The records of other types are passed over, so an
iterator meets the nodes, each once, and the other way round on the way back.
-/

namespace Rangexx

open ListCursor

/-- A `BerkeleyDBCXXCursor`: the keys of the table in the order in which the
database has them, and where the cursor is, if it was used. -/
structure GraphCursor where
  keys : List String
  position : Option Nat
  deriving DecidableEq

namespace GraphCursor

/-- `get_cursor`. -/
def getCursor (keys : List String) : GraphCursor where
  keys := keys
  position := none

/-- The node that a record is made into, unless it is of another type. -/
def nodeOf (key : String) : Option String :=
  if getTypeFromKeyname key = RecordType.node.code then unprefix key else none

def nodeAt (cursor : GraphCursor) (place : Nat) : Option String :=
  cursor.keys[place]?.bind nodeOf

/-- The loop of `next` and `prev`. -/
def moveOn (cursor : GraphCursor) (move : Option Nat → Option Nat) :
    Option String × GraphCursor :=
  let (node, position) := seek cursor.nodeAt move (cursor.keys.length + 1) cursor.position
  (node, { cursor with position := position })

/-- `fetch`. -/
def fetch (cursor : GraphCursor) (name : String) : Option String × GraphCursor :=
  let fullkey := keyName RecordType.node.code name
  if fullkey ∈ cursor.keys then
    (some name, { cursor with position := some (cursor.keys.idxOf fullkey) })
  else (none, cursor)

/-- `next`. -/
def next (cursor : GraphCursor) : Option String × GraphCursor :=
  cursor.moveOn (stepForward cursor.keys)

/-- `prev`. -/
def prev (cursor : GraphCursor) : Option String × GraphCursor :=
  cursor.moveOn (stepBack cursor.keys)

/-- `first`. -/
def first (cursor : GraphCursor) : Option String × GraphCursor :=
  if cursor.keys = [] then (none, cursor)
  else
    let cursor := { cursor with position := some 0 }
    match cursor.nodeAt 0 with
    | some name => (some name, cursor)
    | none => cursor.next

/-- `last`. -/
def last (cursor : GraphCursor) : Option String × GraphCursor :=
  if cursor.keys = [] then (none, cursor)
  else
    let cursor := { cursor with position := some (cursor.keys.length - 1) }
    match cursor.nodeAt (cursor.keys.length - 1) with
    | some name => (some name, cursor)
    | none => cursor.prev

end GraphCursor

/-- `GraphIterator`, and `const_GraphIterator`, which does the same.  The end has
no node; its cursor is a null pointer in the source and one that no step uses
here. -/
structure GraphIterator where
  cursor : GraphCursor
  node : Option String
  deriving DecidableEq

namespace GraphIterator

open GraphCursor

/-- The iterator at a node. -/
def ofNode (keys : List String) (node : Option String) : GraphIterator where
  cursor :=
    match node with
    | some name => ((getCursor keys).fetch name).2
    | none => getCursor keys
  node := node

/-- `begin`. -/
def begin (keys : List String) : GraphIterator :=
  ofNode keys (getCursor keys).first.1

/-- `increment`. -/
def increment (iterator : GraphIterator) : GraphIterator where
  cursor := iterator.cursor.next.2
  node := iterator.cursor.next.1

/-- `decrement`. -/
def decrement (iterator : GraphIterator) : GraphIterator where
  cursor := iterator.cursor.prev.2
  node := iterator.cursor.prev.1

/-- The nodes that a loop from an iterator to the end meets. -/
def meets (step : GraphIterator → GraphIterator) : Nat → GraphIterator → List String
  | 0, _ => []
  | rounds + 1, iterator =>
      match iterator.node with
      | none => []
      | some name => name :: meets step rounds (step iterator)

end GraphIterator

/-! ## The loops -/

namespace GraphCursor

/-- The nodes of a list of keys. -/
def nodeNames (keys : List String) : List String :=
  keys.filterMap nodeOf

variable {keys : List String} {name : String}

theorem fetch_of_split {before after : List String}
    (split : keys = before ++ keyName RecordType.node.code name :: after)
    (fresh : keyName RecordType.node.code name ∉ before) :
    ((getCursor keys).fetch name).2 = ⟨keys, some before.length⟩ := by
  have member : keyName RecordType.node.code name ∈ (getCursor keys).keys := by
    change _ ∈ keys
    rw [split]
    exact List.mem_append_right before List.mem_cons_self
  have place : keys.idxOf (keyName RecordType.node.code name) = before.length := by
    rw [split, List.idxOf_append_of_notMem fresh, List.idxOf_cons_self, Nat.add_zero]
  unfold fetch
  rw [if_pos member]
  exact congrArg (fun place => GraphCursor.mk keys (some place)) place

end GraphCursor

namespace GraphIterator

open GraphCursor

variable {keys : List String} {name : String}

/-- A loop whose steps lead along a route meets the nodes on it. -/
theorem meets_of_route {step : GraphIterator → GraphIterator} {move : Option Nat → Option Nat}
    (steps : ∀ iterator, iterator.cursor.keys = keys →
      step iterator = ⟨(iterator.cursor.moveOn move).2, (iterator.cursor.moveOn move).1⟩)
    {position : Option Nat} {places : List Nat} (route : Route move position places)
    (few : places.length ≤ keys.length) {rounds : Nat} (enough : places.length < rounds) :
    meets step rounds (step ⟨⟨keys, position⟩, some name⟩) =
      places.filterMap (GraphCursor.mk keys none).nodeAt := by
  induction rounds generalizing position places name with
  | zero => exact absurd enough (Nat.not_lt_zero _)
  | succ rounds ih =>
      have sees : (GraphCursor.mk keys position).nodeAt = (GraphCursor.mk keys none).nodeAt := rfl
      rw [steps ⟨⟨keys, position⟩, some name⟩ rfl, meets]
      rcases @seek_of_route _ (GraphCursor.mk keys none).nodeAt _ _ _ route _
        (Nat.lt_succ_of_le few) with
        ⟨nothing, failed⟩ | ⟨shown, place, rest, found, onward, fewer, same⟩
      · have none : ((GraphCursor.mk keys position).moveOn move).1 = none := failed
        rw [nothing]
        dsimp only
        rw [none]
      · have moved : (GraphCursor.mk keys position).moveOn move =
            (some shown, ⟨keys, some place⟩) := by
          unfold moveOn
          rw [sees]
          dsimp only
          rw [found]
        dsimp only
        rw [moved, same]
        dsimp only
        exact congrArg (shown :: ·) (ih onward (fewer.le.trans few)
          (Nat.lt_of_lt_of_le fewer (Nat.le_of_lt_succ enough)))

/-- An iterator at a node meets it, and then the nodes behind it or before it. -/
theorem meets_ofNode {before after : List String}
    (split : keys = before ++ keyName RecordType.node.code name :: after)
    (fresh : keyName RecordType.node.code name ∉ before) {rounds : Nat}
    (enough : keys.length < rounds) :
    meets increment rounds (ofNode keys (some name)) = name :: nodeNames after ∧
      meets decrement rounds (ofNode keys (some name)) = name :: (nodeNames before).reverse := by
  have length : keys.length = before.length + 1 + after.length := by
    rw [split, List.length_append, List.length_cons]
    omega
  have placed : ofNode keys (some name) = ⟨⟨keys, some before.length⟩, some name⟩ := by
    unfold ofNode
    dsimp only
    rw [fetch_of_split split fresh]
  cases rounds with
  | zero => exact absurd enough (Nat.not_lt_zero _)
  | succ rounds =>
      rw [placed, meets, meets]
      constructor
      · have route := @route_forward _ keys after.length (before.length + 1) length.symm
        have onward := @meets_of_route keys name increment (stepForward keys)
          (fun iterator same => by rw [← same]; rfl) _ _ route (by simp; omega) rounds
          (by simp; omega)
        have sees := filterMap_range' nodeOf
          (before ++ [keyName RecordType.node.code name]) after
        rw [List.append_assoc, List.singleton_append, ← split, List.length_append,
          List.length_singleton] at sees
        exact congrArg (name :: ·) (onward.trans sees)
      · have route := @route_back _ keys before.length
        have onward := @meets_of_route keys name decrement (stepBack keys)
          (fun iterator same => by rw [← same]; rfl) _ _ route (by simp; omega) rounds
          (by simp; omega)
        have sees := filterMap_range_reverse nodeOf before
          (keyName RecordType.node.code name :: after)
        rw [← split] at sees
        exact congrArg (name :: ·) (onward.trans sees)

end GraphIterator

namespace GraphCursor

open GraphIterator

variable {keys : List String}

theorem first_of_cons (key : String) (rest : List String) :
    (getCursor (key :: rest)).first =
      (nodeOf key).elim (⟨key :: rest, some 0⟩ : GraphCursor).next
        fun name => (some name, ⟨key :: rest, some 0⟩) := by
  have sees : (⟨key :: rest, some 0⟩ : GraphCursor).nodeAt 0 = nodeOf key := rfl
  unfold first
  rw [if_neg (show (getCursor (key :: rest)).keys ≠ [] from List.cons_ne_nil key rest)]
  change (match (⟨key :: rest, some 0⟩ : GraphCursor).nodeAt 0 with
    | some name => _
    | none => _) = _
  rw [sees]
  cases nodeOf key with
  | none => rfl
  | some name => rfl

theorem last_of_concat (front : List String) (key : String) :
    (getCursor (front ++ [key])).last =
      (nodeOf key).elim (⟨front ++ [key], some front.length⟩ : GraphCursor).prev
        fun name => (some name, ⟨front ++ [key], some front.length⟩) := by
  have length : (getCursor (front ++ [key])).keys.length - 1 = front.length := by
    simp [getCursor]
  have sees : (⟨front ++ [key], some front.length⟩ : GraphCursor).nodeAt
      ((front ++ [key]).length - 1) = nodeOf key := by
    simp [nodeAt]
  unfold last
  rw [if_neg (by simp [getCursor]), length]
  change (match (⟨front ++ [key], some front.length⟩ : GraphCursor).nodeAt
      ((front ++ [key]).length - 1) with
    | some name => _
    | none => _) = _
  rw [sees]
  cases nodeOf key with
  | none => rfl
  | some name => rfl

theorem first_eq (keys : List String) : (getCursor keys).first.1 = (nodeNames keys).head? := by
  cases keys with
  | nil => rfl
  | cons key rest =>
      rw [first_of_cons, nodeNames]
      cases sees : nodeOf key with
      | some name =>
          rw [List.filterMap_cons_some sees]
          rfl
      | none =>
          rw [List.filterMap_cons_none sees]
          have route := @route_forward _ (key :: rest) rest.length 1
            (by simp only [List.length_cons]; omega)
          have found := @seek_fst_of_route _ (⟨key :: rest, some 0⟩ : GraphCursor).nodeAt _ _ _
            route ((key :: rest).length + 1) (by simp only [List.length_cons, List.length_range']; omega)
          exact found.trans (congrArg List.head? (filterMap_range' nodeOf [key] rest))

/-- A loop back from the last node meets the nodes in the other order. -/
theorem meets_last {rounds : Nat} (enough : keys.length < rounds) :
    meets decrement rounds ⟨(getCursor keys).last.2, (getCursor keys).last.1⟩ =
      (nodeNames keys).reverse := by
  rcases List.eq_nil_or_concat' keys with rfl | ⟨front, key, rfl⟩
  · cases rounds with
    | zero => rfl
    | succ rounds => rfl
  · have route := @route_back _ (front ++ [key]) front.length
    have sees := filterMap_range_reverse nodeOf front [key]
    rw [List.length_append, List.length_singleton] at enough
    -- The loop goes on in the same way from the last key, whatever that is.
    have onward (name : String) {rounds : Nat} (enough : front.length < rounds) :
        meets decrement rounds
            (decrement ⟨⟨front ++ [key], some front.length⟩, some name⟩) =
          (nodeNames front).reverse :=
      (@meets_of_route (front ++ [key]) name decrement (stepBack (front ++ [key]))
        (fun iterator same => by rw [← same]; rfl) _ _ route (by simp) rounds
        (by simpa using enough)).trans sees
    rw [last_of_concat, nodeNames, List.filterMap_append, List.reverse_append]
    cases shown : nodeOf key with
    | some name =>
        cases rounds with
        | zero => exact absurd enough (Nat.not_lt_zero _)
        | succ rounds =>
            rw [List.filterMap_cons_some shown]
            exact congrArg (name :: ·) (onward name (Nat.lt_of_succ_lt_succ enough))
    | none =>
        rw [List.filterMap_cons_none shown]
        exact onward "" (Nat.lt_of_succ_lt enough)

end GraphCursor

open GraphCursor GraphIterator

/-- The keys of a table are those of its records. -/
theorem StoredInstance.Shows.exists_full {Record : Type} {stored : StoredInstance Record}
    {inst : Instance Record} (shows : stored.Shows inst) {key : String}
    (member : key ∈ stored.inst.keys) : ∃ record : RecordKey, record.full = key := by
  have keys : stored.inst.keys = inst.records.keys.map RecordKey.full := by
    change stored.inst.entries.map Sigma.fst = (inst.records.entries.map Sigma.fst).map _
    rw [shows.records, List.map_map, List.map_map]
    rfl
  rw [keys] at member
  obtain ⟨record, -, same⟩ := List.mem_map.mp member
  exact ⟨record, same⟩

theorem eq_keyName_of_nodeOf {record : RecordKey} {name : String}
    (isNode : nodeOf record.full = some name) :
    record.full = keyName RecordType.node.code name := by
  unfold nodeOf at isNode
  rw [RecordKey.full, getTypeFromKeyname_keyName, unprefix_keyName] at isNode
  split at isNode
  · rename_i sameType
    rw [RecordKey.full, sameType, Option.some.inj isNode]
  · cases isNode

/-- Two nodes, with a record of another type between their keys. -/
def twoNodes : List (TableEvent NodeInfo) :=
  [.startTxn, .writeRecord (.node, "a") 0 .default, .writeRecord (.nodeMeta, "a") 0 .default,
    .writeRecord (.node, "b") 0 .default, .commit]

end Rangexx
