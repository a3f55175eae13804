import Rangexx.Worklist

/-!
# Breadth-first search with a queue

A search takes a key from the front of a queue, skips it if it was visited
before, and otherwise puts its successors at the end, one level deeper.  The
keys are taken in the order of their depth, the depth of a key is the length of
a path to it, and every path is met at most at its own length.  So the first
key with some property is a nearest one.
-/

namespace BreadthFirst

open Worklist

variable {Key : Type} [DecidableEq Key] (next : Key → List Key)

/-- The keys that lie so many edges from a root, by some path. -/
def StepsTo : Nat → Key → Key → Prop
  | 0, root, key => key = root
  | length + 1, root, key => ∃ before, StepsTo length root before ∧ key ∈ next before

/-- The successors of a key, one level deeper. -/
def deeper (item : Key × Nat) : List (Key × Nat) :=
  (next item.1).map fun key => (key, item.2 + 1)

/-- The keys in the order in which they are taken from the queue, with their
depths. -/
def pops : Nat → List (Key × Nat) → List Key → List (Key × Nat)
  | 0, _, _ => []
  | _ + 1, [], _ => []
  | rounds + 1, item :: queue, visited =>
      item :: if item.1 ∈ visited then pops rounds queue visited
        else pops rounds (queue ++ deeper next item) (item.1 :: visited)

/-- Take keys from the queue until one is found that has a value. -/
def firstFound {Value : Type} (found : Key → Option Value) :
    Nat → List Key → List Key → Option (Key × Value)
  | 0, _, _ => none
  | _ + 1, [], _ => none
  | rounds + 1, key :: queue, visited =>
      if key ∈ visited then firstFound found rounds queue visited
      else
        match found key with
        | some value => some (key, value)
        | none => firstFound found rounds (queue ++ next key) (key :: visited)

variable {next}

omit [DecidableEq Key] in
theorem reaches_iff_stepsTo (root key : Key) :
    Reaches next root key ↔ ∃ length, StepsTo next length root key := by
  constructor
  · intro reaches
    induction reaches with
    | refl => exact ⟨0, rfl⟩
    | tail _ edge ih =>
        obtain ⟨length, steps⟩ := ih
        exact ⟨length + 1, _, steps, edge⟩
  · rintro ⟨length, steps⟩
    induction length generalizing key with
    | zero =>
        obtain rfl : key = root := steps
        exact Relation.ReflTransGen.refl
    | succ length ih =>
        obtain ⟨before, stepsBefore, edge⟩ := steps
        exact (ih before stepsBefore).tail edge

omit [DecidableEq Key] in
/-- A path may be cut after its first edge as well as before its last. -/
theorem stepsTo_succ_iff (length : Nat) (root key : Key) :
    StepsTo next (length + 1) root key ↔
      ∃ child ∈ next root, StepsTo next length child key := by
  induction length generalizing key with
  | zero =>
      constructor
      · rintro ⟨before, rfl, edge⟩
        exact ⟨key, edge, rfl⟩
      · rintro ⟨child, edge, rfl⟩
        exact ⟨root, rfl, edge⟩
  | succ length ih =>
      constructor
      · rintro ⟨before, steps, last⟩
        obtain ⟨child, edge, onward⟩ := (ih before).mp steps
        exact ⟨child, edge, before, onward, last⟩
      · rintro ⟨child, edge, before, onward, last⟩
        exact ⟨before, (ih before).mpr ⟨child, edge, onward⟩, last⟩

/-! ## The order of the queue -/

/-- The depths of a queue ascend and differ by at most one. -/
structure Layered (depth : Nat) (queue : List (Key × Nat)) : Prop where
  ascending : queue.Pairwise fun item later => item.2 ≤ later.2
  within : ∀ item ∈ queue, depth ≤ item.2 ∧ item.2 ≤ depth + 1

omit [DecidableEq Key] in
theorem Layered.tail {depth : Nat} {item : Key × Nat} {queue : List (Key × Nat)}
    (layered : Layered depth (item :: queue)) : Layered item.2 queue := by
  obtain ⟨ascending, within⟩ := layered
  rw [List.pairwise_cons] at ascending
  refine ⟨ascending.2, fun other member => ⟨ascending.1 other member, ?_⟩⟩
  have lower := (within item List.mem_cons_self).1
  have upper := (within other (List.mem_cons_of_mem item member)).2
  omega

omit [DecidableEq Key] in
theorem Layered.push {depth : Nat} {queue : List (Key × Nat)} (layered : Layered depth queue)
    (key : Key) : Layered depth (queue ++ deeper next (key, depth)) := by
  constructor
  · rw [List.pairwise_append]
    refine ⟨layered.ascending, ?_, ?_⟩
    · unfold deeper
      rw [List.pairwise_map]
      exact List.pairwise_of_forall fun _ _ => Nat.le_refl _
    · intro item member later isDeeper
      obtain ⟨successor, _, rfl⟩ := List.mem_map.mp isDeeper
      exact (layered.within item member).2
  · intro item member
    rcases List.mem_append.mp member with old | isDeeper
    · exact layered.within item old
    · obtain ⟨successor, _, rfl⟩ := List.mem_map.mp isDeeper
      exact ⟨Nat.le_succ depth, Nat.le_refl _⟩

theorem pops_deeper {rounds depth : Nat} {queue : List (Key × Nat)} {visited : List Key}
    (lower : ∀ item ∈ queue, depth ≤ item.2) :
    ∀ item ∈ pops next rounds queue visited, depth ≤ item.2 := by
  induction rounds generalizing queue visited with
  | zero => simp [pops]
  | succ rounds ih =>
      cases queue with
      | nil => simp [pops]
      | cons head queue =>
          have headLower := lower head List.mem_cons_self
          have tailLower : ∀ item ∈ queue, depth ≤ item.2 :=
            fun item member => lower item (List.mem_cons_of_mem head member)
          intro item member
          rw [pops, List.mem_cons] at member
          rcases member with rfl | later
          · exact headLower
          · split at later
            · exact ih tailLower item later
            · refine ih ?_ item later
              intro other inQueue
              rcases List.mem_append.mp inQueue with old | isDeeper
              · exact tailLower other old
              · obtain ⟨successor, _, rfl⟩ := List.mem_map.mp isDeeper
                exact Nat.le_succ_of_le headLower

theorem pops_ascending {rounds depth : Nat} {queue : List (Key × Nat)} {visited : List Key}
    (layered : Layered depth queue) :
    (pops next rounds queue visited).Pairwise fun item later => item.2 ≤ later.2 := by
  induction rounds generalizing queue visited depth with
  | zero => exact List.Pairwise.nil
  | succ rounds ih =>
      cases queue with
      | nil => exact List.Pairwise.nil
      | cons head queue =>
          have tail := layered.tail
          have pushed : Layered head.2 (queue ++ deeper next head) := tail.push head.1
          rw [pops, List.pairwise_cons]
          split
          · exact ⟨pops_deeper fun item member => (tail.within item member).1, ih tail⟩
          · exact ⟨pops_deeper fun item member => (pushed.within item member).1, ih pushed⟩

/-! ## The depths -/

theorem pops_sound {rounds : Nat} {root : Key} {queue : List (Key × Nat)} {visited : List Key}
    (sound : ∀ item ∈ queue, StepsTo next item.2 root item.1) :
    ∀ item ∈ pops next rounds queue visited, StepsTo next item.2 root item.1 := by
  induction rounds generalizing queue visited with
  | zero => simp [pops]
  | succ rounds ih =>
      cases queue with
      | nil => simp [pops]
      | cons head queue =>
          have headSound := sound head List.mem_cons_self
          have tailSound : ∀ item ∈ queue, StepsTo next item.2 root item.1 :=
            fun item member => sound item (List.mem_cons_of_mem head member)
          intro item member
          rw [pops, List.mem_cons] at member
          rcases member with rfl | later
          · exact headSound
          · split at later
            · exact ih tailSound item later
            · refine ih ?_ item later
              intro other inQueue
              rcases List.mem_append.mp inQueue with old | isDeeper
              · exact tailSound other old
              · obtain ⟨successor, edge, rfl⟩ := List.mem_map.mp isDeeper
                exact ⟨head.1, headSound, edge⟩

/-- With enough rounds everything that enters the queue is taken from it, and
the successors of a key enter it one level below the first visit. -/
theorem pops_closed {nodes : List Key} (nodup : nodes.Nodup)
    (covered : ∀ key, next key ≠ [] → key ∈ nodes) {rounds depth : Nat}
    {queue : List (Key × Nat)} {visited : List Key} (layered : Layered depth queue)
    (enough : queue.length + openEdges next nodes visited ≤ rounds) :
    (∀ item ∈ queue, item ∈ pops next rounds queue visited) ∧
      ∀ item ∈ pops next rounds queue visited, item.1 ∈ visited ∨
        ∃ level ≤ item.2, ∀ successor ∈ next item.1,
          (successor, level + 1) ∈ pops next rounds queue visited := by
  induction rounds generalizing queue visited depth with
  | zero =>
      have noQueue : queue = [] :=
        List.length_eq_zero_iff.mp (Nat.eq_zero_of_add_eq_zero_right (Nat.le_zero.mp enough))
      simp [noQueue, pops]
  | succ rounds ih =>
      cases queue with
      | nil => simp [pops]
      | cons head queue =>
          have tail := layered.tail
          rw [pops]
          split
          · rename_i old
            obtain ⟨taken, closed⟩ := @ih head.2 queue visited tail (by
              rw [List.length_cons] at enough
              omega)
            refine ⟨?_, ?_⟩
            · intro item member
              rcases List.mem_cons.mp member with rfl | inQueue
              · exact List.mem_cons_self
              · exact List.mem_cons_of_mem head (taken item inQueue)
            · intro item member
              rcases List.mem_cons.mp member with rfl | later
              · exact Or.inl old
              · rcases closed item later with known | ⟨level, atMost, below⟩
                · exact Or.inl known
                · exact Or.inr ⟨level, atMost, fun successor edge =>
                    List.mem_cons_of_mem head (below successor edge)⟩
          · rename_i fresh
            have pushed : Layered head.2 (queue ++ deeper next head) := tail.push head.1
            have step := openEdges_visit nodup covered fresh
            obtain ⟨taken, closed⟩ := @ih head.2 (queue ++ deeper next head)
              (head.1 :: visited) pushed (by
                simp only [List.length_cons, List.length_append, deeper,
                  List.length_map] at enough ⊢
                omega)
            have onward : ∀ successor ∈ next head.1, (successor, head.2 + 1) ∈
                pops next rounds (queue ++ deeper next head) (head.1 :: visited) := by
              intro successor edge
              refine taken _ (List.mem_append_right queue ?_)
              exact List.mem_map.mpr ⟨successor, edge, rfl⟩
            refine ⟨?_, ?_⟩
            · intro item member
              rcases List.mem_cons.mp member with rfl | inQueue
              · exact List.mem_cons_self
              · exact List.mem_cons_of_mem head (taken item (List.mem_append_left _ inQueue))
            · intro item member
              rcases List.mem_cons.mp member with rfl | later
              · exact Or.inr ⟨item.2, Nat.le_refl _, fun successor edge =>
                  List.mem_cons_of_mem item (onward successor edge)⟩
              · rcases closed item later with known | ⟨level, atMost, below⟩
                · rcases List.mem_cons.mp known with same | old
                  · -- Another visit of the head is not above it.
                    refine Or.inr ⟨head.2, ?_, ?_⟩
                    · exact pops_deeper (fun other inQueue =>
                        (pushed.within other inQueue).1) item later
                    · rw [same]
                      exact fun successor edge =>
                        List.mem_cons_of_mem head (onward successor edge)
                  · exact Or.inl old
                · exact Or.inr ⟨level, atMost, fun successor edge =>
                    List.mem_cons_of_mem head (below successor edge)⟩

theorem length_pops_le (rounds : Nat) (queue : List (Key × Nat)) (visited : List Key) :
    (pops next rounds queue visited).length ≤ rounds := by
  induction rounds generalizing queue visited with
  | zero => exact Nat.le_refl 0
  | succ rounds ih =>
      cases queue with
      | nil => exact Nat.zero_le _
      | cons head queue =>
          rw [pops, List.length_cons]
          split
          · exact Nat.succ_le_succ (ih _ _)
          · exact Nat.succ_le_succ (ih _ _)

/-- More rounds than are enough take nothing more from the queue. -/
theorem pops_add {nodes : List Key} (nodup : nodes.Nodup)
    (covered : ∀ key, next key ≠ [] → key ∈ nodes) {rounds : Nat} {queue : List (Key × Nat)}
    {visited : List Key} (enough : queue.length + openEdges next nodes visited ≤ rounds)
    (more : Nat) : pops next (rounds + more) queue visited = pops next rounds queue visited := by
  induction rounds generalizing queue visited with
  | zero =>
      have noQueue : queue = [] :=
        List.length_eq_zero_iff.mp (Nat.eq_zero_of_add_eq_zero_right (Nat.le_zero.mp enough))
      rw [noQueue, Nat.zero_add]
      cases more <;> rfl
  | succ rounds ih =>
      rw [Nat.add_right_comm]
      cases queue with
      | nil => rfl
      | cons head queue =>
          rw [pops, pops]
          split
          · rw [ih (by
              rw [List.length_cons] at enough
              omega)]
          · rename_i fresh
            have step := openEdges_visit nodup covered fresh
            rw [ih (by
              simp only [List.length_cons, List.length_append, deeper, List.length_map] at enough ⊢
              omega)]

section Rooted

variable {nodes : List Key} (nodup : nodes.Nodup)
  (covered : ∀ key, next key ≠ [] → key ∈ nodes) {rounds : Nat} {root : Key}
  (enough : 1 + openEdges next nodes [] ≤ rounds)

omit [DecidableEq Key] in
theorem layered_root (root : Key) : Layered 0 [(root, 0)] :=
  ⟨List.pairwise_singleton _ _, by simp⟩

theorem pops_root_ascending (rounds : Nat) (root : Key) :
    (pops next rounds [(root, 0)] []).Pairwise fun item later => item.2 ≤ later.2 :=
  pops_ascending (layered_root root)

theorem pops_root_sound {item : Key × Nat} (member : item ∈ pops next rounds [(root, 0)] []) :
    StepsTo next item.2 root item.1 :=
  pops_sound (fun other isRoot => by rw [List.mem_singleton.mp isRoot]; rfl) item member

include nodup covered enough

/-- A path is met at most at its own length. -/
theorem pops_root_complete {length : Nat} {key : Key} (steps : StepsTo next length root key) :
    ∃ depth ≤ length, (key, depth) ∈ pops next rounds [(root, 0)] [] := by
  obtain ⟨taken, closed⟩ := @pops_closed _ _ next nodes nodup covered rounds 0 [(root, 0)] []
    (layered_root root) enough
  induction length generalizing key with
  | zero =>
      obtain rfl : key = root := steps
      exact ⟨0, Nat.le_refl 0, taken _ (List.mem_singleton_self _)⟩
  | succ length ih =>
      obtain ⟨before, stepsBefore, edge⟩ := steps
      obtain ⟨depth, atMost, popped⟩ := ih stepsBefore
      rcases closed _ popped with visited | ⟨level, below, onward⟩
      · exact absurd visited List.not_mem_nil
      · exact ⟨level + 1, Nat.succ_le_succ (below.trans atMost), onward key edge⟩

end Rooted

/-! ## The first key found -/

variable {Value : Type} {found : Key → Option Value}

theorem firstFound_eq (rounds : Nat) (queue : List (Key × Nat)) (visited : List Key)
    (passed : ∀ key ∈ visited, found key = none) :
    firstFound next found rounds (queue.map Prod.fst) visited =
      (pops next rounds queue visited).findSome? fun item =>
        (found item.1).map fun value => (item.1, value) := by
  induction rounds generalizing queue visited with
  | zero => rfl
  | succ rounds ih =>
      cases queue with
      | nil => rfl
      | cons head queue =>
          rw [List.map_cons, firstFound, pops, List.findSome?_cons]
          by_cases old : head.1 ∈ visited
          · rw [if_pos old, if_pos old, passed head.1 old]
            exact ih queue visited passed
          · rw [if_neg old, if_neg old]
            cases value : found head.1 with
            | some result => rfl
            | none =>
                have pushed : (queue ++ deeper next head).map Prod.fst =
                    queue.map Prod.fst ++ next head.1 := by
                  simp [deeper, Function.comp_def]
                have onward := ih (queue ++ deeper next head) (head.1 :: visited) (by
                  intro key member
                  rcases List.mem_cons.mp member with rfl | known
                  · exact value
                  · exact passed key known)
                rw [pushed] at onward
                exact onward

/-- The key has the value, and no key that has one lies nearer to the root. -/
def Nearest (next : Key → List Key) (found : Key → Option Value) (root key : Key)
    (value : Value) : Prop :=
  found key = some value ∧ ∃ length, StepsTo next length root key ∧
    ∀ other, found other ≠ none → ∀ steps, StepsTo next steps root other → length ≤ steps

/-- The search finds a nearest key with a value, and nothing exactly when no
key that the root reaches has one. -/
theorem firstFound_root {nodes : List Key} (nodup : nodes.Nodup)
    (covered : ∀ key, next key ≠ [] → key ∈ nodes) {rounds : Nat} {root : Key}
    (enough : 1 + openEdges next nodes [] ≤ rounds) :
    (∀ key value, firstFound next found rounds [root] [] = some (key, value) →
      Nearest next found root key value) ∧
    (firstFound next found rounds [root] [] = none ↔
      ∀ key, Reaches next root key → found key = none) := by
  have search : firstFound next found rounds [root] [] =
      (pops next rounds [(root, 0)] []).findSome? fun item =>
        (found item.1).map fun value => (item.1, value) :=
    firstFound_eq rounds [(root, 0)] [] (by simp)
  rw [search]
  refine ⟨?_, ?_⟩
  · intro key value isFirst
    obtain ⟨front, item, later, order, isFound, passed⟩ :=
      List.findSome?_eq_some_iff.mp isFirst
    obtain ⟨result, has, same⟩ := Option.map_eq_some_iff.mp isFound
    obtain ⟨rfl, rfl⟩ := Prod.mk.inj same
    have member : item ∈ pops next rounds [(root, 0)] [] := by
      rw [order]
      simp
    refine ⟨has, item.2, pops_root_sound member, ?_⟩
    intro other hasToo steps path
    obtain ⟨depth, atMost, popped⟩ := pops_root_complete nodup covered enough path
    have ascending := @pops_root_ascending _ _ next rounds root
    rw [order, List.pairwise_append, List.pairwise_cons] at ascending
    rw [order, List.mem_append, List.mem_cons] at popped
    rcases popped with before | same | after
    · exact absurd (Option.map_eq_none_iff.mp (passed _ before)) hasToo
    · rw [← same]
      exact atMost
    · exact (ascending.2.1.1 _ after).trans atMost
  · rw [List.findSome?_eq_none_iff]
    constructor
    · intro none key reaches
      obtain ⟨length, path⟩ := (reaches_iff_stepsTo root key).mp reaches
      obtain ⟨depth, _, popped⟩ := pops_root_complete nodup covered enough path
      exact Option.map_eq_none_iff.mp (none _ popped)
    · intro none item member
      rw [none item.1 ((reaches_iff_stepsTo root item.1).mpr ⟨_, pops_root_sound member⟩)]
      rfl

end BreadthFirst
