import Rangexx.CommonReach
import Rangexx.ReadStarts

/-!
# The nearest common ancestor

`nearest_common_ancestor` searches the reverse edges from both nodes breadth
first, one node of each queue in a round, and keeps the best ancestor both
searches have met.  It stops when one of them is twice as deep as the distance
of that ancestor, though the other one can still be at its first level.
-/

namespace Rangexx

open StateProgram Worklist BreadthFirst CommonReach

namespace RangeApi

open Api

/-- The queue of one search, of nodes with their depths (`BFSNodeWrapper`), and
the depths of the visited names. -/
structure BFSQueue where
  queue : List (String × Nat)
  visited : AList fun _ : String => Nat

/-- Visit a node that was taken from the queue. -/
def BFSQueue.visit (next : String → List String) (v : String × Nat) (search : BFSQueue) :
    BFSQueue :=
  if v.1 ∈ search.visited then search
  else ⟨search.queue ++ deeper next v, search.visited.insert v.1 v.2⟩

/-- Keep the node as the best ancestor if the other search has visited it and
the distance is smaller; `none` has the distance `size_t` ends at. -/
def improve (visited : AList fun _ : String => Nat) (v : String × Nat)
    (best : Option (String × Nat)) : Option (String × Nat) :=
  match visited.lookup v.1 with
  | none => best
  | some depth =>
      if best.all fun found => depth + v.2 < found.2 then some (v.1, depth + v.2) else best

/-- One half of a round, for the node taken from the queue of this half. -/
def searchHalf (next : String → List String) (v : Option (String × Nat)) (own other : BFSQueue)
    (best : Option (String × Nat)) : BFSQueue × Option (String × Nat) :=
  match v with
  | none => (own, best)
  | some v => (own.visit next v, improve other.visited v best)

structure AncestorSearch where
  first : BFSQueue
  second : BFSQueue
  best : Option (String × Nat)

/-- A round without the check at its end. -/
def ancestorRound (nextFirst nextSecond : String → List String) (state : AncestorSearch) :
    AncestorSearch :=
  let v1 := state.first.queue.head?
  let v2 := state.second.queue.head?
  let first := { state.first with queue := state.first.queue.tail }
  let second := { state.second with queue := state.second.queue.tail }
  let half1 := searchHalf nextFirst v1 first second state.best
  let half2 := searchHalf nextSecond v2 second half1.1 half1.2
  ⟨half1.1, half2.1, half2.2⟩

/-- The check at the end of a round. -/
def cutOff (v1 v2 : Option (String × Nat)) (best : Option (String × Nat)) : Bool :=
  best.any fun found => v1.any (found.2 * 2 < ·.2) || v2.any (found.2 * 2 < ·.2)

/-- The loop, for so many rounds; `none` when they are not enough. -/
def ancestorLoop (nextFirst nextSecond : String → List String) :
    Nat → AncestorSearch → Option (Option (String × Nat))
  | 0, _ => none
  | rounds + 1, state =>
      if state.first.queue = [] ∧ state.second.queue = [] then some state.best
      else
        let after := ancestorRound nextFirst nextSecond state
        if cutOff state.first.queue.head? state.second.queue.head? after.best then
          some after.best
        else ancestorLoop nextFirst nextSecond rounds after

/-- `nearest_common_ancestor`, for so many rounds of its loop. -/
def nearestCommonAncestor (rounds : Nat) (envName node1Name node2Name : String)
    (version : Option Nat) : Api (Option (Option String)) := do
  graphdb .primary version
  match ← getNode .primary envName node1Name with
  | none => StateProgram.raise (.nodeNotFound (prefixedNodeName envName node1Name))
  | some n1 =>
      match ← getNode .primary envName node2Name with
      | none => StateProgram.raise (.nodeNotFound (prefixedNodeName envName node2Name))
      | some n2 =>
          StateProgram.read fun world =>
            (ancestorLoop (nextNames world.primary.inst .reverse n1.wantedVersion)
              (nextNames world.primary.inst .reverse n2.wantedVersion) rounds
              ⟨⟨[(n1.name, 0)], ∅⟩, ⟨[(n2.name, 0)], ∅⟩, none⟩).map fun best =>
                best.map fun found => unprefixNodeName envName found.1

/-! ## What a half keeps -/

/-- The visited names are those taken so far, each with its first depth. -/
structure Describes (done : List (String × Nat)) (visited : AList fun _ : String => Nat) :
    Prop where
  sound : ∀ key depth, visited.lookup key = some depth → (key, depth) ∈ done
  least : ∀ key depth, (key, depth) ∈ done → ∃ early ≤ depth, visited.lookup key = some early

/-- The best ancestor of those that both searches have met. -/
structure BestOf (left right : List (String × Nat)) (best : Option (String × Nat)) : Prop where
  nothing : best = none → ∀ key total, ¬ Meets left right key total
  found : ∀ key total, best = some (key, total) →
    Meets left right key total ∧ MeetsAtBest left right total

theorem Describes.visit {done : List (String × Nat)} {next : String → List String}
    {search : BFSQueue} (describes : Describes done search.visited) {v : String × Nat}
    (ascending : ∀ item ∈ done, item.2 ≤ v.2) :
    Describes (done ++ [v]) (search.visit next v).visited := by
  unfold BFSQueue.visit
  split
  · rename_i old
    obtain ⟨early, isEarly⟩ := Option.isSome_iff_exists.mp (AList.lookup_isSome.mpr old)
    refine ⟨fun key depth visited => List.mem_append_left _ (describes.sound key depth visited),
      fun key depth member => ?_⟩
    rcases List.mem_append.mp member with before | isLast
    · exact describes.least key depth before
    · obtain rfl := List.mem_singleton.mp isLast
      exact ⟨early, ascending _ (describes.sound _ early isEarly), isEarly⟩
  · rename_i fresh
    refine ⟨fun key depth visited => ?_, fun key depth member => ?_⟩
    · by_cases same : key = v.1
      · subst same
        rw [AList.lookup_insert] at visited
        obtain rfl := Option.some.inj visited
        exact List.mem_append_right _ (List.mem_singleton_self _)
      · rw [AList.lookup_insert_ne same] at visited
        exact List.mem_append_left _ (describes.sound key depth visited)
    · rcases List.mem_append.mp member with before | isLast
      · obtain ⟨early, isLess, isEarly⟩ := describes.least key depth before
        have other : key ≠ v.1 := by
          rintro rfl
          exact fresh (AList.lookup_isSome.mp (Option.isSome_of_eq_some isEarly))
        exact ⟨early, isLess, by rw [AList.lookup_insert_ne other, isEarly]⟩
      · obtain rfl := List.mem_singleton.mp isLast
        exact ⟨depth, Nat.le_refl depth, AList.lookup_insert _⟩

theorem BestOf.symm {left right : List (String × Nat)} {best : Option (String × Nat)}
    (bestOf : BestOf left right best) : BestOf right left best := by
  refine ⟨fun none key total meets => bestOf.nothing none key total (Meets.symm meets),
    fun key total isBest => ?_⟩
  obtain ⟨meets, least⟩ := bestOf.found key total isBest
  exact ⟨Meets.symm meets, fun other more meetsOther => least other more (Meets.symm meetsOther)⟩

theorem BestOf.improve {left right : List (String × Nat)} {best : Option (String × Nat)}
    (bestOf : BestOf left right best) {visited : AList fun _ : String => Nat}
    (describes : Describes right visited) (v : String × Nat) :
    BestOf (left ++ [v]) right (improve visited v best) := by
  unfold RangeApi.improve
  cases known : visited.lookup v.1 with
  | none =>
      have nothingNew : ∀ key total, Meets (left ++ [v]) right key total ↔
          Meets left right key total := by
        intro key total
        rw [meets_append_iff, or_iff_left]
        rintro ⟨depth, inRight, -, -⟩
        obtain ⟨early, -, isEarly⟩ := describes.least v.1 depth inRight
        rw [known] at isEarly
        simp at isEarly
      refine ⟨fun isNone key total meets =>
        bestOf.nothing isNone key total ((nothingNew key total).mp meets),
        fun key total isBest => ?_⟩
      obtain ⟨meets, least⟩ := bestOf.found key total isBest
      exact ⟨(nothingNew key total).mpr meets, fun other more meetsOther =>
        least other more ((nothingNew other more).mp meetsOther)⟩
  | some depth =>
      have newMeet : Meets (left ++ [v]) right v.1 (depth + v.2) :=
        meets_append_iff.mpr (Or.inr ⟨depth, describes.sound v.1 depth known, rfl, rfl⟩)
      have leastNew : ∀ key total, Meets (left ++ [v]) right key total →
          Meets left right key total ∨ depth + v.2 ≤ total := by
        intro key total meets
        rcases meets_append_iff.mp meets with old | ⟨later, inRight, -, rfl⟩
        · exact Or.inl old
        · obtain ⟨early, isLess, isEarly⟩ := describes.least v.1 later inRight
          obtain rfl := Option.some.inj (known.symm.trans isEarly)
          exact Or.inr (Nat.add_le_add_right isLess v.2)
      dsimp only
      cases best with
      | none =>
          rw [Option.all_none, if_pos rfl]
          refine ⟨by simp, fun key total isBest => ?_⟩
          obtain ⟨rfl, rfl⟩ := Prod.mk.inj (Option.some.inj isBest)
          refine ⟨newMeet, fun other more meets => ?_⟩
          rcases leastNew other more meets with old | new
          · exact absurd old (bestOf.nothing rfl other more)
          · exact new
      | some found =>
          obtain ⟨meetsFound, leastFound⟩ := bestOf.found found.1 found.2 rfl
          rw [Option.all_some]
          split
          · rename_i nearer
            have nearer := of_decide_eq_true nearer
            refine ⟨by simp, fun key total isBest => ?_⟩
            obtain ⟨rfl, rfl⟩ := Prod.mk.inj (Option.some.inj isBest)
            refine ⟨newMeet, fun other more meets => ?_⟩
            rcases leastNew other more meets with old | new
            · exact (Nat.le_of_lt nearer).trans (leastFound other more old)
            · exact new
          · rename_i notNearer
            have notNearer : ¬ depth + v.2 < found.2 := fun less => notNearer (decide_eq_true less)
            refine ⟨by simp, fun key total isBest => ?_⟩
            obtain rfl : found = (key, total) := Option.some.inj isBest
            refine ⟨meets_append_iff.mpr (Or.inl meetsFound), fun other more meets => ?_⟩
            rcases leastNew other more meets with old | new
            · exact leastFound other more old
            · exact (Nat.le_of_not_lt notNearer).trans new

/-! ## Rounds -/

/-- A search after some rounds: what is still ahead of it and what it has
visited. -/
structure SearchAt (next : String → List String) (order : List (String × Nat))
    (rounds done : Nat) (search : BFSQueue) : Prop where
  ahead : pops next rounds search.queue search.visited.keys = order.drop done
  behind : Describes (order.take done) search.visited

namespace SearchAt

variable {next : String → List String} {order : List (String × Nat)} {rounds done : Nat}
  {search : BFSQueue}

theorem head_eq (isAt : SearchAt next order (rounds + 1) done search) :
    search.queue.head? = order[done]? := by
  rw [← List.head?_drop, ← isAt.ahead]
  cases search.queue with
  | nil => rfl
  | cons v queue => rw [pops]; rfl

theorem queue_eq_nil_iff (isAt : SearchAt next order (rounds + 1) done search) :
    search.queue = [] ↔ order.length ≤ done := by
  rw [← List.head?_eq_none_iff, isAt.head_eq, List.getElem?_eq_none_iff]

/-- The half of a round that takes the next node. -/
theorem half (isAt : SearchAt next order (rounds + 1) done search)
    (ascending : order.Pairwise fun item later => item.2 ≤ later.2) (other : BFSQueue)
    (best : Option (String × Nat)) :
    SearchAt next order rounds (done + 1)
      (searchHalf next search.queue.head? { search with queue := search.queue.tail } other
        best).1 := by
  obtain ⟨queue, visited⟩ := search
  cases queue with
  | nil =>
      have ended := isAt.queue_eq_nil_iff.mp rfl
      refine ⟨?_, ?_⟩
      · rw [List.drop_eq_nil_of_le (ended.trans (Nat.le_succ done))]
        cases rounds <;> rfl
      · have behind := isAt.behind
        rw [List.take_of_length_le ended] at behind
        rw [List.take_of_length_le (ended.trans (Nat.le_succ done))]
        exact behind
  | cons v queue =>
      have isNext : order[done]? = some v := isAt.head_eq.symm
      have split : order.drop done = v :: order.drop (done + 1) := by
        obtain ⟨inRange, rfl⟩ := List.getElem?_eq_some_iff.mp isNext
        exact List.drop_eq_getElem_cons inRange
      have taken : order.take (done + 1) = order.take done ++ [v] := by
        rw [List.take_add_one, isNext]
        rfl
      have earlier : ∀ item ∈ order.take done, item.2 ≤ v.2 := by
        intro item member
        rw [← List.take_append_drop done order, split] at ascending
        exact (List.pairwise_append.mp ascending).2.2 item member v List.mem_cons_self
      refine ⟨?_, ?_⟩
      · have ahead := isAt.ahead
        rw [split, pops, List.cons.injEq] at ahead
        rw [← ahead.2]
        change pops next rounds (BFSQueue.visit next v ⟨queue, visited⟩).queue
          (BFSQueue.visit next v ⟨queue, visited⟩).visited.keys = _
        unfold BFSQueue.visit
        by_cases old : v.1 ∈ visited
        · rw [if_pos old, if_pos (AList.mem_keys.mp old)]
        · rw [if_neg old, if_neg (fun member => old (AList.mem_keys.mpr member))]
          dsimp only
          rw [AList.keys_insert, List.erase_of_not_mem fun member => old (AList.mem_keys.mpr member)]
      · rw [taken]
        exact @Describes.visit _ next ⟨queue, visited⟩ isAt.behind v earlier

theorem half_best (isAt : SearchAt next order (rounds + 1) done search) {own other : BFSQueue}
    {right : List (String × Nat)} {best : Option (String × Nat)}
    (bestOf : BestOf (order.take done) right best) (describes : Describes right other.visited) :
    BestOf (order.take (done + 1)) right
      (searchHalf next search.queue.head? own other best).2 := by
  rw [List.take_add_one, ← isAt.head_eq]
  cases search.queue.head? with
  | none =>
      rw [Option.toList_none, List.append_nil]
      exact bestOf
  | some v => exact bestOf.improve describes v

end SearchAt

section Loop

variable {nextFirst nextSecond : String → List String} {left right : List (String × Nat)}
  {rounds done : Nat} {state : AncestorSearch}

structure SearchesAt (nextFirst nextSecond : String → List String)
    (left right : List (String × Nat)) (rounds done : Nat) (state : AncestorSearch) : Prop where
  first : SearchAt nextFirst left rounds done state.first
  second : SearchAt nextSecond right rounds done state.second
  best : BestOf (left.take done) (right.take done) state.best

theorem SearchesAt.round (isAt : SearchesAt nextFirst nextSecond left right (rounds + 1) done state)
    (leftAscending : left.Pairwise fun item later => item.2 ≤ later.2)
    (rightAscending : right.Pairwise fun item later => item.2 ≤ later.2) :
    SearchesAt nextFirst nextSecond left right rounds (done + 1)
      (ancestorRound nextFirst nextSecond state) := by
  have half1 := isAt.first.half leftAscending
    { state.second with queue := state.second.queue.tail } state.best
  have best1 := @SearchAt.half_best _ _ _ _ _ isAt.first
    { state.first with queue := state.first.queue.tail }
    { state.second with queue := state.second.queue.tail } _ _ isAt.best isAt.second.behind
  refine ⟨half1, isAt.second.half rightAscending _ _, BestOf.symm ?_⟩
  exact isAt.second.half_best best1.symm half1.behind

/-- After this round the search is cut off, though both searches may go on. -/
def CutAt (left right : List (String × Nat)) (round : Nat) : Prop :=
  ∃ key total, Meets (left.take (round + 1)) (right.take (round + 1)) key total ∧
    MeetsAtBest (left.take (round + 1)) (right.take (round + 1)) total ∧
    ∃ v, (left[round]? = some v ∨ right[round]? = some v) ∧ total * 2 < v.2

theorem BestOf.cutOff_iff {round : Nat} {best : Option (String × Nat)}
    (bestOf : BestOf (left.take (round + 1)) (right.take (round + 1)) best) :
    cutOff left[round]? right[round]? best = true ↔ CutAt left right round := by
  unfold cutOff CutAt
  cases best with
  | none =>
      simp only [Option.any_none, Bool.false_eq_true, false_iff]
      rintro ⟨key, total, meets, -⟩
      exact bestOf.nothing rfl key total meets
  | some found =>
      obtain ⟨meets, least⟩ := bestOf.found found.1 found.2 rfl
      rw [Option.any_some, Bool.or_eq_true, Option.any_eq_true, Option.any_eq_true]
      simp only [decide_eq_true_eq]
      constructor
      · rintro (⟨v, isNext, deep⟩ | ⟨v, isNext, deep⟩)
        · exact ⟨found.1, found.2, meets, least, v, Or.inl isNext, deep⟩
        · exact ⟨found.1, found.2, meets, least, v, Or.inr isNext, deep⟩
      · rintro ⟨key, total, meetsKey, leastKey, v, isNext, deep⟩
        have same : total = found.2 :=
          Nat.le_antisymm (leastKey _ _ meets) (least key total meetsKey)
        rw [← same]
        exact isNext.imp (fun isNext => ⟨v, isNext, deep⟩) fun isNext => ⟨v, isNext, deep⟩

/-- The loop ends with the best ancestor of the whole searches, or with the
best one so far after the first round that cuts it off. -/
theorem ancestorLoop_ends
    (isAt : SearchesAt nextFirst nextSecond left right rounds done state)
    (leftAscending : left.Pairwise fun item later => item.2 ≤ later.2)
    (rightAscending : right.Pairwise fun item later => item.2 ≤ later.2)
    (reached : done ≤ left.length ∨ done ≤ right.length)
    (enough : left.length < rounds + done ∧ right.length < rounds + done) :
    ∃ best, ancestorLoop nextFirst nextSecond rounds state = some best ∧
      ((BestOf left right best ∧ ∀ round, done ≤ round → ¬ CutAt left right round) ∨
        ∃ round, done ≤ round ∧ CutAt left right round ∧
          BestOf (left.take (round + 1)) (right.take (round + 1)) best ∧
          ∀ earlier, done ≤ earlier → earlier < round → ¬ CutAt left right earlier) := by
  induction rounds generalizing done state with
  | zero => omega
  | succ rounds ih =>
      rw [ancestorLoop]
      by_cases ended : state.first.queue = [] ∧ state.second.queue = []
      · rw [if_pos ended]
        rw [isAt.first.queue_eq_nil_iff, isAt.second.queue_eq_nil_iff] at ended
        refine ⟨state.best, rfl, Or.inl ⟨?_, ?_⟩⟩
        · have best := isAt.best
          rw [List.take_of_length_le ended.1, List.take_of_length_le ended.2] at best
          exact best
        · rintro round later ⟨-, -, -, -, v, isNext | isNext, -⟩
          · rw [List.getElem?_eq_none (ended.1.trans later)] at isNext
            simp at isNext
          · rw [List.getElem?_eq_none (ended.2.trans later)] at isNext
            simp at isNext
      · rw [if_neg ended]
        have after := isAt.round leftAscending rightAscending
        rw [isAt.first.queue_eq_nil_iff, isAt.second.queue_eq_nil_iff] at ended
        have cut := after.best.cutOff_iff
        rw [isAt.first.head_eq, isAt.second.head_eq]
        dsimp only
        by_cases stops : CutAt left right done
        · rw [if_pos (cut.mpr stops)]
          exact ⟨_, rfl, Or.inr ⟨done, Nat.le_refl done, stops, after.best, by omega⟩⟩
        · rw [if_neg (fun isCut => stops (cut.mp isCut))]
          obtain ⟨best, returns, outcome⟩ := ih after (by omega) (by omega)
          refine ⟨best, returns, outcome.imp ?_ ?_⟩
          · rintro ⟨bestOf, goesOn⟩
            refine ⟨bestOf, fun round later => ?_⟩
            rcases Nat.eq_or_lt_of_le later with rfl | later
            · exact stops
            · exact goesOn round later
          · rintro ⟨round, later, isCut, bestOf, goesOn⟩
            refine ⟨round, Nat.le_of_succ_le later, isCut, bestOf, fun earlier notBefore before => ?_⟩
            rcases Nat.eq_or_lt_of_le notBefore with rfl | notBefore
            · exact stops
            · exact goesOn earlier notBefore before

/-- The result does not depend on the number of rounds. -/
theorem ancestorLoop_add {best : Option (String × Nat)}
    (returns : ancestorLoop nextFirst nextSecond rounds state = some best) (more : Nat) :
    ancestorLoop nextFirst nextSecond (rounds + more) state = some best := by
  induction rounds generalizing state with
  | zero => simp [ancestorLoop] at returns
  | succ rounds ih =>
      rw [Nat.add_right_comm]
      rw [ancestorLoop] at returns ⊢
      split
      · rename_i ended
        rw [if_pos ended] at returns
        exact returns
      · rename_i goesOn
        rw [if_neg goesOn] at returns
        dsimp only at returns ⊢
        split
        · rename_i stops
          rw [if_pos stops] at returns
          exact returns
        · rename_i onward
          rw [if_neg onward] at returns
          exact ih returns

end Loop

/-! ## The search -/

/-- The ancestors of a node as a breadth-first search takes them, with their
depths; one with several edges to it is taken that often. -/
def ancestorOrder (inst : GraphInstance) (start : Node) : List (String × Nat) :=
  pops (nextNames inst .reverse start.wantedVersion) (searchRounds inst .reverse)
    [(start.name, 0)] []

/-- In a round after which the best common ancestor so far is not a nearest one,
neither search is more than twice as deep as its distance. -/
def NeverCutShort (left right : List (String × Nat)) : Prop :=
  ∀ round key total, Meets (left.take (round + 1)) (right.take (round + 1)) key total →
    MeetsAtBest (left.take (round + 1)) (right.take (round + 1)) total →
    ¬ MeetsAtBest left right total →
    ∀ v, left[round]? = some v ∨ right[round]? = some v → v.2 ≤ total * 2

/-- The common ancestors of two nodes, with their distances from both
together. -/
abbrev CommonAncestor (inst : GraphInstance) (n1 n2 : Node) : String → Nat → Prop :=
  CommonSteps (nextNames inst .reverse n1.wantedVersion) (nextNames inst .reverse n2.wantedVersion)
    n1.name n2.name

abbrev NearestAncestor (inst : GraphInstance) (n1 n2 : Node) : String → Prop :=
  NearestCommon (nextNames inst .reverse n1.wantedVersion)
    (nextNames inst .reverse n2.wantedVersion) n1.name n2.name

section Found

variable {left right : List (String × Nat)} {found : String × Nat} {round : Nat}

/-- A search that is not cut off is not cut short. -/
theorem neverCutShort_of_not_cutAt (goesOn : ∀ round, ¬ CutAt left right round) :
    NeverCutShort left right := by
  intro round key total meets best _ v isNext
  by_contra deep
  exact goesOn round ⟨key, total, meets, best, v, isNext, Nat.lt_of_not_le deep⟩

/-- Nor is one that had a best ancestor when it was cut off. -/
theorem neverCutShort_of_best
    (meets : Meets (left.take (round + 1)) (right.take (round + 1)) found.1 found.2)
    (best : MeetsAtBest left right found.2)
    (goesOn : ∀ earlier < round, ¬ CutAt left right earlier) : NeverCutShort left right := by
  intro other key total meetsKey bestSoFar notBest v isNext
  rcases Nat.lt_or_ge other round with before | later
  · by_contra deep
    exact goesOn other before ⟨key, total, meetsKey, bestSoFar, v, isNext, Nat.lt_of_not_le deep⟩
  · have wider : Meets (left.take (other + 1)) (right.take (other + 1)) found.1 found.2 :=
      meets.mono (List.take_subset_take_left left (Nat.succ_le_succ later))
        (List.take_subset_take_left right (Nat.succ_le_succ later))
    refine absurd (fun name distance meetsName => ?_) notBest
    exact (bestSoFar found.1 found.2 wider).trans (best name distance meetsName)

theorem best_of_neverCutShort (safe : NeverCutShort left right) (cut : CutAt left right round)
    (meets : Meets (left.take (round + 1)) (right.take (round + 1)) found.1 found.2)
    (bestSoFar : MeetsAtBest (left.take (round + 1)) (right.take (round + 1)) found.2) :
    MeetsAtBest left right found.2 := by
  obtain ⟨key, total, meetsKey, bestKey, v, isNext, deep⟩ := cut
  have same : total = found.2 :=
    Nat.le_antisymm (bestKey _ _ meets) (bestSoFar key total meetsKey)
  subst same
  by_contra notBest
  exact absurd (safe round key found.2 meetsKey bestKey notBest v isNext) (Nat.not_le_of_lt deep)

end Found

theorem exhausts {inst : GraphInstance} (committed : Committed inst) (wanted : Option Nat) :
    Exhausts (nextNames inst .reverse wanted) (GraphDB.cursorNames inst)
      (searchRounds inst .reverse) :=
  ⟨cursorNames_nodup inst, mem_cursorNames_of_nextNames committed .reverse wanted,
    openEdges_le_searchRounds inst .reverse wanted []⟩

theorem searchesAt_start {inst : GraphInstance} (committed : Committed inst) (n1 n2 : Node) :
    SearchesAt (nextNames inst .reverse n1.wantedVersion) (nextNames inst .reverse n2.wantedVersion)
      (ancestorOrder inst n1) (ancestorOrder inst n2) (searchRounds inst .reverse + 1) 0
      ⟨⟨[(n1.name, 0)], ∅⟩, ⟨[(n2.name, 0)], ∅⟩, none⟩ := by
  have start : ∀ node : Node, SearchAt (nextNames inst .reverse node.wantedVersion)
      (ancestorOrder inst node) (searchRounds inst .reverse + 1) 0 ⟨[(node.name, 0)], ∅⟩ := by
    intro node
    refine ⟨?_, ⟨by simp, by simp⟩⟩
    have whole := exhausts committed node.wantedVersion
    exact pops_add whole.nodup whole.covered whole.enough 1
  refine ⟨start n1, start n2, ⟨fun _ key total meets => ?_, by simp⟩⟩
  obtain ⟨_, _, member, -⟩ := meets
  simp at member

theorem ancestorLoop_finds {inst : GraphInstance} (committed : Committed inst) (n1 n2 : Node) :
    ∃ rounds best, (∀ more, ancestorLoop (nextNames inst .reverse n1.wantedVersion)
        (nextNames inst .reverse n2.wantedVersion) (rounds + more)
        ⟨⟨[(n1.name, 0)], ∅⟩, ⟨[(n2.name, 0)], ∅⟩, none⟩ = some best) ∧
      (best = none ↔ ∀ name distance, ¬ CommonAncestor inst n1 n2 name distance) ∧
      (∀ found, best = some found → CommonAncestor inst n1 n2 found.1 found.2) ∧
      ((∀ found, best = some found → NearestAncestor inst n1 n2 found.1) ↔
        NeverCutShort (ancestorOrder inst n1) (ancestorOrder inst n2)) := by
  obtain ⟨best, returns, outcome⟩ := ancestorLoop_ends (searchesAt_start committed n1 n2)
    (pops_root_ascending _ _) (pops_root_ascending _ _) (Or.inl (Nat.zero_le _))
    ⟨Nat.lt_succ_of_le (length_pops_le _ _ _), Nat.lt_succ_of_le (length_pops_le _ _ _)⟩
  have first := exhausts committed n1.wantedVersion
  have second := exhausts committed n2.wantedVersion
  refine ⟨_, best, fun more => ancestorLoop_add returns more, ?_⟩
  rcases outcome with ⟨bestOf, goesOn⟩ | ⟨round, -, cut, bestOf, goesOn⟩
  · refine ⟨⟨fun isNone name distance common => ?_, fun none => ?_⟩, fun found isBest => ?_,
      fun _ => neverCutShort_of_not_cutAt fun round => goesOn round (Nat.zero_le round),
      fun _ found isBest => ?_⟩
    · obtain ⟨less, -, meets⟩ := meets_of_commonSteps first second common
      exact bestOf.nothing isNone name less meets
    · rw [Option.eq_none_iff_forall_ne_some]
      exact fun found isBest => none found.1 found.2
        (commonSteps_of_meets (bestOf.found _ _ isBest).1)
    · exact commonSteps_of_meets (bestOf.found _ _ isBest).1
    · obtain ⟨meets, least⟩ := bestOf.found _ _ isBest
      exact nearestCommon_of_meets first second meets least
  · have isCut := cut
    obtain ⟨key, total, meetsKey, -⟩ := isCut
    cases best with
    | none => exact absurd meetsKey (bestOf.nothing rfl key total)
    | some found =>
        obtain ⟨meets, least⟩ := bestOf.found found.1 found.2 rfl
        have whole := meets.mono (List.take_subset _ _) (List.take_subset _ _)
        have common := commonSteps_of_meets whole
        refine ⟨⟨by simp, fun none => absurd common (none _ _)⟩, ?_, fun nearest => ?_,
          fun safe => ?_⟩
        · rintro _ ⟨⟩
          exact common
        · refine neverCutShort_of_best meets ?_ fun earlier before =>
            goesOn earlier (Nat.zero_le earlier) before
          exact meetsAtBest_of_nearest first second (round + 1) meets least (nearest found rfl)
        · rintro _ ⟨⟩
          exact nearestCommon_of_meets first second whole (best_of_neverCutShort safe cut meets least)

/-- `nearest_common_ancestor` ends; it finds nothing exactly when the nodes have
no common ancestor, and what it finds is one.  It finds a nearest one if and
only if the searches are never cut short.  The name is given without the prefix
of the environment. -/
theorem nearest_common_ancestor_iff {world opened : World} {version : Option Nat}
    {envName node1Name node2Name : String} {n1 n2 : Node}
    (starts : Starts world version envName node1Name opened n1)
    (found2 : (getNode .primary envName node2Name opened).1 = .ok (some n2)) :
    ∃ rounds result,
      (∀ more, (nearestCommonAncestor (rounds + more) envName node1Name node2Name version
        world).1 = .ok (some (result.map (unprefixNodeName envName)))) ∧
      (result = none ↔
        ∀ name distance, ¬ CommonAncestor opened.primary.inst n1 n2 name distance) ∧
      (∀ name, result = some name →
        ∃ distance, CommonAncestor opened.primary.inst n1 n2 name distance) ∧
      ((∀ name, result = some name → NearestAncestor opened.primary.inst n1 n2 name) ↔
        NeverCutShort (ancestorOrder opened.primary.inst n1)
          (ancestorOrder opened.primary.inst n2)) := by
  obtain ⟨rounds, best, returns, nothing, common, nearest⟩ :=
    ancestorLoop_finds starts.committed n1 n2
  have getNode2 : getNode .primary envName node2Name opened = (.ok (some n2), opened) := by
    rw [getNode_apply] at found2 ⊢
    rw [← found2]
  refine ⟨rounds, best.map Prod.fst, fun more => ?_, ?_, ?_, ?_⟩
  · unfold nearestCommonAncestor
    rw [bind_of_ok starts.opens, bind_of_ok starts.getNode_eq]
    dsimp only
    rw [bind_of_ok getNode2]
    change Except.ok (Option.map _ (ancestorLoop _ _ (rounds + more) _)) = _
    rw [returns, Option.map_some, Option.map_map]
    rfl
  · rw [Option.map_eq_none_iff, nothing]
  · rintro name isName
    obtain ⟨found, isBest, rfl⟩ := Option.map_eq_some_iff.mp isName
    exact ⟨found.2, common found isBest⟩
  · rw [← nearest]
    constructor
    · exact fun near found isBest => near found.1 (by rw [isBest]; rfl)
    · rintro near name isName
      obtain ⟨found, isBest, rfl⟩ := Option.map_eq_some_iff.mp isName
      exact near found isBest

/-- A chain of clusters down to `a`; `b` is in all of them, in the environment
and, last, in `a`. -/
def chained : List WriteCall :=
  [⟨.createEnv, ["e"], 1⟩, ⟨.addClusterToEnv, ["e", "r"], 2⟩,
    ⟨.addClusterToCluster, ["e", "r", "q"], 3⟩, ⟨.addClusterToCluster, ["e", "q", "p"], 4⟩,
    ⟨.addClusterToCluster, ["e", "p", "y"], 5⟩, ⟨.addClusterToCluster, ["e", "y", "a"], 6⟩,
    ⟨.addClusterToCluster, ["e", "y", "b"], 7⟩, ⟨.addClusterToCluster, ["e", "p", "b"], 8⟩,
    ⟨.addClusterToCluster, ["e", "q", "b"], 9⟩, ⟨.addClusterToCluster, ["e", "r", "b"], 10⟩,
    ⟨.addClusterToEnv, ["e", "b"], 11⟩, ⟨.addClusterToCluster, ["e", "a", "b"], 12⟩]

/-- A cluster of the chain as the call finds it. -/
def chainedNode (name : String) : Node :=
  Node.loaded (World.empty.calls chained).primary.inst name

theorem nearest_common_ancestor_iff_chained :
    ∃ rounds result,
      (∀ more, (nearestCommonAncestor (rounds + more) "e" "a" "b" none
        (World.empty.calls chained)).1 = .ok (some (result.map (unprefixNodeName "e")))) ∧
      ((∀ name, result = some name →
          NearestAncestor (atCurrent .primary (World.empty.calls chained)).primary.inst
            (chainedNode "e#a") (chainedNode "e#b") name) ↔
        NeverCutShort
          (ancestorOrder (atCurrent .primary (World.empty.calls chained)).primary.inst
            (chainedNode "e#a"))
          (ancestorOrder (atCurrent .primary (World.empty.calls chained)).primary.inst
            (chainedNode "e#b"))) := by
  obtain ⟨rounds, result, returns, -, -, nearest⟩ := @nearest_common_ancestor_iff
    (World.empty.calls chained) (atCurrent .primary (World.empty.calls chained)) none "e" "a" "b"
    (chainedNode "e#a") (chainedNode "e#b")
    ⟨World.empty_quiet.calls chained, rfl, by decide +kernel⟩ (by decide +kernel)
  exact ⟨rounds, result, returns, nearest⟩

/-- The call returns `y`, at distance 2, though `a` itself is a parent of `b`. -/
theorem nearest_common_ancestor_chained :
    (nearestCommonAncestor 200 "e" "a" "b" none (World.empty.calls chained)).1 =
        .ok (some (some "y")) ∧
      CommonAncestor (World.empty.calls chained).primary.inst (chainedNode "e#a")
        (chainedNode "e#b") "e#a" 1 ∧
      ∀ name, unprefixNodeName "e" name = "y" → ∀ distance,
        CommonAncestor (World.empty.calls chained).primary.inst (chainedNode "e#a")
          (chainedNode "e#b") name distance → 2 ≤ distance := by
  refine ⟨by decide +kernel, ⟨0, 1, rfl, ⟨"e#b", rfl, by decide +kernel⟩, rfl⟩, ?_⟩
  rintro name isName distance ⟨fromA, fromB, stepsA, stepsB, rfl⟩
  have notA : fromA ≠ 0 := by
    rintro rfl
    obtain rfl : name = "e#a" := stepsA
    exact absurd isName (by decide)
  have notB : fromB ≠ 0 := by
    rintro rfl
    obtain rfl : name = "e#b" := stepsB
    exact absurd isName (by decide)
  omega

end RangeApi

end Rangexx
