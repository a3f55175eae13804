import Rangexx.PathUnfolding

/-!
# Depth-first post-order

A depth-first search finishes a key after all its successors, unless it meets
a key on its own path.  So either every successor of a finished key was finished
before it, or there is a cycle.  A search that leaves out the successors of some
keys still sorts the whole graph when it happens to be through with them before
it meets those keys.
-/

namespace PostOrder

open Worklist PathUnfolding

variable {Key : Type} [DecidableEq Key] (next : Key → List Key)

/-- Finish the keys of a list from the last to the first; `none` when one of
them is on the path. -/
def finishAll (finish : Key → List Key → Option (List Key)) (path : List Key) :
    List Key → List Key → Option (List Key)
  | [], done => some done
  | key :: rest, done =>
      (finishAll finish path rest done).bind fun done =>
        if key ∈ path then none
        else if key ∈ done then some done
        else finish key done

/-- Finish a key below a path, after its successors. -/
def finish : Nat → List Key → Key → List Key → Option (List Key)
  | 0, _, key, done => some (done ++ [key])
  | levels + 1, path, key, done =>
      (finishAll (finish levels (key :: path)) (key :: path) (next key) done).map (· ++ [key])

/-- The keys that can be reached from some roots, in post-order. -/
def postOrder (levels : Nat) (roots : List Key) : Option (List Key) :=
  finishAll (finish next levels []) [] roots.reverse []

/-- Every successor of a finished key was finished before it. -/
structure Finished (done : List Key) : Prop where
  nodup : done.Nodup
  earlier : ∀ front key back, done = front ++ key :: back → next key ⊆ front

variable {next}

theorem finishAll_append (finish : Key → List Key → Option (List Key)) (path front back : List Key)
    (done : List Key) : finishAll finish path (front ++ back) done =
      (finishAll finish path back done).bind (finishAll finish path front) := by
  induction front with
  | nil => exact (Option.bind_fun_some _).symm
  | cons key rest ih =>
      rw [List.cons_append, finishAll, ih, Option.bind_assoc]
      rfl

/-! ## Finished lists -/

namespace Finished

variable {done : List Key} {key : Key}

omit [DecidableEq Key] in
theorem nil : Finished next [] :=
  ⟨List.nodup_nil, by simp⟩

omit [DecidableEq Key] in
theorem snoc (finished : Finished next done) (fresh : key ∉ done) (below : next key ⊆ done) :
    Finished next (done ++ [key]) := by
  refine ⟨?_, fun front other back split => ?_⟩
  · rw [List.nodup_append]
    refine ⟨finished.nodup, List.nodup_singleton key, ?_⟩
    rintro other member _ isKey rfl
    rw [List.mem_singleton] at isKey
    exact fresh (isKey ▸ member)
  · rcases List.eq_nil_or_concat back with rfl | ⟨rest, last, rfl⟩
    · obtain ⟨rfl, same⟩ := List.append_inj' split rfl
      obtain rfl : key = other := by simpa using same
      exact below
    · rw [List.concat_eq_append, ← List.cons_append, ← List.append_assoc] at split
      obtain ⟨rfl, -⟩ := List.append_inj' split rfl
      exact finished.earlier front other rest rfl

omit [DecidableEq Key] in
/-- What a finished key reaches was finished before it. -/
theorem reaches_earlier (finished : Finished next done) {front back : List Key}
    (split : done = front ++ key :: back) {other : Key}
    (steps : Relation.TransGen (fun key successor => successor ∈ next key) key other) :
    other ∈ front := by
  induction steps using Relation.TransGen.trans_induction_on generalizing front back with
  | single edge => exact finished.earlier front _ back split edge
  | trans _ _ first second =>
      have middle := first split
      obtain ⟨start, rest, isFront⟩ := List.append_of_mem middle
      rw [isFront, List.append_assoc, List.cons_append] at split
      rw [isFront]
      exact List.mem_append_left _ (second split)

omit [DecidableEq Key] in
theorem acyclic (finished : Finished next done) (member : key ∈ done) :
    ¬ Relation.TransGen (fun key successor => successor ∈ next key) key key := by
  intro cycle
  obtain ⟨front, back, split⟩ := List.append_of_mem member
  have again := finished.reaches_earlier split cycle
  have nodup := finished.nodup
  rw [split, List.nodup_append] at nodup
  exact nodup.2.2 key again key List.mem_cons_self rfl

omit [DecidableEq Key] in
theorem closed (finished : Finished next done) (member : key ∈ done) {other : Key}
    (reaches : Reaches next key other) : other ∈ done := by
  induction reaches with
  | refl => exact member
  | tail _ edge ih =>
      obtain ⟨front, back, split⟩ := List.append_of_mem ih
      rw [split]
      exact List.mem_append_left _ (finished.earlier front _ back split edge)

end Finished

/-! ## What finishing does -/

/-- A cycle is in reach of one of the roots. -/
def ReachesCycle (next : Key → List Key) (roots : List Key) : Prop :=
  ∃ root ∈ roots, ∃ key, Reaches next root key ∧
    Relation.TransGen (fun key successor => successor ∈ next key) key key

/-- The keys that are finished in addition are in reach of the roots and not on
the path, and come after the others; the roots are finished. -/
structure Extends (next : Key → List Key) (path roots done after : List Key) : Prop where
  grows : done <+: after
  rooted : roots ⊆ after
  apart : ∀ key ∈ after, key ∈ done ∨ key ∉ path
  reached : ∀ key ∈ after, key ∈ done ∨ ∃ root ∈ roots, Reaches next root key
  finished : Finished next done → Finished next after

/-- A search that ends without a result has met a cycle. -/
structure Outcome (next : Key → List Key) (path roots done : List Key)
    (result : Option (List Key)) : Prop where
  none : result = none → ReachesCycle next roots
  some : ∀ after, result = some after → Extends next path roots done after

section Outcomes

variable {path done : List Key}

omit [DecidableEq Key] in
theorem Extends.refl (path done : List Key) : Extends next path [] done done :=
  ⟨List.prefix_refl _, List.nil_subset _, fun _ member => Or.inl member,
    fun _ member => Or.inl member, id⟩

omit [DecidableEq Key] in
theorem Extends.cons {key : Key} {rest mid after : List Key}
    (first : Extends next path rest done mid) (second : Extends next path [key] mid after) :
    Extends next path (key :: rest) done after where
  grows := first.grows.trans second.grows
  rooted := List.cons_subset.mpr
    ⟨second.rooted (List.mem_singleton_self key), List.Subset.trans first.rooted second.grows.subset⟩
  apart := by
    intro other member
    rcases second.apart other member with before | isApart
    · exact first.apart other before
    · exact Or.inr isApart
  reached := by
    intro other member
    rcases second.reached other member with before | ⟨root, isKey, reaches⟩
    · rcases first.reached other before with old | ⟨root, isRoot, reaches⟩
      · exact Or.inl old
      · exact Or.inr ⟨root, List.mem_cons_of_mem key isRoot, reaches⟩
    · rw [List.mem_singleton] at isKey
      exact Or.inr ⟨root, List.mem_cons.mpr (Or.inl isKey), reaches⟩
  finished := fun finished => second.finished (first.finished finished)

theorem finishAll_outcome {visit : Key → List Key → Option (List Key)} (keys : List Key)
    (visits : ∀ key ∈ keys, key ∉ path → ∀ done, key ∉ done →
      Outcome next path [key] done (visit key done))
    (cyclic : ∀ key ∈ keys, key ∈ path →
      Relation.TransGen (fun key successor => successor ∈ next key) key key)
    (done : List Key) : Outcome next path keys done (finishAll visit path keys done) := by
  induction keys with
  | nil =>
      refine ⟨by simp [finishAll], ?_⟩
      rintro after ⟨⟩
      exact Extends.refl path done
  | cons key rest ih =>
      have later := ih (fun other member => visits other (List.mem_cons_of_mem key member))
        (fun other member => cyclic other (List.mem_cons_of_mem key member))
      have widen : ReachesCycle next rest → ReachesCycle next (key :: rest) := by
        rintro ⟨root, member, found⟩
        exact ⟨root, List.mem_cons_of_mem key member, found⟩
      rw [finishAll]
      cases isMid : finishAll visit path rest done with
      | none => exact ⟨fun _ => widen (later.none isMid), by simp⟩
      | some mid =>
          have first := later.some mid isMid
          rw [Option.bind_some]
          by_cases onPath : key ∈ path
          · rw [if_pos onPath]
            refine ⟨fun _ => ⟨key, List.mem_cons_self, key, Relation.ReflTransGen.refl,
              cyclic key List.mem_cons_self onPath⟩, by simp⟩
          · rw [if_neg onPath]
            by_cases isDone : key ∈ mid
            · rw [if_pos isDone]
              refine ⟨by simp, ?_⟩
              rintro after ⟨⟩
              refine first.cons ⟨List.prefix_refl _, ?_, fun _ member => Or.inl member,
                fun _ member => Or.inl member, id⟩
              exact List.cons_subset.mpr ⟨isDone, List.nil_subset _⟩
            · rw [if_neg isDone]
              have second := visits key List.mem_cons_self onPath mid isDone
              refine ⟨fun isNone => ?_, fun after isAfter => first.cons (second.some after isAfter)⟩
              obtain ⟨root, isKey, found⟩ := second.none isNone
              rw [List.mem_singleton] at isKey
              exact ⟨root, List.mem_cons.mpr (Or.inl isKey), found⟩

omit [DecidableEq Key] in
/-- Finishing the key itself after its successors. -/
theorem Extends.finish {key : Key} {mid : List Key} (fresh : key ∉ path) (notDone : key ∉ done)
    (below : Extends next (key :: path) (next key) done mid) :
    Extends next path [key] done (mid ++ [key]) where
  grows := below.grows.trans (List.prefix_append mid [key])
  rooted := List.subset_append_right mid [key]
  apart := by
    intro other member
    rcases List.mem_append.mp member with before | isKey
    · exact (below.apart other before).imp_right fun isApart onPath =>
        isApart (List.mem_cons_of_mem key onPath)
    · rw [List.mem_singleton] at isKey
      exact Or.inr (isKey ▸ fresh)
  reached := by
    intro other member
    rcases List.mem_append.mp member with before | isKey
    · rcases below.reached other before with old | ⟨root, edge, reaches⟩
      · exact Or.inl old
      · exact Or.inr ⟨key, List.mem_singleton_self key, Relation.ReflTransGen.head edge reaches⟩
    · rw [List.mem_singleton] at isKey
      exact Or.inr ⟨key, List.mem_singleton_self key, isKey ▸ Relation.ReflTransGen.refl⟩
  finished := by
    intro finished
    refine (below.finished finished).snoc ?_ below.rooted
    intro again
    rcases below.apart key again with old | isApart
    · exact notDone old
    · exact isApart List.mem_cons_self

omit [DecidableEq Key] in
theorem Extends.leaf {key : Key} (fresh : key ∉ path) (notDone : key ∉ done)
    (none : next key = []) : Extends next path [key] done (done ++ [key]) := by
  refine Extends.finish fresh notDone ?_
  rw [none]
  exact Extends.refl _ done

variable {nodes : List Key} (covered : ∀ key, next key ≠ [] → key ∈ nodes)

include covered

/-- The induction is on the levels: a key below the path has one level less
than the path above it leaves. -/
theorem finish_outcome {levels : Nat} {key : Key} (enough : Enough nodes levels path)
    (fresh : key ∉ path) (above : ∀ other ∈ path, Reaches next other key) (notDone : key ∉ done) :
    Outcome next path [key] done (finish next levels path key done) := by
  induction levels generalizing path key done with
  | zero =>
      refine ⟨by simp [finish], ?_⟩
      rintro after ⟨⟩
      refine Extends.leaf fresh notDone ?_
      by_contra edges
      exact enough.bottom fresh (covered key edges)
  | succ levels ih =>
      rw [finish]
      by_cases edges : next key = []
      · rw [edges]
        refine ⟨by simp [finishAll], ?_⟩
        rintro after ⟨⟩
        exact Extends.leaf fresh notDone edges
      · have onward : ∀ other ∈ key :: path, Reaches next other key := by
          intro other member
          rcases List.mem_cons.mp member with rfl | onPath
          · exact Relation.ReflTransGen.refl
          · exact above other onPath
        have all := @finishAll_outcome _ _ next (key :: path) (finish next levels (key :: path))
          (next key) (fun child edge childFresh done childNotDone => ih
            (enough.down fresh (covered key edges)) childFresh
            (fun other member => (onward other member).tail edge) childNotDone)
          (fun child edge onPath => Relation.TransGen.tail' (onward child onPath) edge) done
        refine ⟨fun isNone => ?_, fun after isAfter => ?_⟩
        · rw [Option.map_eq_none_iff] at isNone
          obtain ⟨child, edge, other, reaches, cycle⟩ := all.none isNone
          exact ⟨key, List.mem_singleton_self key, other,
            Relation.ReflTransGen.head edge reaches, cycle⟩
        · obtain ⟨mid, isMid, rfl⟩ := Option.map_eq_some_iff.mp isAfter
          exact Extends.finish fresh notDone (all.some mid isMid)

theorem postOrder_outcome {levels : Nat} (enough : nodes.length ≤ levels) (roots : List Key) :
    Outcome next [] roots.reverse [] (postOrder next levels roots) :=
  finishAll_outcome roots.reverse
    (fun _ _ _ _ notDone => finish_outcome covered (Enough.root enough) List.not_mem_nil
      (by simp) notDone)
    (by simp) []

/-- The post-order lists what the roots reach, each key after its successors. -/
theorem postOrder_eq_some {levels : Nat} (enough : nodes.length ≤ levels) {roots : List Key}
    {order : List Key} (isOrder : postOrder next levels roots = some order) :
    Finished next order ∧ ∀ key, key ∈ order ↔ ∃ root ∈ roots, Reaches next root key := by
  have outcome := (postOrder_outcome covered enough roots).some order isOrder
  have finished := outcome.finished Finished.nil
  refine ⟨finished, fun key => ⟨fun member => ?_, ?_⟩⟩
  · rcases outcome.reached key member with old | ⟨root, isRoot, reaches⟩
    · exact absurd old List.not_mem_nil
    · exact ⟨root, List.mem_reverse.mp isRoot, reaches⟩
  · rintro ⟨root, isRoot, reaches⟩
    exact finished.closed (outcome.rooted (List.mem_reverse.mpr isRoot)) reaches

/-- There is none exactly when the roots reach a cycle. -/
theorem postOrder_eq_none_iff {levels : Nat} (enough : nodes.length ≤ levels)
    (roots : List Key) : postOrder next levels roots = none ↔ ReachesCycle next roots := by
  constructor
  · intro isNone
    obtain ⟨root, isRoot, found⟩ := (postOrder_outcome covered enough roots).none isNone
    exact ⟨root, List.mem_reverse.mp isRoot, found⟩
  · rintro ⟨root, isRoot, key, reaches, cycle⟩
    rw [Option.eq_none_iff_forall_ne_some]
    intro order isOrder
    obtain ⟨finished, members⟩ := postOrder_eq_some covered enough isOrder
    exact finished.acyclic ((members key).mpr ⟨root, isRoot, reaches⟩) cycle

end Outcomes

/-! ## Which key is finished first -/

/-- A search of some keys, from the last to the first, is through with one key
before it meets another. -/
inductive Before (next : Key → List Key) (first second : Key) : List Key → Prop
  | reached {key : Key} {rest : List Key} (reaches : Reaches next key first)
      (apart : ∀ other ∈ key :: rest, ¬ Reaches next other second) : Before next first second (key :: rest)
  | inside {key : Key} {rest : List Key} (reaches : Reaches next key second) (ne : key ≠ second)
      (apart : ∀ other ∈ rest, ¬ Reaches next other second)
      (before : Before next first second (next key)) : Before next first second (key :: rest)
  | earlier {key : Key} {rest : List Key} (before : Before next first second rest) :
      Before next first second (key :: rest)

section Orders

variable {first second key : Key} {keys rest done mid after : List Key}

omit [DecidableEq Key] in
theorem before_iff_of_apart (apart : ∀ key ∈ keys, ¬ Reaches next key second) :
    Before next first second keys ↔ ∃ key ∈ keys, Reaches next key first := by
  constructor
  · intro before
    induction before with
    | @reached key rest reaches _ => exact ⟨key, List.mem_cons_self, reaches⟩
    | @inside key rest reaches _ _ _ _ => exact absurd reaches (apart key List.mem_cons_self)
    | @earlier key rest _ ih =>
        obtain ⟨other, member, reaches⟩ :=
          ih fun other member => apart other (List.mem_cons_of_mem key member)
        exact ⟨other, List.mem_cons_of_mem key member, reaches⟩
  · rintro ⟨key, member, reaches⟩
    induction keys with
    | nil => simp at member
    | cons head rest ih =>
        rcases List.mem_cons.mp member with rfl | later
        · exact Before.reached reaches apart
        · exact Before.earlier
            (ih (fun other member => apart other (List.mem_cons_of_mem head member)) later)

omit [DecidableEq Key] in
/-- Where an earlier key reaches the second one, a further key plays no role. -/
theorem before_cons_of_reached {root : Key} (member : root ∈ rest)
    (reaches : Reaches next root second) :
    Before next first second (key :: rest) ↔ Before next first second rest := by
  refine ⟨fun before => ?_, Before.earlier⟩
  cases before with
  | reached _ apart => exact absurd reaches (apart root (List.mem_cons_of_mem key member))
  | inside _ _ apart _ => exact absurd reaches (apart root member)
  | earlier before => exact before

omit [DecidableEq Key] in
theorem before_cons_self : Before next first second (second :: rest) ↔
    Before next first second rest := by
  refine ⟨fun before => ?_, Before.earlier⟩
  cases before with
  | reached _ apart => exact absurd Relation.ReflTransGen.refl (apart second List.mem_cons_self)
  | inside _ ne _ _ => exact absurd rfl ne
  | earlier before => exact before

omit [DecidableEq Key] in
theorem before_cons_of_inside (reaches : Reaches next key second) (ne : key ≠ second)
    (apart : ∀ other ∈ rest, ¬ Reaches next other second) :
    Before next first second (key :: rest) ↔
      Before next first second rest ∨ Before next first second (next key) := by
  constructor
  · intro before
    cases before with
    | reached _ apart => exact absurd reaches (apart key List.mem_cons_self)
    | inside _ _ _ before => exact Or.inr before
    | earlier before => exact Or.inl before
  · rintro (before | before)
    · exact Before.earlier before
    · exact Before.inside reaches ne apart before

theorem takeWhile_split (fresh : second ∉ keys) (rest : List Key) :
    (keys ++ second :: rest).takeWhile (· ≠ second) = keys := by
  rw [List.takeWhile_append_of_pos]
  · simp
  · intro key member
    rw [decide_eq_true_eq]
    rintro rfl
    exact fresh member

theorem takeWhile_of_grows (grows : mid <+: after) (member : second ∈ mid) :
    after.takeWhile (· ≠ second) = mid.takeWhile (· ≠ second) := by
  obtain ⟨extra, rfl⟩ := grows
  obtain ⟨front, back, rfl, fresh⟩ := List.eq_append_cons_of_mem member
  rw [takeWhile_split fresh, List.append_assoc, List.cons_append, takeWhile_split fresh]

/-- What comes before a key is what was there and what the search was through
with before it met the key. -/
def Meets (next : Key → List Key) (first second : Key) (keys done after : List Key) : Prop :=
  Finished next done → second ∉ done → second ∈ after →
    (first ∈ after.takeWhile (· ≠ second) ↔ first ∈ done ∨ Before next first second keys)

theorem finishAll_meets {visit : Key → List Key → Option (List Key)} {path : List Key}
    (visits : ∀ key ∈ keys, key ∉ path → ∀ done, key ∉ done →
      Outcome next path [key] done (visit key done))
    (cyclic : ∀ key ∈ keys, key ∈ path →
      Relation.TransGen (fun key successor => successor ∈ next key) key key)
    (leaf : ∀ done, visit second done = some (done ++ [second]))
    (inside : ∀ key ∈ keys, key ∉ path → key ≠ second → ∀ done after,
      visit key done = some after → Meets next first second (next key) done after)
    (isAfter : finishAll visit path keys done = some after) :
    Meets next first second keys done after := by
  induction keys generalizing after with
  | nil =>
      obtain rfl := Option.some.inj isAfter
      exact fun _ fresh member => absurd member fresh
  | cons key rest ih =>
      intro finished fresh member
      have visitsRest : ∀ key ∈ rest, key ∉ path → ∀ done, key ∉ done →
          Outcome next path [key] done (visit key done) :=
        fun other isRest => visits other (List.mem_cons_of_mem key isRest)
      have outcome := finishAll_outcome rest visitsRest
        (fun other isRest => cyclic other (List.mem_cons_of_mem key isRest)) done
      rw [finishAll, Option.bind_eq_some_iff] at isAfter
      obtain ⟨mid, isMid, isAfter⟩ := isAfter
      have extends' := outcome.some mid isMid
      have finishedMid := extends'.finished finished
      have meets := ih visitsRest
        (fun other isRest => cyclic other (List.mem_cons_of_mem key isRest))
        (fun other isRest => inside other (List.mem_cons_of_mem key isRest)) isMid
      by_cases onPath : key ∈ path
      · rw [if_pos onPath] at isAfter
        simp at isAfter
      rw [if_neg onPath] at isAfter
      by_cases met : second ∈ mid
      · -- the second key was met before
        have grows : mid <+: after := by
          by_cases isDone : key ∈ mid
          · rw [if_pos isDone] at isAfter
            exact Option.some.inj isAfter ▸ List.prefix_refl mid
          · rw [if_neg isDone] at isAfter
            exact ((visits key List.mem_cons_self onPath mid isDone).some after isAfter).grows
        rcases extends'.reached second met with old | ⟨root, isRoot, reaches⟩
        · exact absurd old fresh
        · rw [takeWhile_of_grows grows met, meets finished fresh met,
            before_cons_of_reached isRoot reaches]
      · have apart : ∀ other ∈ rest, ¬ Reaches next other second := fun other isRest reaches =>
          met (finishedMid.closed (extends'.rooted isRest) reaches)
        have earlier : first ∈ mid ↔ first ∈ done ∨ Before next first second rest := by
          rw [before_iff_of_apart apart]
          constructor
          · exact extends'.reached first
          · rintro (old | ⟨root, isRoot, reaches⟩)
            · exact extends'.grows.subset old
            · exact finishedMid.closed (extends'.rooted isRoot) reaches
        by_cases isDone : key ∈ mid
        · rw [if_pos isDone] at isAfter
          exact absurd (Option.some.inj isAfter ▸ member) met
        rw [if_neg isDone] at isAfter
        by_cases isSecond : key = second
        · subst isSecond
          rw [leaf] at isAfter
          obtain rfl := Option.some.inj isAfter
          rw [takeWhile_split met, earlier, before_cons_self]
        · have reaches : Reaches next key second := by
            rcases ((visits key List.mem_cons_self onPath mid isDone).some after isAfter).reached
              second member with old | ⟨root, isRoot, reaches⟩
            · exact absurd old met
            · exact List.mem_singleton.mp isRoot ▸ reaches
          have within := inside key List.mem_cons_self onPath isSecond mid after isAfter
            finishedMid met member
          rw [within, earlier, before_cons_of_inside reaches isSecond apart, or_assoc]

theorem finish_leaf (none : next second = []) (levels : Nat) (path done : List Key) :
    finish next levels path second done = some (done ++ [second]) := by
  cases levels with
  | zero => rfl
  | succ levels =>
      rw [finish, none]
      rfl

variable {nodes path : List Key} (covered : ∀ key, next key ≠ [] → key ∈ nodes)

include covered

/-- The induction is on the levels, as in `finish_outcome`. -/
theorem finish_meets (none : next second = []) {levels : Nat} (enough : Enough nodes levels path)
    (fresh : key ∉ path) (above : ∀ other ∈ path, Reaches next other key) (ne : key ≠ second)
    (isAfter : finish next levels path key done = some after) :
    Meets next first second (next key) done after := by
  induction levels generalizing path key done after with
  | zero =>
      obtain rfl := Option.some.inj isAfter
      intro _ notDone member
      rcases List.mem_append.mp member with old | isKey
      · exact absurd old notDone
      · exact absurd (List.mem_singleton.mp isKey).symm ne
  | succ levels ih =>
      rw [finish, Option.map_eq_some_iff] at isAfter
      obtain ⟨mid, isMid, rfl⟩ := isAfter
      intro finished notDone member
      have isBelow : second ∈ mid := by
        rcases List.mem_append.mp member with before | isKey
        · exact before
        · exact absurd (List.mem_singleton.mp isKey).symm ne
      have some : next key ≠ [] := by
        intro edges
        rw [edges] at isMid
        exact notDone (Option.some.inj isMid ▸ isBelow)
      have enoughBelow := enough.down fresh (covered key some)
      have onward : ∀ other ∈ key :: path, Reaches next other key := by
        intro other isAbove
        rcases List.mem_cons.mp isAbove with rfl | onPath
        · exact Relation.ReflTransGen.refl
        · exact above other onPath
      have meets := @finishAll_meets _ _ next first second (next key) done mid _ (key :: path)
        (fun child edge childFresh done childNotDone => finish_outcome covered enoughBelow
          childFresh (fun other isAbove => (onward other isAbove).tail edge) childNotDone)
        (fun child edge onPath => Relation.TransGen.tail' (onward child onPath) edge)
        (finish_leaf none levels (key :: path))
        (fun child edge childFresh childNe done after childAfter => ih enoughBelow childFresh
          (fun other isAbove => (onward other isAbove).tail edge) childNe childAfter) isMid
      rw [takeWhile_of_grows (List.prefix_append mid [key]) isBelow]
      exact meets finished notDone isBelow

/-- In the post-order a key comes before one without successors exactly when the
search is through with it before it meets the other. -/
theorem postOrder_before_iff {levels : Nat} (enough : nodes.length ≤ levels) {roots : List Key}
    {order : List Key} (isOrder : postOrder next levels roots = some order)
    (none : next second = []) (member : second ∈ order) :
    first ∈ order.takeWhile (· ≠ second) ↔ Before next first second roots.reverse := by
  have meets := @finishAll_meets _ _ next first second roots.reverse [] order _ []
    (fun _ _ _ _ notDone => finish_outcome covered (Enough.root enough) List.not_mem_nil
      (by simp) notDone) (by simp) (finish_leaf none levels [])
    (fun _ _ _ ne _ _ => finish_meets covered none (Enough.root enough) List.not_mem_nil
      (by simp) ne) isOrder
  rw [meets Finished.nil List.not_mem_nil member]
  simp

end Orders

/-! ## Sorting with some successors left out -/

/-- A list of what the roots reach, each key before its successors. -/
structure Sorts (next : Key → List Key) (isRoot : Key → Prop) (names : List Key) : Prop where
  nodup : names.Nodup
  mem : ∀ key, key ∈ names ↔ ∃ root, isRoot root ∧ Reaches next root key
  before : ∀ key ∈ names, ∀ successor ∈ next key, successor ∈ names →
    ∃ front back, names = front ++ key :: back ∧ successor ∈ back

section Partial

variable {full : Key → List Key} {roots order : List Key}

omit [DecidableEq Key] in
theorem Finished.sorts (finished : Finished full order)
    (mem : ∀ key ∈ order, ∃ root ∈ roots, Reaches full root key) (rooted : roots ⊆ order) :
    Sorts full (· ∈ roots) order.reverse where
  nodup := List.nodup_reverse.mpr finished.nodup
  mem := by
    intro key
    rw [List.mem_reverse]
    refine ⟨mem key, ?_⟩
    rintro ⟨root, isRoot, reaches⟩
    exact finished.closed (rooted isRoot) reaches
  before := by
    intro key member successor edge _
    obtain ⟨front, back, split⟩ := List.append_of_mem (List.mem_reverse.mp member)
    refine ⟨back.reverse, front.reverse, by simp [split], ?_⟩
    exact List.mem_reverse.mpr (finished.earlier front key back split edge)

theorem Sorts.mem_takeWhile {isRoot : Key → Prop} (sorts : Sorts full isRoot order.reverse)
    {key successor : Key} (member : key ∈ order) (edge : successor ∈ full key) :
    successor ∈ order.takeWhile (· ≠ key) := by
  have listed := List.mem_reverse.mpr member
  obtain ⟨root, starts, reaches⟩ := (sorts.mem key).mp listed
  obtain ⟨front, back, split, later⟩ := sorts.before key listed successor edge
    ((sorts.mem successor).mpr ⟨root, starts, reaches.tail edge⟩)
  have nodup := sorts.nodup
  rw [split, List.nodup_append, List.nodup_cons] at nodup
  have isOrder : order = back.reverse ++ key :: front.reverse := by
    rw [← List.reverse_reverse order, split]
    simp
  rw [isOrder, takeWhile_split fun again => nodup.2.1.1 (List.mem_reverse.mp again)]
  exact List.mem_reverse.mpr later

variable (isPart : ∀ key, next key = full key ∨ next key = [])

include isPart

omit [DecidableEq Key] in
theorem mem_of_isPart {key successor : Key} (edge : successor ∈ next key) :
    successor ∈ full key := by
  rcases isPart key with same | none
  · exact same ▸ edge
  · rw [none] at edge
    exact absurd edge List.not_mem_nil

omit [DecidableEq Key] in
theorem reaches_of_isPart {key other : Key} (reaches : Reaches next key other) :
    Reaches full key other :=
  Relation.ReflTransGen.mono (fun _ _ edge => mem_of_isPart isPart edge) _ _ reaches

omit [DecidableEq Key] in
theorem reachesCycle_of_isPart (cycle : ReachesCycle next roots) : ReachesCycle full roots := by
  obtain ⟨root, isRoot, key, reaches, steps⟩ := cycle
  exact ⟨root, isRoot, key, reaches_of_isPart isPart reaches,
    Relation.TransGen.mono (fun _ _ edge => mem_of_isPart isPart edge) _ _ steps⟩

variable {nodes : List Key} (covered : ∀ key, next key ≠ [] → key ∈ nodes) {levels : Nat}
  (enough : nodes.length ≤ levels)

include covered enough

theorem finished_full (isOrder : postOrder next levels roots = some order)
    (leaves : ∀ key ∈ order, next key = [] → ∀ successor ∈ full key,
      Before next successor key roots.reverse) : Finished full order := by
  obtain ⟨finished, -⟩ := postOrder_eq_some covered enough isOrder
  refine ⟨finished.nodup, fun front key back split successor edge => ?_⟩
  rcases isPart key with same | none
  · exact finished.earlier front key back split (same ▸ edge)
  · have member : key ∈ order := split ▸ List.mem_append_right front List.mem_cons_self
    have before := (postOrder_before_iff covered enough isOrder none member).mpr
      (leaves key member none successor edge)
    have nodup := finished.nodup
    rw [split, List.nodup_append] at nodup
    rw [split, takeWhile_split fun again => nodup.2.2 key again key List.mem_cons_self rfl] at before
    exact before

/-- The reversed post-order along a part of the graph sorts the whole graph, and
is missing exactly when there is a cycle in the whole graph, if and only if
there is a cycle in the part or all that follows a key without successors in the
part was searched before it. -/
theorem postOrder_sorts_iff :
    ((∀ order, postOrder next levels roots = some order →
        Sorts full (· ∈ roots) order.reverse) ∧
      (postOrder next levels roots = none ↔ ReachesCycle full roots)) ↔
    ReachesCycle next roots ∨ ∀ key, (∃ root ∈ roots, Reaches next root key) → next key = [] →
      ∀ successor ∈ full key, Before next successor key roots.reverse := by
  have isNone := postOrder_eq_none_iff covered enough roots
  constructor
  · rintro ⟨sorts, -⟩
    cases isOrder : postOrder next levels roots with
    | none => exact Or.inl (isNone.mp isOrder)
    | some order =>
        refine Or.inr fun key reached none successor edge => ?_
        have member := ((postOrder_eq_some covered enough isOrder).2 key).mpr reached
        exact (postOrder_before_iff covered enough isOrder none member).mp
          ((sorts order isOrder).mem_takeWhile member edge)
  · intro condition
    cases isOrder : postOrder next levels roots with
    | none =>
        exact ⟨by simp, fun _ => reachesCycle_of_isPart isPart (isNone.mp isOrder), fun _ => rfl⟩
    | some order =>
        have noCycle : ¬ ReachesCycle next roots := by
          rw [← isNone, isOrder]
          simp
        have leaves := condition.resolve_left noCycle
        obtain ⟨-, members⟩ := postOrder_eq_some covered enough isOrder
        have finished := finished_full isPart covered enough isOrder
          fun key member => leaves key ((members key).mp member)
        have rooted : roots ⊆ order := fun root isRoot =>
          (members root).mpr ⟨root, isRoot, Relation.ReflTransGen.refl⟩
        constructor
        · rintro _ ⟨⟩
          refine finished.sorts (fun key member => ?_) rooted
          obtain ⟨root, isRoot, reaches⟩ := (members key).mp member
          exact ⟨root, isRoot, reaches_of_isPart isPart reaches⟩
        · refine ⟨by simp, ?_⟩
          rintro ⟨root, isRoot, key, reaches, cycle⟩
          exact absurd cycle (finished.acyclic (finished.closed (rooted isRoot) reaches))

end Partial

end PostOrder
