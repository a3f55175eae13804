import Rangexx.PaxosAgreement

/-!
# The order of learned requests

A learner learns the smallest number it has complete, and does not wait for
smaller numbers it has not heard of.  It learns numbers in ascending order as
long as few LEARNs for a number reach it after it has learned that number or a
larger one: too few to complete an entry again.
-/

namespace Rangexx.Paxos

open EventRuns Proposer Learner

namespace Learner

variable {config : Config} {learner : Learner} {needed : Nat} {count : Nat → Nat}

/-- The learner has learned the number or a larger one. -/
def Overtaken (learner : Learner) (number : Nat) : Prop :=
  ∃ req ∈ learner.learned, number ≤ req.proposalNum

instance (learner : Learner) (number : Nat) : Decidable (learner.Overtaken number) :=
  inferInstanceAs (Decidable (∃ req ∈ learner.learned, number ≤ req.proposalNum))

/-- Numbers are learned in ascending order, and an entry for an overtaken number
counts no more requests than came for it since. -/
structure Ordered (needed : Nat) (count : Nat → Nat) (learner : Learner) : Prop where
  ascending : learner.learned.Pairwise fun req later => req.proposalNum < later.proposalNum
  needs : ∀ number entry, learner.pendingLearnedRequests.lookup number = some entry →
    entry.neededCount = needed
  late : ∀ number entry, learner.pendingLearnedRequests.lookup number = some entry →
    learner.Overtaken number → entry.seenCount ≤ count number

/-- Whether a request counts as late for a number. -/
def lateFor (learner : Learner) (number : Nat) (arrivals : List Arrival) : Nat :=
  if learner.Overtaken number then
    arrivals.countP fun arrival => arrival.msg.proposalNum = number
  else 0

theorem Ordered.take (ordered : Ordered (quorum config.accepters) count learner) (req : Request)
    (now : Int) :
    Ordered (quorum config.accepters)
      (fun number => count number +
        if learner.Overtaken number ∧ req.proposalNum = number then 1 else 0)
      (learner.take config req now 0) := by
  have entry : (learner.entryFor config req 0).neededCount = quorum config.accepters ∧
      (learner.Overtaken req.proposalNum →
        (learner.entryFor config req 0).seenCount ≤ count req.proposalNum) := by
    unfold entryFor
    split
    · rename_i entry found
      exact ⟨ordered.needs _ entry found, ordered.late _ entry found⟩
    · exact ⟨rfl, fun _ => Nat.zero_le _⟩
  refine ⟨ordered.ascending, ?_, ?_⟩
  · intro number pending found
    rw [lookup_take] at found
    split at found
    · obtain rfl := Option.some.inj found
      split
      · exact entry.1
      · exact entry.1
    · exact ordered.needs number pending found
  · intro number pending found overtaken
    change learner.Overtaken number at overtaken
    rw [lookup_take] at found
    split at found
    · rename_i same
      subst same
      obtain rfl := Option.some.inj found
      have counts : (if learner.Overtaken req.proposalNum ∧
          req.proposalNum = req.proposalNum then 1 else 0) = 1 := if_pos ⟨overtaken, rfl⟩
      have bound := entry.2 overtaken
      rw [counts]
      split
      · exact (Nat.mod_le _ _).trans (Nat.succ_le_succ bound)
      · exact Nat.le_succ_of_le bound
    · exact (ordered.late number pending found overtaken).trans (Nat.le_add_right _ _)

theorem Ordered.mono {more : Nat → Nat} (ordered : Ordered needed count learner)
    (le : ∀ number, count number ≤ more number) : Ordered needed more learner where
  ascending := ordered.ascending
  needs := ordered.needs
  late := fun number entry found overtaken =>
    (ordered.late number entry found overtaken).trans (le number)

theorem learned_receive (arrival : Arrival) :
    (learner.receive config arrival).learned = learner.learned := by
  unfold receive
  split
  · rfl
  · rfl

theorem Ordered.receive (ordered : Ordered (quorum config.accepters) count learner)
    {arrival : Arrival} (zero : arrival.seenCount = 0) :
    Ordered (quorum config.accepters)
      (fun number => count number + learner.lateFor number [arrival])
      (learner.receive config arrival) := by
  unfold Learner.receive
  split
  · exact ordered.mono fun _ => Nat.le_add_right _ _
  · rename_i req isSubmitted
    rw [zero]
    refine (ordered.take req arrival.now).mono fun number => Nat.add_le_add_left ?_ _
    have sameNumber : req.proposalNum = arrival.msg.proposalNum := by
      rw [submitted_eq_some isSubmitted]
    unfold lateFor
    by_cases overtaken : learner.Overtaken number
    · simp [overtaken, sameNumber, List.countP_singleton]
    · simp [overtaken]

theorem Ordered.receiveAll (ordered : Ordered (quorum config.accepters) count learner)
    {arrivals : List Arrival} (zero : ∀ arrival ∈ arrivals, arrival.seenCount = 0) :
    Ordered (quorum config.accepters)
      (fun number => count number + learner.lateFor number arrivals)
      (arrivals.foldl (Learner.receive config) learner) ∧
      (arrivals.foldl (Learner.receive config) learner).learned = learner.learned := by
  induction arrivals generalizing learner count with
  | nil => exact ⟨ordered.mono fun _ => Nat.le_add_right _ _, rfl⟩
  | cons arrival rest ih =>
      have first := ordered.receive (zero arrival List.mem_cons_self)
      obtain ⟨all, sameLearned⟩ :=
        ih first fun other member => zero other (List.mem_cons_of_mem arrival member)
      refine ⟨all.mono fun number => ?_, sameLearned.trans (learned_receive arrival)⟩
      have sameOvertaken : (learner.receive config arrival).Overtaken number ↔
          learner.Overtaken number := by
        unfold Overtaken
        rw [learned_receive]
      unfold lateFor
      by_cases overtaken : learner.Overtaken number
      · rw [if_pos overtaken, if_pos overtaken, if_pos (sameOvertaken.mpr overtaken),
          List.countP_cons, List.countP_cons, List.countP_nil]
        omega
      · rw [if_neg overtaken, if_neg overtaken, if_neg (mt sameOvertaken.mp overtaken)]

theorem Ordered.cleanup (ordered : Ordered needed count learner) (now : Int) :
    Ordered needed count (learner.cleanupDeadRequests config now) where
  ascending := ordered.ascending
  needs := fun number entry found => ordered.needs number entry (lookup_cleanup found)
  late := fun number entry found overtaken =>
    ordered.late number entry (lookup_cleanup found) overtaken

/-- While late requests are too few to complete an entry, what is learned next
has a larger number than everything learned before. -/
theorem Ordered.learnCompleted (ordered : Ordered needed count learner)
    {source : Request → Prop} (holds : From source learner)
    (few : ∀ number, count number < needed) :
    Ordered needed count learner.learnCompletedRequests := by
  rcases learner.learnCompleted_cases with same | ⟨number, entry, found, smallest, complete, learns⟩
  · rw [same]
    exact ordered
  · have isNumber := (holds.pending number entry found).1
    have ahead : ¬ learner.Overtaken number := by
      intro overtaken
      have late := ordered.late number entry found overtaken
      rw [ordered.needs number entry found] at complete
      exact absurd (Nat.lt_of_le_of_lt (complete.trans late) (few number)) (Nat.lt_irrefl _)
    have kept : ∀ other pending,
        (learner.pendingLearnedRequests.erase number).lookup other = some pending →
        other ≠ number ∧ learner.pendingLearnedRequests.lookup other = some pending := by
      intro other pending isFound
      by_cases same : other = number
      · rw [same, AList.lookup_erase] at isFound
        simp at isFound
      · rw [AList.lookup_erase_ne same] at isFound
        exact ⟨same, isFound⟩
    rw [learns]
    refine ⟨?_, ?_, ?_⟩
    · refine List.pairwise_append.mpr ⟨ordered.ascending, List.pairwise_singleton _ _, ?_⟩
      intro req member last isLast
      rw [List.mem_singleton.mp isLast, isNumber]
      exact Nat.lt_of_not_le fun le => ahead ⟨req, member, le⟩
    · intro other pending isFound
      exact ordered.needs other pending (kept other pending isFound).2
    · rintro other pending isFound ⟨req, member, le⟩
      obtain ⟨differs, isPending⟩ := kept other pending isFound
      rcases List.mem_append.mp member with old | new
      · exact ordered.late other pending isPending ⟨req, old, le⟩
      · -- The entries left have larger numbers than the one just learned.
        rw [List.mem_singleton.mp new, isNumber] at le
        have isKey : other ∈ learner.pendingLearnedRequests := by
          rw [← AList.lookup_isSome, isPending]
          rfl
        exact absurd (Nat.le_antisymm le (smallest other isKey)) differs

end Learner

namespace System

variable {config : Config} {system next : System} {event : Event}

/-- How many requests for a number a learner takes in an event, although it has
learned that number or a larger one. -/
def lateLearns (key : String × Nat) (system : System) : Event → Nat
  | .learn node arrivals _ =>
      if node = key.1 then (system.learners node).lateFor key.2 arrivals else 0
  | _ => 0

/-- The counts of new entries start at zero. -/
def CountsFromZero : Event → Prop
  | .learn _ arrivals _ => ∀ arrival ∈ arrivals, arrival.seenCount = 0
  | _ => True

instance : DecidablePred CountsFromZero
  | .learn _ arrivals _ => inferInstanceAs (Decidable (∀ arrival ∈ arrivals, _ = _))
  | .request _ _ _ => inferInstanceAs (Decidable True)
  | .prepared _ _ _ => inferInstanceAs (Decidable True)
  | .proposed _ _ => inferInstanceAs (Decidable True)
  | .deliver _ _ => inferInstanceAs (Decidable True)

/-- Everything that was proposed. -/
def proposals (system : System) : List Request :=
  system.sent.filterMap fun
    | .toAccepter _ msg => if msg.type = .propose then some msg else none
    | _ => none

/-- No request of a client is proposed under two numbers. -/
def ProposedOnce (system : System) : Prop :=
  ∀ proposal ∈ system.proposals, ∀ other ∈ system.proposals,
    proposal.identity = other.identity → proposal.proposalNum = other.proposalNum

instance (system : System) : Decidable system.ProposedOnce :=
  inferInstanceAs (Decidable (∀ proposal ∈ system.proposals, ∀ other ∈ system.proposals, _))

theorem mem_proposals {sender : Socket} {proposal : Request}
    (inFlight : .toAccepter sender proposal ∈ system.sent) (isPropose : proposal.type = .propose) :
    proposal ∈ system.proposals :=
  List.mem_filterMap.mpr ⟨_, inFlight, if_pos isPropose⟩

theorem ordered_move {count : String × Nat → Nat} (traced : Traced config system)
    (ordered : ∀ node, Ordered (quorum config.accepters) (fun number => count (node, number))
      (system.learners node)) (zero : CountsFromZero event)
    (few : ∀ key, count key + lateLearns key system event < quorum config.accepters)
    (move : Move config system event next) (node : String) :
    Ordered (quorum config.accepters)
      (fun number => count (node, number) + lateLearns (node, number) system event)
      (next.learners node) := by
  have unchanged : Ordered (quorum config.accepters)
      (fun number => count (node, number) + lateLearns (node, number) system event)
      (system.learners node) := (ordered node).mono fun _ => Nat.le_add_right _ _
  cases move with
  | idle => exact unchanged
  | prepares => exact unchanged
  | proposes => exact unchanged
  | bowsOut => exact unchanged
  | rests => exact unchanged
  | promises => exact unchanged
  | accepts => exact unchanged
  | @learns learner arrivals now inFlight =>
      dsimp only
      rw [Function.update_apply]
      split
      · rename_i same
        subst same
        have received := ((ordered node).receiveAll zero).1
        have weight : ∀ number, lateLearns (node, number) system (.learn node arrivals now) =
            (system.learners node).lateFor number arrivals := fun number => if_pos rfl
        simp only [weight]
        refine (received.cleanup now).learnCompleted
          ((traced.receiveAll node inFlight).cleanup now) fun number => ?_
        rw [← weight]
        exact few (node, number)
      · exact unchanged

/-- In every run that meets the conditions, each learner learns numbers in
ascending order. -/
theorem learned_ascending {proposalNumber acceptedProposalNum : String → Nat}
    {events : List Event} {final : System}
    (ran : run (step config) (start proposalNumber acceptedProposalNum) events = some final)
    (zero : ∀ event ∈ events, CountsFromZero event)
    (few : ∀ key, tally (step config) (lateLearns key)
      (start proposalNumber acceptedProposalNum) events < quorum config.accepters)
    (node : String) :
    (final.learners node).learned.Pairwise fun req later =>
      req.proposalNum < later.proposalNum := by
  obtain ⟨count, _, ordered⟩ := invariant_tally
    (fun system count => Traced config system ∧ ∀ node, Ordered (quorum config.accepters)
      (fun number => count (node, number)) (system.learners node))
    (fun system event next count holds zero few taken =>
      ⟨holds.1.move (step_move taken), ordered_move holds.1 holds.2 zero few (step_move taken)⟩)
    ⟨traced_start proposalNumber acceptedProposalNum, fun _ => ⟨List.Pairwise.nil,
      fun _ _ found => by simp [start] at found, fun _ _ found => by simp [start] at found⟩⟩
    (along_of_forall zero _) (fun key => by rw [Nat.zero_add]; exact few key) ran
  exact (ordered node).ascending

/-- A learner calls `learn` on a request of a client before another. -/
def LearnsBefore (learned : List Request) (first second : String × Nat) : Prop :=
  ∃ req later, [req, later].Sublist learned ∧ req.identity = first ∧ later.identity = second

theorem sublist_of_ascending {learned : List Request} {req later : Request}
    (ascending : learned.Pairwise fun req later => req.proposalNum < later.proposalNum)
    (member : req ∈ learned) (laterMember : later ∈ learned)
    (less : req.proposalNum < later.proposalNum) : [req, later].Sublist learned := by
  induction learned with
  | nil => simp at member
  | cons head rest ih =>
      obtain ⟨smallest, restAscending⟩ := List.pairwise_cons.mp ascending
      rcases List.mem_cons.mp laterMember with rfl | laterInRest
      · rcases List.mem_cons.mp member with rfl | inRest
        · exact absurd less (Nat.lt_irrefl _)
        · exact absurd (less.trans (smallest req inRest)) (Nat.lt_irrefl _)
      · rcases List.mem_cons.mp member with rfl | inRest
        · exact (List.singleton_sublist.mpr laterInRest).cons_cons req
        · exact (ih restAscending inRest laterInRest).cons head

/-- Two learners that both learn two requests learn them in the same order, in
every run in which counts start at zero, too few requests come late to complete
an entry, and no request is proposed under two numbers. -/
theorem learned_same_order (config : Config) (proposalNumber acceptedProposalNum : String → Nat)
    (events : List Event) (final : System)
    (ran : run (step config) (start proposalNumber acceptedProposalNum) events = some final)
    (zero : ∀ event ∈ events, CountsFromZero event)
    (few : config.accepters ≠ [] → ∀ key, tally (step config) (lateLearns key)
      (start proposalNumber acceptedProposalNum) events < quorum config.accepters)
    (once : final.ProposedOnce) (learner other : String) (first second : String × Nat)
    (before : LearnsBefore (final.learners learner).learned first second)
    (learnsFirst : ∃ req ∈ (final.learners other).learned, req.identity = first)
    (learnsSecond : ∃ req ∈ (final.learners other).learned, req.identity = second) :
    LearnsBefore (final.learners other).learned first second ∧
      ¬ LearnsBefore (final.learners other).learned second first := by
  have traced := traced_run ran
  have numbers : ∀ node otherNode req otherReq, req ∈ (final.learners node).learned →
      otherReq ∈ (final.learners otherNode).learned → req.identity = otherReq.identity →
      req.proposalNum = otherReq.proposalNum := by
    intro node otherNode req otherReq member otherMember sameIdentity
    obtain ⟨sender, proposal, inFlight, isPropose, number, asked⟩ :=
      (traced.learners node).learned req member
    obtain ⟨_, otherProposal, otherInFlight, otherIsPropose, otherNumber, otherAsked⟩ :=
      (traced.learners otherNode).learned otherReq otherMember
    have identity : proposal.identity = req.identity := congrArg Prod.fst asked
    have otherIdentity : otherProposal.identity = otherReq.identity := congrArg Prod.fst otherAsked
    rw [← number, ← otherNumber]
    exact once proposal (mem_proposals inFlight isPropose) otherProposal
      (mem_proposals otherInFlight otherIsPropose)
      (identity.trans (sameIdentity.trans otherIdentity.symm))
  obtain ⟨req, later, inOrder, rfl, rfl⟩ := before
  obtain ⟨otherReq, otherMember, sameFirst⟩ := learnsFirst
  obtain ⟨otherLater, otherLaterMember, sameSecond⟩ := learnsSecond
  have member : req ∈ (final.learners learner).learned := inOrder.subset (by simp)
  have laterMember : later ∈ (final.learners learner).learned := inOrder.subset (by simp)
  have someAccepter : config.accepters ≠ [] := by
    obtain ⟨sender, proposal, inFlight, _⟩ := (traced.learners learner).learned req member
    exact List.ne_nil_of_mem (traced.sockets sender proposal inFlight).2
  have ascending := learned_ascending ran zero (few someAccepter)
  have less : req.proposalNum < later.proposalNum :=
    List.pairwise_iff_forall_sublist.mp (ascending learner) inOrder
  have firstNumber := numbers _ _ _ _ otherMember member sameFirst
  have secondNumber := numbers _ _ _ _ otherLaterMember laterMember sameSecond
  constructor
  · refine ⟨otherReq, otherLater, ?_, sameFirst, sameSecond⟩
    exact sublist_of_ascending (ascending other) otherMember otherLaterMember (by omega)
  · rintro ⟨reqLater, reqFirst, reversed, isSecond, isFirst⟩
    have lessReversed : reqLater.proposalNum < reqFirst.proposalNum :=
      List.pairwise_iff_forall_sublist.mp (ascending other) reversed
    have := numbers _ _ _ _ (reversed.subset (by simp)) laterMember isSecond
    have := numbers _ _ _ _ (reversed.subset (by simp)) member isFirst
    omega

/-! ## Two runs -/

/-- The requests of any number that come late in an event. -/
def lateArrivals (system : System) : Event → Nat
  | .learn node arrivals _ =>
      arrivals.countP fun arrival => (system.learners node).Overtaken arrival.msg.proposalNum
  | _ => 0

theorem lateLearns_le (key : String × Nat) (system : System) (event : Event) :
    lateLearns key system event ≤ lateArrivals system event := by
  cases event with
  | learn node arrivals now =>
      change (if node = key.1 then if (system.learners node).Overtaken key.2 then _ else 0
        else 0) ≤ arrivals.countP _
      by_cases overtaken : node = key.1 ∧ (system.learners node).Overtaken key.2
      · rw [if_pos overtaken.1, if_pos overtaken.2]
        apply List.countP_mono_left
        intro arrival _ isNumber
        rw [decide_eq_true_eq] at isNumber ⊢
        rw [isNumber]
        exact overtaken.2
      · rw [← ite_and, if_neg overtaken]
        exact Nat.zero_le _
  | _ => exact Nat.zero_le _

theorem learnsBefore_of_map {learned : List Request} {first second : String × Nat}
    (identities : learned.map Request.identity = [first, second]) :
    LearnsBefore learned first second := by
  obtain ⟨req, rest, rfl, isFirst, restIdentities⟩ := List.map_eq_cons_iff.mp identities
  obtain ⟨later, _, rfl, isSecond, nothing⟩ := List.map_eq_cons_iff.mp restIdentities
  rw [List.map_eq_nil_iff.mp nothing]
  exact ⟨req, later, List.Sublist.refl _, isFirst, isSecond⟩

/-- Two rounds. -/
def twoRounds (accepters : List String) : List Event :=
  round accepters 0 1 (createEnv "x" "e" .request) ++
    round accepters 2 2 (createEnv "y" "f" .request)

def firstArrival (accepters : List String) (host : String) : Arrival :=
  roundArrival accepters 0 1 (createEnv "x" "e" .request) host

def secondArrival (accepters : List String) (host : String) : Arrival :=
  roundArrival accepters 2 2 (createEnv "y" "f" .request) host

/-- Both learners learn both rounds, each number from two of three accepters.
One LEARN of the first round comes late. -/
def bothLearned : List Event :=
  let first := firstArrival threeAccepters
  let second := secondArrival threeAccepters
  twoRounds threeAccepters ++
    [.learn "L" [first "a", first "b"] 0, .learn "M" [first "c"] 0, .learn "M" [first "a"] 0,
      .learn "L" [second "a"] 0, .learn "L" [second "b"] 0,
      .learn "M" [second "c", second "b"] 0, .learn "L" [first "c"] 0]

theorem learned_same_order_twoRounds :
    ∃ final, run (step (withAccepters threeAccepters)) (start (fun _ => 1) fun _ => 0)
        bothLearned = some final ∧
      LearnsBefore (final.learners "L").learned ("x", 1) ("y", 1) ∧
      LearnsBefore (final.learners "M").learned ("x", 1) ("y", 1) ∧
      ¬ LearnsBefore (final.learners "M").learned ("y", 1) ("x", 1) := by
  have outcome : (run (step (withAccepters threeAccepters)) (start (fun _ => 1) fun _ => 0)
      bothLearned).map (fun final => ((final.learners "L").learned.map Request.identity,
        decide (final.ProposedOnce ∧ ∀ identity ∈ ([("x", 1), ("y", 1)] : List (String × Nat)),
          ∃ req ∈ (final.learners "M").learned, req.identity = identity))) =
        some ([("x", 1), ("y", 1)], true) := by
    decide +kernel
  have fewLate : tally (step (withAccepters threeAccepters)) lateArrivals
      (start (fun _ => 1) fun _ => 0) bothLearned = 1 := by
    decide +kernel
  obtain ⟨final, ran, seen⟩ := Option.map_eq_some_iff.mp outcome
  obtain ⟨identities, known⟩ := Prod.mk.inj seen
  obtain ⟨once, learns⟩ := of_decide_eq_true known
  have before := learnsBefore_of_map identities
  refine ⟨final, ran, before, learned_same_order (withAccepters threeAccepters) _ _ _ final ran ?_
    (fun _ key => ?_) once "L" "M" _ _ before (learns _ (by simp)) (learns _ (by simp))⟩
  · decide +kernel
  · apply Nat.lt_of_le_of_lt (tally_mono (lateLearns_le key) _ _)
    rw [fewLate]
    decide

/-- The second learner hears of the second round first. -/
def differentOrders : List Event :=
  let first := firstArrival ["a"] "a"
  let second := secondArrival ["a"] "a"
  twoRounds ["a"] ++ [.learn "L" [first] 0, .learn "L" [second] 0, .learn "M" [second] 0,
    .learn "M" [first] 0]

theorem learned_order_differs :
    ∃ final, run (step (withAccepters ["a"])) (start (fun _ => 1) fun _ => 0)
        differentOrders = some final ∧
      LearnsBefore (final.learners "L").learned ("x", 1) ("y", 1) ∧
      LearnsBefore (final.learners "M").learned ("y", 1) ("x", 1) := by
  have outcome : (run (step (withAccepters ["a"])) (start (fun _ => 1) fun _ => 0)
      differentOrders).map (fun final => ((final.learners "L").learned.map Request.identity,
        (final.learners "M").learned.map Request.identity)) =
        some ([("x", 1), ("y", 1)], [("y", 1), ("x", 1)]) := by
    decide +kernel
  obtain ⟨final, ran, seen⟩ := Option.map_eq_some_iff.mp outcome
  obtain ⟨identities, otherIdentities⟩ := Prod.mk.inj seen
  exact ⟨final, ran, learnsBefore_of_map identities, learnsBefore_of_map otherIdentities⟩

end System

end Rangexx.Paxos
