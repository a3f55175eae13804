import Rangexx.LearnOrder

/-!
# What a learner counts

A learner counts the LEARNs it takes for a number and learns the request when
they reach the quorum.  It then forgets the number, so every further quorum of
LEARNs makes it learn the number again.  Over a whole run, the quorums it has
used and what its entry counts now never exceed the LEARNs it took.
-/

namespace Rangexx.Paxos

open EventRuns Proposer Learner

namespace Learner

variable {config : Config} {learner : Learner} {needed : Nat} {count : Nat → Nat}

/-- What the entry of a number counts. -/
def counted (learner : Learner) (number : Nat) : Nat :=
  (learner.pendingLearnedRequests.lookup number).elim 0 PendingLearnedRequest.seenCount

/-- How often a number was learned. -/
def timesLearned (learner : Learner) (number : Nat) : Nat :=
  learner.learned.countP fun req => req.proposalNum = number

/-- The learner has not used more LEARNs than there were. -/
structure Covered (needed : Nat) (count : Nat → Nat) (learner : Learner) : Prop where
  needs : ∀ number entry, learner.pendingLearnedRequests.lookup number = some entry →
    entry.neededCount = needed
  used : ∀ number, needed * learner.timesLearned number + learner.counted number ≤ count number

theorem Covered.mono {more : Nat → Nat} (covered : Covered needed count learner)
    (le : ∀ number, count number ≤ more number) : Covered needed more learner where
  needs := covered.needs
  used := fun number => (covered.used number).trans (le number)

theorem needs_take (needs : ∀ number entry,
      learner.pendingLearnedRequests.lookup number = some entry →
        entry.neededCount = quorum config.accepters)
    (req : Request) (now : Int) (seenCount : Nat) :
    ∀ number entry, (learner.take config req now seenCount).pendingLearnedRequests.lookup number =
      some entry → entry.neededCount = quorum config.accepters := by
  have entryNeeds : (learner.entryFor config req seenCount).neededCount =
      quorum config.accepters := by
    unfold entryFor
    split
    · exact needs _ _ ‹_›
    · rfl
  intro number entry found
  rw [lookup_take] at found
  split at found
  · obtain rfl := Option.some.inj found
    split
    · exact entryNeeds
    · exact entryNeeds
  · exact needs number entry found

/-- Taking a LEARN counts at most one more. -/
theorem counted_take (req : Request) (now : Int) (number : Nat) :
    (learner.take config req now 0).counted number ≤
      learner.counted number + if req.proposalNum = number then 1 else 0 := by
  have entryCount : (learner.entryFor config req 0).seenCount ≤
      learner.counted req.proposalNum := by
    unfold entryFor counted
    split
    · rename_i entry found
      rw [found]
      exact Nat.le_refl _
    · exact Nat.zero_le _
  unfold counted
  rw [lookup_take]
  by_cases same : number = req.proposalNum
  · subst same
    rw [if_pos rfl, if_pos rfl, Option.elim_some]
    split
    · exact (Nat.mod_le _ _).trans (Nat.succ_le_succ entryCount)
    · exact Nat.le_succ_of_le entryCount
  · rw [if_neg same, if_neg (Ne.symm same)]
    exact Nat.le_refl _

theorem Covered.receive (covered : Covered (quorum config.accepters) count learner)
    {arrival : Arrival} (zero : arrival.seenCount = 0) :
    Covered (quorum config.accepters)
      (fun number => count number + if arrival.msg.proposalNum = number then 1 else 0)
      (learner.receive config arrival) := by
  unfold Learner.receive
  split
  · exact covered.mono fun _ => Nat.le_add_right _ _
  · rename_i req isSubmitted
    have sameNumber : req.proposalNum = arrival.msg.proposalNum := by
      rw [submitted_eq_some isSubmitted]
    refine ⟨needs_take covered.needs req _ _, fun number => ?_⟩
    have counts : (learner.take config req arrival.now 0).counted number ≤
        learner.counted number + if req.proposalNum = number then 1 else 0 :=
      counted_take req arrival.now number
    have used := covered.used number
    have sameTimes : (learner.take config req arrival.now 0).timesLearned number =
        learner.timesLearned number := rfl
    rw [zero, sameTimes, ← sameNumber]
    omega

theorem Covered.receiveAll (covered : Covered (quorum config.accepters) count learner)
    {arrivals : List Arrival} (zero : ∀ arrival ∈ arrivals, arrival.seenCount = 0) :
    Covered (quorum config.accepters)
      (fun number => count number +
        (arrivals.map Arrival.msg).countP fun msg => msg.proposalNum = number)
      (arrivals.foldl (Learner.receive config) learner) := by
  induction arrivals generalizing learner count with
  | nil => exact covered
  | cons arrival rest ih =>
      have all := ih (covered.receive (zero arrival List.mem_cons_self))
        fun other member => zero other (List.mem_cons_of_mem arrival member)
      apply all.mono
      intro number
      rw [List.map_cons, List.countP_cons]
      simp only [decide_eq_true_eq]
      omega

theorem Covered.cleanup (covered : Covered needed count learner) (now : Int) :
    Covered needed count (learner.cleanupDeadRequests config now) := by
  refine ⟨fun number entry found => covered.needs number entry (lookup_cleanup found), ?_⟩
  intro number
  have fewer : (learner.cleanupDeadRequests config now).counted number ≤
      learner.counted number := by
    unfold counted
    cases found : (learner.cleanupDeadRequests config now).pendingLearnedRequests.lookup number with
    | none => exact Nat.zero_le _
    | some entry => rw [lookup_cleanup found]
  have sameTimes : (learner.cleanupDeadRequests config now).timesLearned number =
      learner.timesLearned number := rfl
  rw [sameTimes]
  exact (Nat.add_le_add_left fewer _).trans (covered.used number)

/-- What is learned uses up what its entry counted. -/
theorem Covered.learnCompleted (covered : Covered needed count learner)
    {source : Request → Prop} (holds : From source learner) :
    Covered needed count learner.learnCompletedRequests := by
  rcases learner.learnCompleted_cases with same | ⟨number, entry, found, _, complete, learns⟩
  · rw [same]
    exact covered
  · rw [learns]
    have isNumber := (holds.pending number entry found).1
    have entryNeeds := covered.needs number entry found
    have entryCounted : learner.counted number = entry.seenCount := by
      unfold counted
      rw [found]
      rfl
    refine ⟨fun other pending isFound => ?_, fun other => ?_⟩
    · by_cases same : other = number
      · rw [same, AList.lookup_erase] at isFound
        simp at isFound
      · rw [AList.lookup_erase_ne same] at isFound
        exact covered.needs other pending isFound
    · have used := covered.used other
      unfold timesLearned counted
      rw [List.countP_append, List.countP_singleton, isNumber]
      by_cases same : other = number
      · subst same
        rw [AList.lookup_erase, Option.elim_none, if_pos (by simp), Nat.mul_add, Nat.mul_one]
        unfold timesLearned at used
        omega
      · rw [AList.lookup_erase_ne same, if_neg (by simpa using Ne.symm same), Nat.add_zero]
        exact used

end Learner

/-! ## Over a run -/

namespace System

variable {config : Config} {system next : System} {event : Event} {node : String}
  {past : List Event}

/-- The requests that reach a learner in an event. -/
def arrivalsAt (node : String) : Event → List Request
  | .learn learner arrivals _ => if learner = node then arrivals.map Arrival.msg else []
  | _ => []

/-- The requests that reached a learner in a run. -/
def taken (node : String) (events : List Event) : List Request :=
  events.flatMap (arrivalsAt node)

/-- How many of them came under a number. -/
def takenUnder (node : String) (events : List Event) (number : Nat) : Nat :=
  (taken node events).countP fun msg => msg.proposalNum = number

/-- The counts of new entries of a learner start at zero. -/
def CountsFromZeroAt (node : String) : Event → Prop
  | .learn learner arrivals _ => learner = node → ∀ arrival ∈ arrivals, arrival.seenCount = 0
  | _ => True

theorem CountsFromZero.at (zero : CountsFromZero event) (node : String) :
    CountsFromZeroAt node event := by
  cases event with
  | learn learner arrivals now => exact fun _ => zero
  | _ => trivial

theorem taken_concat (node : String) (past : List Event) (event : Event) :
    taken node (past ++ [event]) = taken node past ++ arrivalsAt node event := by
  simp [taken]

theorem takenUnder_concat (node : String) (past : List Event) (event : Event) (number : Nat) :
    takenUnder node (past ++ [event]) number = takenUnder node past number +
      (arrivalsAt node event).countP fun msg => msg.proposalNum = number := by
  unfold takenUnder
  rw [taken_concat, List.countP_append]

/-- A request that reached the learner under the same number asks for the
same. -/
def Heard (node : String) (past : List Event) (req : Request) : Prop :=
  ∃ msg ∈ taken node past, msg.proposalNum = req.proposalNum ∧ msg.asked = req.asked

theorem Heard.concat {req : Request} (heard : Heard node past req) (event : Event) :
    Heard node (past ++ [event]) req := by
  obtain ⟨msg, member, rest⟩ := heard
  refine ⟨msg, ?_, rest⟩
  rw [taken_concat]
  exact List.mem_append_left _ member

/-- A learner has used only what reached it. -/
structure Tallied (config : Config) (node : String) (past : List Event) (system : System) :
    Prop where
  traced : Traced config system
  covered : Covered (quorum config.accepters) (takenUnder node past) (system.learners node)
  heard : From (Heard node past) (system.learners node)

theorem tallied_start (proposalNumber acceptedProposalNum : String → Nat) :
    Tallied config node [] (start proposalNumber acceptedProposalNum) where
  traced := traced_start proposalNumber acceptedProposalNum
  covered := ⟨fun _ _ found => by simp [start] at found, fun _ => Nat.le_refl 0⟩
  heard := ⟨fun _ member => absurd member List.not_mem_nil,
    fun _ _ found => by simp [start] at found⟩

theorem Tallied.unmoved (tallied : Tallied config node past system) (event : Event)
    (traced : Traced config next) (same : next.learners node = system.learners node) :
    Tallied config node (past ++ [event]) next := by
  refine ⟨traced, ?_, ?_⟩
  · rw [same]
    apply tallied.covered.mono
    intro number
    rw [takenUnder_concat]
    exact Nat.le_add_right _ _
  · rw [same]
    exact tallied.heard.mono fun _ heard => heard.concat event

theorem Tallied.move (tallied : Tallied config node past system)
    (zero : CountsFromZeroAt node event) (move : Move config system event next) :
    Tallied config node (past ++ [event]) next := by
  have traced := tallied.traced.move move
  cases move with
  | idle => exact tallied.unmoved _ traced rfl
  | prepares => exact tallied.unmoved _ traced rfl
  | proposes => exact tallied.unmoved _ traced rfl
  | bowsOut => exact tallied.unmoved _ traced rfl
  | rests => exact tallied.unmoved _ traced rfl
  | promises => exact tallied.unmoved _ traced rfl
  | accepts => exact tallied.unmoved _ traced rfl
  | @learns learner arrivals now inFlight =>
      by_cases same : learner = node
      · subst same
        have arrived : arrivalsAt learner (.learn learner arrivals now) =
            arrivals.map Arrival.msg := if_pos rfl
        have heard : From (Heard learner (past ++ [.learn learner arrivals now]))
            (arrivals.foldl (receive config) (system.learners learner)) := by
          refine (tallied.heard.mono fun _ heard => heard.concat _).receiveAll ?_
          intro arrival member req isSubmitted
          refine ⟨arrival.msg, ?_, ?_⟩
          · rw [taken_concat, arrived]
            exact List.mem_append_right _ (List.mem_map_of_mem member)
          · rw [submitted_eq_some isSubmitted]
            exact ⟨rfl, rfl⟩
        refine ⟨traced, ?_, ?_⟩
        · dsimp only
          rw [Function.update_self]
          refine (((tallied.covered.receiveAll (zero rfl)).cleanup now).learnCompleted
            (heard.cleanup now)).mono fun number => ?_
          rw [takenUnder_concat, arrived]
        · dsimp only
          rw [Function.update_self]
          exact (heard.cleanup now).learnCompleted
      · exact tallied.unmoved _ traced (Function.update_of_ne (Ne.symm same) _ _)

theorem tallied_run {proposalNumber acceptedProposalNum : String → Nat} {events : List Event}
    {final : System}
    (ran : run (step config) (start proposalNumber acceptedProposalNum) events = some final)
    (zero : ∀ event ∈ events, CountsFromZeroAt node event) :
    Tallied config node events final :=
  invariant_history (Tallied config node)
    (fun _ _ _ _ tallied zero taken => tallied.move zero (step_move taken))
    (tallied_start proposalNumber acceptedProposalNum) (along_of_forall zero _) ran

/-- Learning a number several times takes as many quorums of LEARNs. -/
theorem Tallied.quorums_le (tallied : Tallied config node past system) {number times : Nat}
    (learned : times ≤ (system.learners node).timesLearned number) :
    times * quorum config.accepters ≤ takenUnder node past number :=
  calc times * quorum config.accepters
      ≤ (system.learners node).timesLearned number * quorum config.accepters :=
        Nat.mul_le_mul_right _ learned
    _ = quorum config.accepters * (system.learners node).timesLearned number := Nat.mul_comm _ _
    _ ≤ takenUnder node past number :=
        (Nat.le_add_right _ _).trans (tallied.covered.used number)

theorem Tallied.quorum_le (tallied : Tallied config node past system) {req : Request}
    (learned : req ∈ (system.learners node).learned) :
    quorum config.accepters ≤ takenUnder node past req.proposalNum := by
  have once : 1 ≤ (system.learners node).timesLearned req.proposalNum :=
    List.countP_pos_iff.mpr ⟨req, learned, by simp⟩
  have enough := tallied.quorums_le once
  rwa [Nat.one_mul] at enough

theorem Tallied.two_quorums_le (tallied : Tallied config node past system)
    {req later : Request} (learned : [req, later].Sublist (system.learners node).learned)
    (same : later.proposalNum = req.proposalNum) :
    2 * quorum config.accepters ≤ takenUnder node past req.proposalNum := by
  apply tallied.quorums_le
  have both : [req, later].countP (fun other => other.proposalNum = req.proposalNum) ≤
      (system.learners node).timesLearned req.proposalNum := learned.countP_le
  simpa [same] using both

/-- A learner learns a request of a client at most once, in every run in which
its counts start at zero, no number brings it two quorums of LEARNs, and no two
numbers under which it takes the request each bring it a quorum. -/
theorem learned_at_most_once (config : Config)
    (proposalNumber acceptedProposalNum : String → Nat) (events : List Event) (final : System)
    (ran : run (step config) (start proposalNumber acceptedProposalNum) events = some final)
    (node : String) (zero : ∀ event ∈ events, CountsFromZeroAt node event)
    (few : ∀ msg ∈ taken node events,
      takenUnder node events msg.proposalNum < 2 * quorum config.accepters)
    (one : ∀ msg ∈ taken node events, ∀ other ∈ taken node events,
      msg.identity = other.identity → msg.proposalNum ≠ other.proposalNum →
      takenUnder node events msg.proposalNum < quorum config.accepters ∨
        takenUnder node events other.proposalNum < quorum config.accepters) :
    ((final.learners node).learned.map Request.identity).Nodup := by
  have tallied := tallied_run ran zero
  refine List.pairwise_map.mpr (List.pairwise_iff_forall_sublist.mpr ?_)
  intro req later inOrder sameIdentity
  have learned : req ∈ (final.learners node).learned := inOrder.subset (by simp)
  have laterLearned : later ∈ (final.learners node).learned := inOrder.subset (by simp)
  obtain ⟨msg, member, number, asked⟩ := tallied.heard.learned req learned
  obtain ⟨other, otherMember, otherNumber, otherAsked⟩ :=
    tallied.heard.learned later laterLearned
  by_cases same : later.proposalNum = req.proposalNum
  · have enough := tallied.two_quorums_le inOrder same
    have bound := few msg member
    rw [number] at bound
    omega
  · have identity : msg.identity = other.identity := by
      have first : msg.identity = req.identity := congrArg Prod.fst asked
      have second : other.identity = later.identity := congrArg Prod.fst otherAsked
      rw [first, second, sameIdentity]
    have enough := tallied.quorum_le learned
    have laterEnough := tallied.quorum_le laterLearned
    rw [← number] at enough same
    rw [← otherNumber] at laterEnough same
    rcases one msg member other otherMember identity (Ne.symm same) with few | few
    · omega
    · omega

theorem learned_at_most_once_twoRounds :
    ∃ final, run (step (withAccepters threeAccepters)) (start (fun _ => 1) fun _ => 0)
        bothLearned = some final ∧
      ((final.learners "L").learned.map Request.identity).Nodup ∧
      (final.learners "L").learned.length = 2 := by
  have outcome : (run (step (withAccepters threeAccepters)) (start (fun _ => 1) fun _ => 0)
      bothLearned).map (fun final => (final.learners "L").learned.length) = some 2 := by
    decide +kernel
  obtain ⟨final, ran, learns⟩ := Option.map_eq_some_iff.mp outcome
  have zero : ∀ event ∈ bothLearned, CountsFromZero event := by decide +kernel
  refine ⟨final, ran, ?_, learns⟩
  refine learned_at_most_once (withAccepters threeAccepters) _ _ bothLearned final ran "L"
    (fun event member => (zero event member).at "L") ?_ ?_
  · decide +kernel
  · decide +kernel

/-- The replies to the first PROPOSE are lost, so the request is proposed again
under the next number. -/
def proposedAgain : List Event :=
  let config := withAccepters ["a"]
  let req := createEnv "x" "e" .request
  let prepare := prepareRequest config "A" 2 req
  (round ["a"] 0 1 req).dropLast ++
    [.proposed "A" [], .deliver ⟨2, "a"⟩ prepare,
      .prepared "A" (replies ["a"] (Accepter.ackFor .promise true 2 prepare)) 0,
      .deliver ⟨3, "a"⟩ (proposeRequest config "A" 2 0 req),
      .learn "L" [roundArrival ["a"] 0 1 req "a"] 0,
      .learn "L" [roundArrival ["a"] 2 2 req "a"] 0]

/-- The learner learns it under both numbers. -/
theorem learned_twice_proposedAgain :
    ∃ final, run (step (withAccepters ["a"])) (start (fun _ => 1) fun _ => 0) proposedAgain =
        some final ∧
      (final.learners "L").learned.map Request.identity = [("x", 1), ("x", 1)] := by
  have outcome : (run (step (withAccepters ["a"])) (start (fun _ => 1) fun _ => 0)
      proposedAgain).map (fun final => (final.learners "L").learned.map Request.identity) =
        some [("x", 1), ("x", 1)] := by
    decide +kernel
  obtain ⟨final, ran, identities⟩ := Option.map_eq_some_iff.mp outcome
  exact ⟨final, ran, identities⟩

end System

end Rangexx.Paxos
