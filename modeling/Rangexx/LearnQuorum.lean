import Rangexx.LearnCounts

/-!
# Learning by a quorum

An accepter accepts a number at most once, so the LEARNs for a number come from
different accepters.  A learner that takes no LEARN twice, and takes LEARNs of
one request only under a number, therefore learns a request only after a quorum
of accepters has accepted it.
-/

namespace Rangexx.Paxos

open EventRuns Proposer Learner

/-- The accepting branch of `accept` is taken. -/
def Accepter.Accepting (accepter : Accepter) (req : Request) : Prop :=
  ¬ (req.proposalNum ≠ accepter.promisedProposalNum ∨
    req.proposalNum ≤ accepter.acceptedProposalNum)

theorem Accepter.accept_of_accepting {accepter : Accepter} {req : Request} (config : Config)
    (accepting : accepter.Accepting req) :
    (accepter.accept config req).2 =
      (some (Request.sealed config.serializeAsString { req with type := .learn }),
        { accepter with acceptedProposalNum := req.proposalNum }) := by
  unfold Accepter.accept
  rw [if_neg accepting, (not_not.mp (not_or.mp accepting).1)]

theorem Accepter.accept_of_not_accepting {accepter : Accepter} {req : Request} (config : Config)
    (refuses : ¬ accepter.Accepting req) : (accepter.accept config req).2 = (none, accepter) := by
  unfold Accepter.accept
  rw [if_pos (not_not.mp refuses)]

namespace System

variable {config : Config} {system next : System} {event : Event}

/-- The accepter at a host executes the accepting branch of `accept` for what a
request asks, under its number. -/
def AcceptsAt (config : Config) (host : String) (req : Request) (system : System) : Event → Prop
  | .deliver sender msg => sender.host = host ∧ .toAccepter sender msg ∈ system.sent ∧
      ∃ submitted, receiveHandler config.serializeAsString sender (.parsed msg) =
          .submit submitted ∧
        submitted.type = .propose ∧ (system.accepters host).Accepting submitted ∧
        submitted.proposalNum = req.proposalNum ∧ submitted.asked = req.asked
  | _ => False

theorem AcceptsAt.congr {host : String} {req other : Request}
    (accepts : AcceptsAt config host req system event)
    (number : req.proposalNum = other.proposalNum) (asked : req.asked = other.asked) :
    AcceptsAt config host other system event := by
  cases event with
  | deliver sender msg =>
      obtain ⟨isHost, inFlight, submitted, isSubmitted, isPropose, accepting, sameNumber,
        sameAsked⟩ := accepts
      exact ⟨isHost, inFlight, submitted, isSubmitted, isPropose, accepting,
        sameNumber.trans number, sameAsked.trans asked⟩
  | _ => exact accepts

/-! ## What an accepter sends to the learners -/

/-- The LEARN that an accepter sends when it takes a PROPOSE. -/
def learnFor (config : Config) (sender : Socket) (msg : Request) : Request :=
  Request.sealed config.serializeAsString
    { msg with crc := 0, sender := some sender, type := .learn }

theorem toLearners_sendToAccepters {msg learn : Request} :
    .toLearners learn ∈ (system.sendToAccepters config msg).sent ↔
      .toLearners learn ∈ system.sent := by
  simp [mem_sendToAccepters]

/-- Only a step in which an accepter takes a datagram sends LEARNs. -/
theorem Move.toLearners (move : Move config system event next) {learn : Request}
    (isSent : .toLearners learn ∈ next.sent) :
    .toLearners learn ∈ system.sent ∨ ∃ sender msg, event = .deliver sender msg := by
  cases move with
  | idle => exact Or.inl isSent
  | prepares => exact Or.inl (toLearners_sendToAccepters.mp isSent)
  | proposes => exact Or.inl (toLearners_sendToAccepters.mp isSent)
  | bowsOut => exact Or.inl (toLearners_sendToAccepters.mp isSent)
  | rests => exact Or.inl isSent
  | promises => exact Or.inr ⟨_, _, rfl⟩
  | accepts => exact Or.inr ⟨_, _, rfl⟩
  | learns => exact Or.inl isSent

/-- An accepter sends a LEARN only where it accepts. -/
theorem toLearners_acceptTask {sender : Socket} {req learn : Request}
    (isSent : .toLearners learn ∈ (system.acceptTask config sender req).sent) :
    .toLearners learn ∈ system.sent ∨
      req.type = .propose ∧ (system.accepters sender.host).Accepting req ∧
        learn = Request.sealed config.serializeAsString { req with type := .learn } ∧
        ((system.acceptTask config sender req).accepters
          sender.host).acceptedProposalNum = req.proposalNum := by
  unfold acceptTask at isSent ⊢
  dsimp only at isSent ⊢
  split at isSent
  · left
    simpa using isSent
  · rename_i isPropose
    by_cases accepting : (system.accepters sender.host).Accepting req
    · simp only [Accepter.accept_of_accepting config accepting, Option.map_some,
        Option.toList_some, List.mem_append, List.mem_cons, reduceCtorEq,
        Datagram.toLearners.injEq, List.not_mem_nil, or_false, false_or] at isSent
      refine isSent.imp_right fun isLearn => ⟨isPropose, accepting, isLearn, ?_⟩
      simp only [Function.update_self, Accepter.accept_of_accepting config accepting]
    · left
      simpa [Accepter.accept_of_not_accepting config accepting] using isSent
  · exact Or.inl isSent

/-- A step sends a LEARN only where an accepter accepts. -/
theorem toLearners_step (taken : system.step config event = some next) {learn : Request}
    (isSent : .toLearners learn ∈ next.sent) :
    .toLearners learn ∈ system.sent ∨
      ∃ sender msg, event = .deliver sender msg ∧ learn = learnFor config sender msg ∧
        AcceptsAt config sender.host learn system event ∧
        (next.accepters sender.host).acceptedProposalNum = learn.proposalNum := by
  rcases (step_move taken).toLearners isSent with old | ⟨sender, msg, rfl⟩
  · exact Or.inl old
  · change system.deliver config sender msg = some next at taken
    unfold deliver at taken
    split at taken
    · rename_i inFlight
      split at taken
      · rename_i req submitted
        obtain rfl := Option.some.inj taken
        apply (toLearners_acceptTask isSent).imp_right
        rintro ⟨isPropose, accepting, rfl, accepted⟩
        refine ⟨sender, msg, rfl, ?_, ?_, accepted⟩
        · rw [receiveHandler_submit config.serializeAsString submitted]
          rfl
        · exact ⟨rfl, inFlight, req, submitted, isPropose, accepting, rfl, rfl⟩
      · obtain rfl := Option.some.inj taken
        exact Or.inl isSent
    · simp at taken

theorem Move.sent (move : Move config system event next) {datagram : Datagram}
    (isSent : datagram ∈ system.sent) : datagram ∈ next.sent := by
  cases move with
  | idle => exact isSent
  | prepares => exact mem_sendToAccepters.mpr (Or.inl isSent)
  | proposes => exact mem_sendToAccepters.mpr (Or.inl isSent)
  | bowsOut => exact mem_sendToAccepters.mpr (Or.inl isSent)
  | rests => exact isSent
  | promises => exact List.mem_append_left _ isSent
  | accepts => exact List.mem_append_left _ isSent
  | learns => exact isSent

/-- The number an accepter has accepted never falls. -/
theorem Move.acceptedProposalNum (move : Move config system event next) (host : String) :
    (system.accepters host).acceptedProposalNum ≤ (next.accepters host).acceptedProposalNum := by
  cases move with
  | idle => exact Nat.le_refl _
  | prepares => exact Nat.le_refl _
  | proposes => exact Nat.le_refl _
  | bowsOut => exact Nat.le_refl _
  | rests => exact Nat.le_refl _
  | @promises sender msg inFlight isPrepare =>
      unfold promised
      dsimp only
      rw [Function.update_apply]
      split
      · rename_i same
        rw [same]
        unfold Accepter.promise
        split
        · exact Nat.le_refl _
        · exact Nat.le_refl _
      · exact Nat.le_refl _
  | @accepts sender msg inFlight isPropose =>
      unfold accepted
      dsimp only
      rw [Function.update_apply]
      split
      · rename_i same
        rw [same]
        generalize ({ msg with crc := 0, sender := some sender } : Request) = req
        by_cases accepting : (system.accepters sender.host).Accepting req
        · rw [Accepter.accept_of_accepting config accepting]
          exact Nat.le_of_not_le (not_or.mp accepting).2
        · rw [Accepter.accept_of_not_accepting config accepting]
      · exact Nat.le_refl _
  | learns => exact Nat.le_refl _

/-! ## Over a run -/

/-- What reaches a learner was sent. -/
theorem inFlight_of_arrivalsAt {node : String} {msg : Request}
    (isStep : system.step config event = some next) (arrives : msg ∈ arrivalsAt node event) :
    .toLearners msg ∈ system.sent := by
  cases event with
  | learn learner arrivals now =>
      change system.learn config learner arrivals now = some next at isStep
      unfold System.learn at isStep
      by_cases inFlight : ∀ arrival ∈ arrivals, .toLearners arrival.msg ∈ system.sent
      · simp only [arrivalsAt, List.mem_ite_nil_right, List.mem_map] at arrives
        obtain ⟨-, arrival, member, rfl⟩ := arrives
        exact inFlight arrival member
      · rw [if_neg inFlight] at isStep
        cases isStep
  | _ => cases arrives

variable {initial : System} {node : String} {past : List Event}

/-- The LEARNs in flight come from accepters that accepted, each at most once
under a number. -/
structure Vouched (config : Config) (initial : System) (node : String) (past : List Event)
    (system : System) : Prop where
  ran : run (step config) initial past = some system
  traced : Traced config system
  arrived : ∀ msg ∈ taken node past, .toLearners msg ∈ system.sent
  accepted : ∀ learn, .toLearners learn ∈ system.sent → ∃ sender, learn.sender = some sender ∧
    sender.host ∈ config.accepters ∧
    learn.proposalNum ≤ (system.accepters sender.host).acceptedProposalNum ∧
    Occurs (step config) (AcceptsAt config sender.host learn) initial past
  once : ∀ learn other sender otherSender, .toLearners learn ∈ system.sent →
    .toLearners other ∈ system.sent → learn.sender = some sender →
    other.sender = some otherSender → sender.host = otherSender.host →
    learn.proposalNum = other.proposalNum → learn = other

theorem vouched_start (proposalNumber acceptedProposalNum : String → Nat) :
    Vouched config (start proposalNumber acceptedProposalNum) node []
      (start proposalNumber acceptedProposalNum) where
  ran := rfl
  traced := traced_start proposalNumber acceptedProposalNum
  arrived := fun _ member => absurd member List.not_mem_nil
  accepted := fun _ isSent => absurd isSent List.not_mem_nil
  once := fun _ _ _ _ isSent => absurd isSent List.not_mem_nil

/-- What an accepter sends now has a larger number than what it sent before. -/
theorem Vouched.lt_of_accepts (vouched : Vouched config initial node past system)
    {old new : Request} {sender : Socket} {host : String}
    (isSent : .toLearners old ∈ system.sent) (from_ : old.sender = some sender)
    (isHost : sender.host = host) (accepts : AcceptsAt config host new system event) :
    old.proposalNum < new.proposalNum := by
  obtain ⟨oldSender, isSender, -, le, -⟩ := vouched.accepted old isSent
  obtain rfl := Option.some.inj (from_.symm.trans isSender)
  cases event with
  | deliver sender msg =>
      obtain ⟨-, -, submitted, -, -, accepting, number, -⟩ := accepts
      rw [← number]
      rw [isHost] at le
      exact Nat.lt_of_le_of_lt le (Nat.lt_of_not_le (not_or.mp accepting).2)
  | _ => exact accepts.elim

theorem Vouched.step (vouched : Vouched config initial node past system)
    (isStep : system.step config event = some next) :
    Vouched config initial node (past ++ [event]) next := by
  have move := step_move isStep
  refine ⟨run_concat vouched.ran isStep, vouched.traced.move move, ?_, ?_, ?_⟩
  · intro msg member
    rw [taken_concat, List.mem_append] at member
    rcases member with old | new
    · exact move.sent (vouched.arrived msg old)
    · exact move.sent (inFlight_of_arrivalsAt isStep new)
  · intro learn isSent
    rcases toLearners_step isStep isSent with old | ⟨sender, msg, rfl, rfl, accepts, accepted⟩
    · obtain ⟨sender, isSender, listed, le, occurs⟩ := vouched.accepted learn old
      exact ⟨sender, isSender, listed, le.trans (move.acceptedProposalNum sender.host),
        occurs.append [event]⟩
    · exact ⟨sender, rfl, (vouched.traced.sockets sender msg accepts.2.1).2, accepted.ge,
        occurs_concat vouched.ran accepts⟩
  · intro learn other sender otherSender isSent otherSent isSender isOtherSender sameHost sameNumber
    rcases toLearners_step isStep isSent with old | ⟨socket, msg, rfl, rfl, accepts, -⟩
    · rcases toLearners_step isStep otherSent with otherOld | ⟨socket, msg, rfl, rfl, accepts, -⟩
      · exact vouched.once learn other sender otherSender old otherOld isSender isOtherSender
          sameHost sameNumber
      · obtain rfl := Option.some.inj isOtherSender
        have less := vouched.lt_of_accepts old isSender sameHost accepts
        omega
    · obtain rfl := Option.some.inj isSender
      rcases toLearners_step isStep otherSent with
        otherOld | ⟨otherSocket, otherMsg, sameEvent, rfl, -, -⟩
      · have less := vouched.lt_of_accepts otherOld isOtherSender sameHost.symm accepts
        omega
      · obtain ⟨rfl, rfl⟩ := Event.deliver.inj sameEvent
        rfl

theorem vouched_run {proposalNumber acceptedProposalNum : String → Nat} {events : List Event}
    {final : System}
    (ran : run (System.step config) (start proposalNumber acceptedProposalNum) events =
      some final) (node : String) :
    Vouched config (start proposalNumber acceptedProposalNum) node events final :=
  invariant_history (Vouched config (start proposalNumber acceptedProposalNum) node)
    (fun _ _ _ _ vouched _ isStep => vouched.step isStep)
    (vouched_start proposalNumber acceptedProposalNum)
    (along_of_forall (fun _ _ => trivial) _) ran

/-- The accepter a LEARN comes from. -/
def acceptedBy (learn : Request) : String :=
  (learn.sender.map Socket.host).getD ""

/-- A quorum of accepters executed the accepting branch for a request. -/
def AcceptedByQuorum (config : Config) (initial : System) (events : List Event)
    (req : Request) : Prop :=
  ∃ hosts : List String, hosts.Nodup ∧ 3 * config.accepters.length ≤ 5 * hosts.length ∧
    ∀ host ∈ hosts, host ∈ config.accepters ∧
      Occurs (step config) (AcceptsAt config host req) initial events

/-- A learner learns a request only after a quorum of accepters has accepted it
under its number, in every run in which its counts start at zero, it takes no
LEARN twice and takes LEARNs of one request only under a number. -/
theorem learned_by_quorum (config : Config) (small : config.accepters.length ≤ 109225)
    (proposalNumber acceptedProposalNum : String → Nat) (events : List Event) (final : System)
    (ran : run (step config) (start proposalNumber acceptedProposalNum) events = some final)
    (node : String) (zero : ∀ event ∈ events, CountsFromZeroAt node event)
    (distinct : (taken node events).Nodup)
    (alike : ∀ msg ∈ taken node events, ∀ other ∈ taken node events,
      msg.proposalNum = other.proposalNum → msg.asked = other.asked)
    (req : Request) (learned : req ∈ (final.learners node).learned) :
    AcceptedByQuorum config (start proposalNumber acceptedProposalNum) events req := by
  have tallied := tallied_run ran zero
  have vouched := vouched_run ran node
  obtain ⟨heard, heardMember, heardNumber, heardAsked⟩ := tallied.heard.learned req learned
  -- The LEARNs that the learner took under the number of the request.
  let votes := (taken node events).filter fun msg => msg.proposalNum = req.proposalNum
  have voted : ∀ msg ∈ votes, msg ∈ taken node events ∧ msg.proposalNum = req.proposalNum := by
    intro msg member
    simpa [votes] using member
  have source : ∀ msg ∈ votes, ∃ sender, msg.sender = some sender ∧
      acceptedBy msg = sender.host := by
    intro msg member
    obtain ⟨sender, isSender, -⟩ :=
      vouched.accepted msg (vouched.arrived msg (voted msg member).1)
    refine ⟨sender, isSender, ?_⟩
    unfold acceptedBy
    rw [isSender]
    rfl
  refine ⟨votes.map acceptedBy, ?_, ?_, ?_⟩
  · refine List.Nodup.map_on ?_ (distinct.filter _)
    intro msg member other otherMember sameHost
    obtain ⟨sender, isSender, isHost⟩ := source msg member
    obtain ⟨otherSender, isOtherSender, isOtherHost⟩ := source other otherMember
    obtain ⟨isTaken, number⟩ := voted msg member
    obtain ⟨isOtherTaken, otherNumber⟩ := voted other otherMember
    exact vouched.once msg other sender otherSender (vouched.arrived msg isTaken)
      (vouched.arrived other isOtherTaken) isSender isOtherSender
      (isHost.symm.trans (sameHost.trans isOtherHost)) (number.trans otherNumber.symm)
  · have enough : quorum config.accepters ≤ votes.length := by
      rw [← List.countP_eq_length_filter]
      exact tallied.quorum_le learned
    rw [quorum_eq small] at enough
    rw [List.length_map]
    omega
  · intro host member
    obtain ⟨msg, isVote, rfl⟩ := List.mem_map.mp member
    obtain ⟨isTaken, number⟩ := voted msg isVote
    obtain ⟨sender, isSender, isHost⟩ := source msg isVote
    obtain ⟨voter, isVoter, listed, -, occurs⟩ :=
      vouched.accepted msg (vouched.arrived msg isTaken)
    obtain rfl := Option.some.inj (isSender.symm.trans isVoter)
    rw [isHost]
    refine ⟨listed, occurs.imp fun _ _ _ accepts => accepts.congr number ?_⟩
    rw [← heardAsked]
    exact alike msg isTaken heard heardMember (number.trans heardNumber.symm)

theorem learned_by_quorum_oneRound :
    ∃ final, run (step (withAccepters threeAccepters)) (start (fun _ => 1) fun _ => 0) oneRound =
        some final ∧
      ∃ req ∈ (final.learners "L").learned, AcceptedByQuorum (withAccepters threeAccepters)
        (start (fun _ => 1) fun _ => 0) oneRound req := by
  have outcome : (run (step (withAccepters threeAccepters)) (start (fun _ => 1) fun _ => 0)
      oneRound).map (fun final => decide (∃ req ∈ (final.learners "L").learned,
        req.method = "create_env")) = some true := by
    decide +kernel
  obtain ⟨final, ran, learns⟩ := Option.map_eq_some_iff.mp outcome
  obtain ⟨req, learned, -⟩ := of_decide_eq_true learns
  have zero : ∀ event ∈ oneRound, CountsFromZero event := by decide +kernel
  refine ⟨final, ran, req, learned, ?_⟩
  refine learned_by_quorum (withAccepters threeAccepters) (by decide) _ _ oneRound final ran "L"
    (fun event member => (zero event member).at "L") ?_ ?_ req learned
  · decide +kernel
  · decide +kernel

/-- One of three accepters accepts, and its LEARN reaches the learner twice. -/
def learnedTwiceOver : List Event :=
  let config := withAccepters ["a", "b", "c"]
  let req := createEnv "x" "e" .request
  let prepare := prepareRequest config "A" 1 req
  let proposal := proposeRequest config "A" 1 0 req
  let arrival := arrivalOf config ⟨1, "a"⟩ proposal
  .request "A" ["A"] req :: deliveries 0 ["a", "b"] prepare ++
    [.prepared "A" (replies ["a", "b"] (Accepter.ackFor .promise true 1 prepare)) 0,
      .deliver ⟨1, "a"⟩ proposal, .learn "L" [arrival, arrival] 0]

/-- The learner takes the copy for the vote of a second accepter. -/
theorem learned_without_quorum :
    ∃ final, run (step (withAccepters ["a", "b", "c"])) (start (fun _ => 1) fun _ => 0)
        learnedTwiceOver = some final ∧
      ∃ req ∈ (final.learners "L").learned, ¬ AcceptedByQuorum (withAccepters ["a", "b", "c"])
        (start (fun _ => 1) fun _ => 0) learnedTwiceOver req := by
  have outcome : (run (step (withAccepters ["a", "b", "c"])) (start (fun _ => 1) fun _ => 0)
      learnedTwiceOver).map (fun final => decide (∃ req ∈ (final.learners "L").learned,
        req.method = "create_env")) = some true := by
    decide +kernel
  obtain ⟨final, ran, learns⟩ := Option.map_eq_some_iff.mp outcome
  obtain ⟨req, learned, -⟩ := of_decide_eq_true learns
  refine ⟨final, ran, req, learned, ?_⟩
  rintro ⟨hosts, nodup, enough, accepts⟩
  have alone : ∀ host ∈ hosts, host = "a" := by
    intro host member
    obtain ⟨before, event, after, reached, isEvent, -, accepts⟩ := (accepts host member).2
    have inRun : event ∈ learnedTwiceOver := by
      rw [isEvent]
      simp
    cases event with
    | deliver sender msg =>
        obtain ⟨rfl, -, submitted, isSubmitted, isPropose, -⟩ := accepts
        have msgPropose : msg.type = .propose := by
          rw [receiveHandler_submit _ isSubmitted] at isPropose
          exact isPropose
        have proposals : ∀ sender msg, Event.deliver sender msg ∈ learnedTwiceOver →
            msg.type = .propose → sender.host = "a" := by
          intro sender msg member
          have listed : sender = ⟨0, "a"⟩ ∧ msg = prepareRequest (withAccepters ["a", "b", "c"])
                "A" 1 (createEnv "x" "e" .request) ∨
              sender = ⟨0, "b"⟩ ∧ msg = prepareRequest (withAccepters ["a", "b", "c"])
                "A" 1 (createEnv "x" "e" .request) ∨
              sender = ⟨1, "a"⟩ ∧ msg = proposeRequest (withAccepters ["a", "b", "c"])
                "A" 1 0 (createEnv "x" "e" .request) := by
            simpa [learnedTwiceOver, deliveries] using member
          rcases listed with ⟨rfl, rfl⟩ | ⟨rfl, rfl⟩ | ⟨rfl, rfl⟩
          · decide
          · decide
          · decide
        exact proposals sender msg inRun msgPropose
    | _ => exact accepts.elim
  have length : hosts.length ≤ 1 := by
    rw [← List.toFinset_card_of_nodup nodup]
    apply Finset.card_le_one.mpr
    intro host member other otherMember
    rw [alone host (List.mem_toFinset.mp member), alone other (List.mem_toFinset.mp otherMember)]
  change 3 * 3 ≤ 5 * hosts.length at enough
  omega

end System

end Rangexx.Paxos
