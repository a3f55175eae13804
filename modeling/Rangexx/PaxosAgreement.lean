import Rangexx.PaxosTraces

/-!
# Agreement

An accepter promises a number once, so two clients cannot both collect a quorum
of promises for it.  As long as a proposer proposes only after such a quorum,
all requests proposed under one number ask for the same.  The bow-out of
`event_task` proposes without a quorum, under a number that another proposer may
have prepared.
-/

namespace Rangexx.Paxos

open EventRuns Proposer Learner

namespace System

variable {config : Config} {system next : System} {event : Event}

/-- A quorum of accepters promised the number of a proposal to a client that
had sent them what the proposal asks for. -/
def Elected (config : Config) (system : System) (proposal : Request) : Prop :=
  ∃ (client : Nat) (hosts : List String), hosts.Nodup ∧
    quorum config.accepters ≤ hosts.length ∧
    ∀ host ∈ hosts, ∃ ack msg, .reply ⟨client, host⟩ ack ∈ system.sent ∧ ack.type = .promise ∧
      ack.proposalNum = proposal.proposalNum ∧
      .toAccepter ⟨client, host⟩ msg ∈ system.sent ∧ msg.asked = proposal.asked

theorem Elected.mono (grows : ∀ datagram ∈ system.sent, datagram ∈ next.sent)
    {proposal : Request} (elected : Elected config system proposal) :
    Elected config next proposal := by
  obtain ⟨client, hosts, nodup, enough, promises⟩ := elected
  refine ⟨client, hosts, nodup, enough, fun host member => ?_⟩
  obtain ⟨ack, msg, replied, isPromise, number, inFlight, asked⟩ := promises host member
  exact ⟨ack, msg, grows _ replied, isPromise, number, grows _ inFlight, asked⟩

structure Promising (config : Config) (system : System) : Prop where
  kept : ∀ receiver ack, .reply receiver ack ∈ system.sent → ack.type = .promise →
    ack.proposalNum ≤ (system.accepters receiver.host).promisedProposalNum
  once : ∀ receiver ack other otherAck, .reply receiver ack ∈ system.sent →
    .reply other otherAck ∈ system.sent → ack.type = .promise → otherAck.type = .promise →
    receiver.host = other.host → ack.proposalNum = otherAck.proposalNum → receiver = other
  answers : ∀ receiver ack, .reply receiver ack ∈ system.sent → ack.type = .promise →
    ∃ msg, .toAccepter receiver msg ∈ system.sent ∧ msg.proposalNum = ack.proposalNum
  preparing : ∀ node req bowOut client,
    (system.proposers node).activity = .preparing req bowOut client →
    client < system.clients ∧ ∀ host msg, .toAccepter ⟨client, host⟩ msg ∈ system.sent →
      msg.proposalNum = (system.proposers node).proposalNumber ∧ msg.asked = req.asked
  elected : ∀ sender proposal, .toAccepter sender proposal ∈ system.sent →
    proposal.type = .propose → Elected config system proposal

theorem promising_start (proposalNumber acceptedProposalNum : String → Nat) :
    Promising config (start proposalNumber acceptedProposalNum) where
  kept := fun _ _ replied => absurd replied List.not_mem_nil
  once := fun _ _ _ _ replied => absurd replied List.not_mem_nil
  answers := fun _ _ replied => absurd replied List.not_mem_nil
  preparing := fun _ _ _ _ isPreparing => by simp [start] at isPreparing
  elected := fun _ _ inFlight => absurd inFlight List.not_mem_nil

/-- Two proposals that were elected under one number ask for the same. -/
theorem Promising.asked_eq (traced : Traced config system) (promising : Promising config system)
    (small : config.accepters.length ≤ 109225) (nonempty : config.accepters ≠ [])
    {proposal other : Request} (elected : Elected config system proposal)
    (otherElected : Elected config system other)
    (sameNumber : proposal.proposalNum = other.proposalNum) : proposal.asked = other.asked := by
  obtain ⟨client, hosts, nodup, enough, promises⟩ := elected
  obtain ⟨otherClient, otherHosts, otherNodup, otherEnough, otherPromises⟩ := otherElected
  obtain ⟨host, member, otherMember⟩ := quorums_meet small nonempty nodup otherNodup
    (fun host member => by
      obtain ⟨_, _, _, _, _, inFlight, _⟩ := promises host member
      exact (traced.sockets _ _ inFlight).2)
    (fun host member => by
      obtain ⟨_, _, _, _, _, inFlight, _⟩ := otherPromises host member
      exact (traced.sockets _ _ inFlight).2) enough otherEnough
  obtain ⟨ack, msg, replied, isPromise, number, inFlight, asked⟩ := promises host member
  obtain ⟨otherAck, otherMsg, otherReplied, otherIsPromise, otherNumber, otherInFlight,
    otherAsked⟩ := otherPromises host otherMember
  have sameClient : (⟨client, host⟩ : Socket) = ⟨otherClient, host⟩ :=
    promising.once _ ack _ otherAck replied otherReplied isPromise otherIsPromise rfl
      (number.trans (sameNumber.trans otherNumber.symm))
  have sameMsg : msg = otherMsg :=
    traced.single _ msg _ otherMsg inFlight otherInFlight (congrArg Socket.client sameClient)
  rw [← asked, sameMsg, otherAsked]

theorem reply_mem_sendToAccepters {msg : Request} {receiver : Socket} {ack : Ack} :
    .reply receiver ack ∈ (system.sendToAccepters config msg).sent ↔
      .reply receiver ack ∈ system.sent := by
  simp [mem_sendToAccepters]

/-- Sending a request keeps what was promised. -/
theorem Promising.sendToAccepters (promising : Promising config system) (msg : Request)
    (elected : msg.type = .propose → Elected config system msg) :
    Promising config (system.sendToAccepters config msg) := by
  have grows : ∀ datagram ∈ system.sent,
      datagram ∈ (system.sendToAccepters config msg).sent :=
    fun _ member => mem_sendToAccepters.mpr (Or.inl member)
  constructor
  · intro receiver ack replied
    exact promising.kept receiver ack (reply_mem_sendToAccepters.mp replied)
  · intro receiver ack other otherAck replied otherReplied
    exact promising.once receiver ack other otherAck (reply_mem_sendToAccepters.mp replied)
      (reply_mem_sendToAccepters.mp otherReplied)
  · intro receiver ack replied isPromise
    obtain ⟨prepare, inFlight, number⟩ :=
      promising.answers receiver ack (reply_mem_sendToAccepters.mp replied) isPromise
    exact ⟨prepare, grows _ inFlight, number⟩
  · intro node req bowOut client isPreparing
    obtain ⟨earlier, sends⟩ := promising.preparing node req bowOut client isPreparing
    refine ⟨Nat.lt_succ_of_lt earlier, fun host prepare inFlight => ?_⟩
    rcases mem_sendToAccepters.mp inFlight with old | ⟨_, _, same⟩
    · exact sends host prepare old
    · obtain ⟨sameSocket, _⟩ := Datagram.toAccepter.inj same
      have sameClient := congrArg Socket.client sameSocket
      dsimp only at sameClient
      omega
  · intro sender proposal inFlight isPropose
    rcases mem_sendToAccepters.mp inFlight with old | ⟨_, _, same⟩
    · exact (promising.elected sender proposal old isPropose).mono grows
    · obtain ⟨_, rfl⟩ := Datagram.toAccepter.inj same
      exact (elected isPropose).mono grows

/-- A proposer can change its activity if the new one waits for promises to what
its client sent. -/
theorem Promising.setProposer (promising : Promising config system) (node : String)
    {proposer : Proposer}
    (waits : ∀ req bowOut client, proposer.activity = .preparing req bowOut client →
      client < system.clients ∧ ∀ host msg, .toAccepter ⟨client, host⟩ msg ∈ system.sent →
        msg.proposalNum = proposer.proposalNumber ∧ msg.asked = req.asked) :
    Promising config (system.setProposer node proposer) := by
  refine ⟨promising.kept, promising.once, promising.answers, ?_, promising.elected⟩
  intro other req bowOut client isPreparing
  unfold System.setProposer at isPreparing ⊢
  dsimp only at isPreparing ⊢
  rw [Function.update_apply] at isPreparing ⊢
  split at isPreparing
  · rename_i same
    rw [if_pos same]
    exact waits req bowOut client isPreparing
  · rename_i differ
    rw [if_neg differ]
    exact promising.preparing other req bowOut client isPreparing

/-- The accepter of a socket can reply: a promise is for a number above all it
has promised. -/
theorem Promising.reply (promising : Promising config system) {sender : Socket} {ack : Ack}
    {accepter : Accepter} {added : List Datagram}
    (others : ∀ datagram ∈ added, ∃ msg, datagram = .toLearners msg)
    (keeps : (system.accepters sender.host).promisedProposalNum ≤ accepter.promisedProposalNum)
    (above : ack.type = .promise →
      (system.accepters sender.host).promisedProposalNum < ack.proposalNum ∧
      ack.proposalNum ≤ accepter.promisedProposalNum ∧
      ∃ msg, .toAccepter sender msg ∈ system.sent ∧ msg.proposalNum = ack.proposalNum) :
    Promising config { system with
      accepters := Function.update system.accepters sender.host accepter
      sent := system.sent ++ .reply sender ack :: added } := by
  have isReply : ∀ receiver other, .reply receiver other ∈ system.sent ++ .reply sender ack ::
      added → .reply receiver other ∈ system.sent ∨ receiver = sender ∧ other = ack := by
    intro receiver other replied
    rcases List.mem_append.mp replied with old | new
    · exact Or.inl old
    · rcases List.mem_cons.mp new with same | later
      · exact Or.inr (Datagram.reply.inj same)
      · obtain ⟨_, impossible⟩ := others _ later
        simp at impossible
  have isRequest : ∀ receiver msg, .toAccepter receiver msg ∈ system.sent ++ .reply sender ack ::
      added → .toAccepter receiver msg ∈ system.sent := by
    intro receiver msg inFlight
    rcases List.mem_append.mp inFlight with old | new
    · exact old
    · rcases List.mem_cons.mp new with impossible | later
      · simp at impossible
      · obtain ⟨_, impossible⟩ := others _ later
        simp at impossible
  -- A promise made before is for a smaller number than a new one of the same accepter.
  have below : ∀ receiver other, .reply receiver other ∈ system.sent → other.type = .promise →
      receiver.host = sender.host → ack.type = .promise →
      other.proposalNum < ack.proposalNum := by
    intro receiver other replied isPromise sameHost promises
    have kept := promising.kept receiver other replied isPromise
    rw [sameHost] at kept
    exact Nat.lt_of_le_of_lt kept (above promises).1
  have grows : ∀ datagram ∈ system.sent, datagram ∈ system.sent ++ .reply sender ack :: added :=
    fun _ member => List.mem_append_left _ member
  constructor
  · intro receiver other replied isPromise
    dsimp only
    rw [Function.update_apply]
    rcases isReply receiver other replied with old | ⟨rfl, rfl⟩
    · have kept := promising.kept receiver other old isPromise
      split
      · rename_i sameHost
        rw [sameHost] at kept
        exact Nat.le_trans kept keeps
      · exact kept
    · rw [if_pos rfl]
      exact (above isPromise).2.1
  · intro receiver one other two replied otherReplied isPromise otherIsPromise sameHost sameNumber
    rcases isReply receiver one replied with old | ⟨rfl, rfl⟩
    · rcases isReply other two otherReplied with otherOld | ⟨rfl, rfl⟩
      · exact promising.once receiver one other two old otherOld isPromise otherIsPromise sameHost
          sameNumber
      · have := below receiver one old isPromise sameHost otherIsPromise
        omega
    · rcases isReply other two otherReplied with otherOld | ⟨rfl, rfl⟩
      · have := below other two otherOld otherIsPromise sameHost.symm isPromise
        omega
      · rfl
  · intro receiver other replied isPromise
    rcases isReply receiver other replied with old | ⟨rfl, rfl⟩
    · obtain ⟨msg, inFlight, number⟩ := promising.answers receiver other old isPromise
      exact ⟨msg, grows _ inFlight, number⟩
    · obtain ⟨_, _, msg, inFlight, number⟩ := above isPromise
      exact ⟨msg, grows _ inFlight, number⟩
  · intro node req bowOut client isPreparing
    obtain ⟨earlier, sends⟩ := promising.preparing node req bowOut client isPreparing
    exact ⟨earlier, fun host msg inFlight => sends host msg (isRequest _ msg inFlight)⟩
  · intro receiver proposal inFlight isPropose
    exact (promising.elected receiver proposal (isRequest _ _ inFlight) isPropose).mono grows

/-- The replies a proposer counted elect what it proposes. -/
theorem Promising.elects (promising : Promising config system) {node : String} {req : Request}
    {bowOut client : Nat} {results : Results} (timestamp : Nat)
    (isPreparing : (system.proposers node).activity = .preparing req bowOut client)
    (received : system.CanReceive client results)
    (enough : quorum config.accepters ≤ countOf .promise results) :
    Elected config system
      (proposeRequest config node (system.proposers node).proposalNumber timestamp req) := by
  let promises := results.filter fun result => result.2.type = .promise
  refine ⟨client, promises.map Prod.fst, ?_, ?_, ?_⟩
  · exact received.1.sublist (List.filter_sublist.map Prod.fst)
  · rw [List.length_map, ← List.countP_eq_length_filter]
    exact enough
  · intro host member
    obtain ⟨⟨_, ack⟩, inPromises, rfl⟩ := List.mem_map.mp member
    obtain ⟨inResults, isPromise⟩ := List.mem_filter.mp inPromises
    have replied := received.2 _ inResults
    have promised : ack.type = .promise := by simpa using isPromise
    obtain ⟨msg, inFlight, number⟩ := promising.answers _ ack replied promised
    obtain ⟨sameNumber, asked⟩ := (promising.preparing node req bowOut client isPreparing).2 _ msg
      inFlight
    exact ⟨ack, msg, replied, promised, number.symm.trans sameNumber, inFlight, asked⟩

theorem Promising.promised (promising : Promising config system) {sender : Socket}
    {msg : Request} (inFlight : .toAccepter sender msg ∈ system.sent) :
    Promising config
      (system.promised sender { msg with crc := 0, sender := some sender }) := by
  refine promising.reply (by simp) ?_ ?_
  · unfold Accepter.promise
    split
    · exact Nat.le_refl _
    · exact Nat.le_of_lt (Nat.lt_of_not_le ‹_›)
  · unfold Accepter.promise
    split
    · intro isPromise
      simp [Accepter.nack, Accepter.ackFor] at isPromise
    · rename_i above
      intro _
      exact ⟨Nat.lt_of_not_le above, Nat.le_refl _, msg, inFlight, rfl⟩

theorem Promising.accepted (promising : Promising config system) (sender : Socket)
    (req : Request) : Promising config (system.accepted config sender req) := by
  refine promising.reply ?_ ?_ ?_
  · intro datagram member
    rw [Option.mem_toList, Option.map_eq_some_iff] at member
    obtain ⟨learn, _, rfl⟩ := member
    exact ⟨learn, rfl⟩
  · unfold Accepter.accept
    split
    · exact Nat.le_refl _
    · exact Nat.le_refl _
  · unfold Accepter.accept
    split
    · intro isPromise
      simp [Accepter.nack, Accepter.ackFor] at isPromise
    · intro isPromise
      simp [Accepter.ackFor] at isPromise

/-- The proposer gives up preparing and proposes all the same. -/
def BowsOut (config : Config) (system : System) : Event → Prop
  | .prepared node results _ =>
      ∃ req bowOut client, (system.proposers node).activity = .preparing req bowOut client ∧
        countOf .promise results < quorum config.accepters ∧ 42 ≤ bowOut
  | _ => False

theorem Promising.move (traced : Traced config system) (promising : Promising config system)
    (stays : ¬ BowsOut config system event) (move : Move config system event next) :
    Promising config next := by
  cases move with
  | idle => exact promising
  | prepares _ node req number bowOut =>
      have sends := promising.sendToAccepters (prepareRequest config node number req)
        fun isPropose => by simp [prepareRequest, Request.sealed] at isPropose
      apply sends.setProposer node
      intro other otherBowOut client isPreparing
      obtain ⟨rfl, _, rfl⟩ := Activity.preparing.inj isPreparing
      refine ⟨Nat.lt_succ_self _, fun host msg inFlight => ?_⟩
      rcases mem_sendToAccepters.mp inFlight with old | ⟨_, _, same⟩
      · exact absurd (traced.sockets _ msg old).1 (Nat.lt_irrefl _)
      · obtain ⟨_, rfl⟩ := Datagram.toAccepter.inj same
        exact ⟨rfl, rfl⟩
  | proposes timestamp isPreparing received enough =>
      have sends := promising.sendToAccepters _ fun _ =>
        promising.elects timestamp isPreparing received enough
      exact sends.setProposer _ (by simp)
  | bowsOut timestamp isPreparing few last =>
      exact absurd ⟨_, _, _, isPreparing, few, last⟩ stays
  | rests _ node number => exact promising.setProposer node (by simp)
  | promises inFlight isPrepare => exact promising.promised inFlight
  | accepts inFlight isPropose => exact promising.accepted _ _
  | learns now inFlight =>
      exact ⟨promising.kept, promising.once, promising.answers, promising.preparing,
        promising.elected⟩

/-- Learners that call `learn` under one number learn the same method and
arguments, in every run in which no proposer bows out. -/
theorem learned_agree (config : Config) (small : config.accepters.length ≤ 109225)
    (proposalNumber acceptedProposalNum : String → Nat) (events : List Event) (final : System)
    (ran : run (step config) (start proposalNumber acceptedProposalNum) events = some final)
    (stays : Along (step config) (fun system event => ¬ BowsOut config system event)
      (start proposalNumber acceptedProposalNum) events)
    (learner other : String) (req otherReq : Request)
    (learned : req ∈ (final.learners learner).learned)
    (otherLearned : otherReq ∈ (final.learners other).learned)
    (sameNumber : req.proposalNum = otherReq.proposalNum) :
    req.method = otherReq.method ∧ req.args = otherReq.args := by
  obtain ⟨traced, promising⟩ : Traced config final ∧ Promising config final := by
    refine invariant_run (fun system => Traced config system ∧ Promising config system) ?_
      ⟨traced_start proposalNumber acceptedProposalNum,
        promising_start proposalNumber acceptedProposalNum⟩ stays ran
    intro system event next holds stays taken
    have move := step_move taken
    exact ⟨holds.1.move move, holds.2.move holds.1 stays move⟩
  obtain ⟨sender, proposal, inFlight, isPropose, number, asked⟩ :=
    (traced.learners learner).learned req learned
  obtain ⟨_, otherProposal, otherInFlight, otherIsPropose, otherNumber, otherAsked⟩ :=
    (traced.learners other).learned otherReq otherLearned
  have nonempty : config.accepters ≠ [] :=
    List.ne_nil_of_mem (traced.sockets sender proposal inFlight).2
  have same : proposal.asked = otherProposal.asked :=
    promising.asked_eq traced small nonempty
      (promising.elected _ _ inFlight isPropose)
      (promising.elected _ _ otherInFlight otherIsPropose)
      (number.trans (sameNumber.trans otherNumber.symm))
  rw [asked, otherAsked] at same
  have sameWrite := Prod.ext_iff.mp (congrArg Prod.snd same)
  exact sameWrite

/-! ## Two runs -/

/-- A configuration with some accepters. -/
def withAccepters (accepters : List String) : Config where
  accepters := accepters
  requestTimeout := 1000
  serializeAsString := fun req =>
    (req.clientId ++ req.method).toUTF8.toList ++ [req.requestId.toUInt8, req.proposalNum.toUInt8]

/-- A client asks for a new environment. -/
def createEnv (client env : String) (type : RequestType) : Request :=
  { Request.unset with
    clientId := client
    requestId := 1
    method := "create_env"
    args := [env]
    type := type }

def deliveries (client : Nat) (hosts : List String) (msg : Request) : List Event :=
  hosts.map fun host => .deliver ⟨client, host⟩ msg

def replies (hosts : List String) (ack : Ack) : Results :=
  hosts.map fun host => (host, ack)

/-- The arrival of what the accepter sends on when it accepts. -/
def arrivalOf (config : Config) (sender : Socket) (proposal : Request) : Arrival where
  sender := ⟨0, ""⟩
  msg := Request.sealed config.serializeAsString
    { proposal with crc := 0, sender := some sender, type := .learn }
  now := 0
  seenCount := 0

/-- The accepters promise and accept what the proposer asks, the clients being
numbered from `client` on. -/
def round (accepters : List String) (client number : Nat) (req : Request) : List Event :=
  let config := withAccepters accepters
  let prepare := prepareRequest config "A" number req
  let proposal := proposeRequest config "A" number 0 req
  .request "A" ["A"] req :: deliveries client accepters prepare ++
    .prepared "A" (replies accepters (Accepter.ackFor .promise true number prepare)) 0 ::
      deliveries (client + 1) accepters proposal ++
        [.proposed "A" (replies accepters (Accepter.ackFor .accepted true number proposal))]

/-- The arrival of the request of such a round from one of the accepters. -/
def roundArrival (accepters : List String) (client number : Nat) (req : Request)
    (host : String) : Arrival :=
  arrivalOf (withAccepters accepters) ⟨client + 1, host⟩
    (proposeRequest (withAccepters accepters) "A" number 0 req)

def threeAccepters : List String :=
  ["a", "b", "c"]

/-- One round that two learners learn, each from two of three accepters.  The
third LEARN comes late to the one and never to the other. -/
def oneRound : List Event :=
  let arrival := roundArrival threeAccepters 0 1 (createEnv "x" "e" .request)
  round threeAccepters 0 1 (createEnv "x" "e" .request) ++
    [.learn "L" [arrival "a", arrival "b"] 0, .learn "M" [arrival "c"] 0,
      .learn "M" [arrival "b"] 0, .learn "L" [arrival "c"] 0]

/-- The proposer has counted a quorum when it stops waiting for promises. -/
def Promised (config : Config) : Event → Prop
  | .prepared _ results _ => quorum config.accepters ≤ countOf .promise results
  | _ => True

instance (config : Config) : DecidablePred (Promised config)
  | .prepared _ results _ =>
      inferInstanceAs (Decidable (quorum config.accepters ≤ countOf .promise results))
  | .request _ _ _ => inferInstanceAs (Decidable True)
  | .proposed _ _ => inferInstanceAs (Decidable True)
  | .deliver _ _ => inferInstanceAs (Decidable True)
  | .learn _ _ _ => inferInstanceAs (Decidable True)

theorem stays_of_promised {events : List Event}
    (promised : ∀ event ∈ events, Promised config event) (system : System) :
    Along (step config) (fun system event => ¬ BowsOut config system event) system events := by
  induction events generalizing system with
  | nil => trivial
  | cons event rest ih =>
      refine ⟨?_, fun next _ => ih (fun other member => ?_) next⟩
      · cases event with
        | prepared node results timestamp =>
            rintro ⟨_, _, _, _, few, _⟩
            exact Nat.not_le_of_lt few (promised _ List.mem_cons_self)
        | _ => exact not_false
      · exact promised other (List.mem_cons_of_mem event member)

theorem learned_agree_oneRound :
    ∃ final, run (step (withAccepters threeAccepters)) (start (fun _ => 1) fun _ => 0) oneRound =
        some final ∧
      ∃ req ∈ (final.learners "L").learned, ∃ otherReq ∈ (final.learners "M").learned,
        req.method = otherReq.method ∧ req.args = otherReq.args := by
  have outcome : (run (step (withAccepters threeAccepters)) (start (fun _ => 1) fun _ => 0)
      oneRound).map (fun final => decide (∃ req ∈ (final.learners "L").learned,
        ∃ otherReq ∈ (final.learners "M").learned, req.proposalNum = otherReq.proposalNum)) =
        some true := by
    decide +kernel
  obtain ⟨final, ran, both⟩ := Option.map_eq_some_iff.mp outcome
  obtain ⟨req, learned, otherReq, otherLearned, sameNumber⟩ := of_decide_eq_true both
  refine ⟨final, ran, req, learned, otherReq, otherLearned, ?_⟩
  exact learned_agree (withAccepters threeAccepters) (by decide) _ _ oneRound final ran
    (stays_of_promised (by decide +kernel) _) "L" "M" req otherReq learned otherLearned sameNumber

/-- The secondary proposer `B` prepares in vain 42 times; only its last PREPARE
reaches the accepters, and the replies are lost.  Then the number at which it
bows out is the one under which `A` proposes, after it has learned from the
accepters which number to use. -/
def bowOut : List Event :=
  let config := withAccepters ["a", "b", "c"]
  let first := createEnv "x" "e" .request
  let second := createEnv "y" "f" .failover
  let refused := prepareRequest config "A" 1 first
  let prepare := prepareRequest config "A" 43 first
  let proposal := proposeRequest config "A" 43 0 first
  let otherProposal := proposeRequest config "B" 43 0 second
  let arrival := arrivalOf config ⟨45, "a"⟩ proposal
  let otherArrival := arrivalOf config ⟨42, "b"⟩ otherProposal
  .request "B" ["A", "B"] second :: List.replicate 41 (.prepared "B" [] 0) ++
    deliveries 41 ["a", "b", "c"] (prepareRequest config "B" 42 second) ++
    [.prepared "B" [] 0, .request "A" ["A", "B"] first] ++
    deliveries 43 ["a", "b"] refused ++
    [.prepared "A" (replies ["a", "b"] (Accepter.nack ⟨42, 0⟩ refused)) 0] ++
    deliveries 44 ["a", "b"] prepare ++
    [.prepared "A" (replies ["a", "b"] (Accepter.ackFor .promise true 43 prepare)) 0,
      .deliver ⟨45, "a"⟩ proposal, .deliver ⟨42, "b"⟩ otherProposal,
      .learn "L" [arrival, otherArrival] 0, .learn "M" [otherArrival, arrival] 0]

/-- Each learner counts both proposals for the one that it saw first. -/
theorem learned_disagree_bowOut :
    ∃ final, run (step (withAccepters ["a", "b", "c"])) (start (fun _ => 1) fun _ => 0) bowOut =
        some final ∧
      ∃ req ∈ (final.learners "L").learned, ∃ otherReq ∈ (final.learners "M").learned,
        req.proposalNum = otherReq.proposalNum ∧ req.args = ["e"] ∧ otherReq.args = ["f"] := by
  have outcome : (run (step (withAccepters ["a", "b", "c"])) (start (fun _ => 1) fun _ => 0)
      bowOut).map (fun final => decide (∃ req ∈ (final.learners "L").learned,
        ∃ otherReq ∈ (final.learners "M").learned,
          req.proposalNum = otherReq.proposalNum ∧ req.args = ["e"] ∧ otherReq.args = ["f"])) =
        some true := by
    decide +kernel
  obtain ⟨final, ran, differ⟩ := Option.map_eq_some_iff.mp outcome
  exact ⟨final, ran, of_decide_eq_true differ⟩

end System

end Rangexx.Paxos
