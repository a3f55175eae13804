import Rangexx.PaxosSystem

/-!
# Where the messages come from

`Move` lists what a step of the system can do.  From it follows, for every run,
that a request a learner holds was sent by an accepter, that accepters send what
a proposer proposed, and that all datagrams of one client carry the same
request.
-/

namespace Rangexx.Paxos

open EventRuns Proposer Learner

/-! ## What a step can do -/

namespace System

variable {config : Config} {system next : System} {event : Event}

/-- The accepter at the other end of a socket answers a PREPARE. -/
def promised (system : System) (sender : Socket) (req : Request) : System :=
  { system with
    accepters := Function.update system.accepters sender.host
      ((system.accepters sender.host).promise req).2
    sent := system.sent ++ [.reply sender ((system.accepters sender.host).promise req).1] }

/-- The accepter at the other end of a socket answers a PROPOSE. -/
def accepted (config : Config) (system : System) (sender : Socket) (req : Request) : System :=
  { system with
    accepters := Function.update system.accepters sender.host
      ((system.accepters sender.host).accept config req).2.2
    sent := system.sent ++ .reply sender ((system.accepters sender.host).accept config req).1 ::
      ((((system.accepters sender.host).accept config req).2.1).map .toLearners).toList }

/-- The moves of the system.  A proposer proposes after a quorum of promises, or
because it bows out. -/
inductive Move (config : Config) (system : System) : Event → System → Prop
  | idle (event : Event) : Move config system event system
  | prepares (event : Event) (node : String) (req : Request) (number bowOut : Nat) :
      Move config system event (system.prepare config node req number bowOut)
  | proposes {node : String} {req : Request} {bowOut client : Nat} {results : Results}
      (timestamp : Nat)
      (preparing : (system.proposers node).activity = .preparing req bowOut client)
      (received : system.CanReceive client results)
      (enough : quorum config.accepters ≤ countOf .promise results) :
      Move config system (.prepared node results timestamp)
        (system.propose config node req (system.proposers node).proposalNumber bowOut timestamp)
  | bowsOut {node : String} {req : Request} {bowOut client : Nat} {results : Results}
      (timestamp : Nat)
      (preparing : (system.proposers node).activity = .preparing req bowOut client)
      (few : countOf .promise results < quorum config.accepters) (last : 42 ≤ bowOut) :
      Move config system (.prepared node results timestamp)
        (system.propose config node req
          (nextNumber (system.proposers node).proposalNumber results) (bowOut + 1) timestamp)
  | rests (event : Event) (node : String) (number : Nat) :
      Move config system event (system.setProposer node ⟨number, .waiting⟩)
  | promises {sender : Socket} {msg : Request} (inFlight : .toAccepter sender msg ∈ system.sent)
      (isPrepare : msg.type = .prepare) :
      Move config system (.deliver sender msg)
        (system.promised sender { msg with crc := 0, sender := some sender })
  | accepts {sender : Socket} {msg : Request} (inFlight : .toAccepter sender msg ∈ system.sent)
      (isPropose : msg.type = .propose) :
      Move config system (.deliver sender msg)
        (system.accepted config sender { msg with crc := 0, sender := some sender })
  | learns {node : String} {arrivals : List Arrival} (now : Int)
      (inFlight : ∀ arrival ∈ arrivals, .toLearners arrival.msg ∈ system.sent) :
      Move config system (.learn node arrivals now)
        { system with
          learners := Function.update system.learners node
            ((system.learners node).eventTask config arrivals now) }

theorem move_request {node : String} {listed : List String} {req : Request}
    (taken : system.request config node listed req = some next) :
    Move config system (.request node listed req) next := by
  unfold request at taken
  split at taken
  · split at taken
    · obtain rfl := Option.some.inj taken
      exact .prepares _ node req _ 1
    · obtain rfl := Option.some.inj taken
      exact .idle _
  · simp at taken

theorem move_afterPrepare {node : String} {results : Results} {timestamp : Nat}
    (taken : system.afterPrepare config node results timestamp = some next) :
    Move config system (.prepared node results timestamp) next := by
  unfold afterPrepare at taken
  split at taken
  · rename_i req bowOut client preparing
    split at taken
    · rename_i received
      unfold Proposer.prepared at taken
      by_cases enough : quorum config.accepters ≤ countOf .promise results
      · rw [if_pos enough] at taken
        obtain rfl := Option.some.inj taken
        exact .proposes timestamp preparing received enough
      · rw [if_neg enough] at taken
        dsimp only at taken
        split at taken
        · obtain rfl := Option.some.inj taken
          exact .prepares _ node req _ _
        · rename_i last
          obtain rfl := Option.some.inj taken
          exact .bowsOut timestamp preparing (Nat.lt_of_not_le enough) (Nat.le_of_not_lt last)
    · simp at taken
  · simp at taken

theorem move_afterPropose {node : String} {results : Results}
    (taken : system.afterPropose config node results = some next) :
    Move config system (.proposed node results) next := by
  unfold afterPropose at taken
  split at taken
  · rename_i req bowOut client proposing
    split at taken
    · split at taken
      · obtain rfl := Option.some.inj taken
        exact .rests _ node _
      · split at taken
        · obtain rfl := Option.some.inj taken
          exact .prepares _ node req _ bowOut
        · obtain rfl := Option.some.inj taken
          exact .rests _ node _
    · simp at taken
  · simp at taken

theorem move_deliver {sender : Socket} {msg : Request}
    (taken : system.deliver config sender msg = some next) :
    Move config system (.deliver sender msg) next := by
  unfold deliver at taken
  split at taken
  · rename_i inFlight
    split at taken
    · rename_i req submitted
      obtain rfl := Option.some.inj taken
      obtain rfl := receiveHandler_submit config.serializeAsString submitted
      unfold acceptTask
      dsimp only
      split
      · rename_i isPrepare
        exact .promises inFlight isPrepare
      · rename_i isPropose
        exact .accepts inFlight isPropose
      · exact .idle _
    · obtain rfl := Option.some.inj taken
      exact .idle _
  · simp at taken

theorem step_move (taken : system.step config event = some next) :
    Move config system event next := by
  cases event with
  | request node listed req => exact move_request taken
  | prepared node results timestamp => exact move_afterPrepare taken
  | proposed node results => exact move_afterPropose taken
  | deliver sender msg => exact move_deliver taken
  | learn node arrivals now =>
      change system.learn config node arrivals now = some next at taken
      unfold learn at taken
      split at taken
      · rename_i inFlight
        obtain rfl := Option.some.inj taken
        exact .learns now inFlight
      · simp at taken

end System

/-! ## What a learner does -/

namespace Learner

variable {config : Config} {learner : Learner}

theorem lookup_take (req : Request) (now : Int) (seenCount number : Nat) :
    (learner.take config req now seenCount).pendingLearnedRequests.lookup number =
      if number = req.proposalNum then
        some (if req.crc = (learner.entryFor config req seenCount).req.crc then
          { learner.entryFor config req seenCount with
            lastSeen := now
            seenCount := ((learner.entryFor config req seenCount).seenCount + 1) % 2 ^ 64 }
        else learner.entryFor config req seenCount)
      else learner.pendingLearnedRequests.lookup number := by
  unfold take
  by_cases same : number = req.proposalNum
  · subst same
    rw [if_pos rfl]
    exact AList.lookup_insert _
  · rw [if_neg same]
    exact AList.lookup_insert_ne same

theorem lookup_cleanup {now : Int} {number : Nat} {entry : PendingLearnedRequest}
    (found : (learner.cleanupDeadRequests config now).pendingLearnedRequests.lookup number =
      some entry) :
    learner.pendingLearnedRequests.lookup number = some entry :=
  KeyedTable.lookup_of_eraseWhere found

/-- `learn_completed_requests` does nothing, or learns the complete entry with
the smallest number. -/
theorem learnCompleted_cases (learner : Learner) :
    learner.learnCompletedRequests = learner ∨
      ∃ number entry, learner.pendingLearnedRequests.lookup number = some entry ∧
        (∀ other ∈ learner.pendingLearnedRequests, number ≤ other) ∧
        entry.neededCount ≤ entry.seenCount ∧
        learner.learnCompletedRequests =
          ⟨learner.pendingLearnedRequests.erase number, learner.learned ++ [entry.req]⟩ := by
  unfold learnCompletedRequests
  split
  · exact Or.inl rfl
  · rename_i number isMin
    split
    · exact Or.inl rfl
    · rename_i entry found
      split
      · rename_i complete
        refine Or.inr ⟨number, entry, found, ?_, complete, rfl⟩
        exact fun other member => (List.min?_eq_some_iff.mp isMin).2 other member
      · exact Or.inl rfl

theorem submitted_eq_some {arrival : Arrival} {req : Request}
    (isSubmitted : submitted config arrival = some req) :
    req = { arrival.msg with crc := 0, sender := some arrival.sender } := by
  unfold submitted at isSubmitted
  split at isSubmitted
  · rename_i submitted
    split at isSubmitted
    · obtain rfl := Option.some.inj isSubmitted
      exact receiveHandler_submit config.serializeAsString submitted
    · simp at isSubmitted
  · simp at isSubmitted

/-- Everything the learner holds is from a source, and the entries are under
the numbers of their requests. -/
structure From (source : Request → Prop) (learner : Learner) : Prop where
  learned : ∀ req ∈ learner.learned, source req
  pending : ∀ number entry, learner.pendingLearnedRequests.lookup number = some entry →
    entry.req.proposalNum = number ∧ source entry.req

theorem From.mono {source source' : Request → Prop} (more : ∀ req, source req → source' req)
    (holds : From source learner) : From source' learner where
  learned := fun req member => more req (holds.learned req member)
  pending := fun number entry found =>
    ⟨(holds.pending number entry found).1, more _ (holds.pending number entry found).2⟩

theorem From.take {source : Request → Prop} (holds : From source learner) {req : Request}
    (isSource : source req) (now : Int) (seenCount : Nat) :
    From source (learner.take config req now seenCount) where
  learned := holds.learned
  pending := by
    have entryGood : (learner.entryFor config req seenCount).req.proposalNum = req.proposalNum ∧
        source (learner.entryFor config req seenCount).req := by
      unfold entryFor
      split
      · rename_i entry found
        exact holds.pending _ entry found
      · exact ⟨rfl, isSource⟩
    intro number entry found
    rw [lookup_take] at found
    split at found
    · rename_i same
      obtain rfl := Option.some.inj found
      rw [same]
      split
      · exact entryGood
      · exact entryGood
    · exact holds.pending number entry found

theorem From.cleanup {source : Request → Prop} (holds : From source learner) (now : Int) :
    From source (learner.cleanupDeadRequests config now) where
  learned := holds.learned
  pending := fun number entry found => holds.pending number entry (lookup_cleanup found)

theorem From.learnCompleted {source : Request → Prop} (holds : From source learner) :
    From source learner.learnCompletedRequests := by
  rcases learner.learnCompleted_cases with same | ⟨number, entry, found, _, _, learns⟩
  · rw [same]
    exact holds
  · rw [learns]
    refine ⟨?_, ?_⟩
    · intro req member
      rcases List.mem_append.mp member with old | new
      · exact holds.learned req old
      · rw [List.mem_singleton.mp new]
        exact (holds.pending number entry found).2
    · intro other pending found
      by_cases same : other = number
      · rw [same, AList.lookup_erase] at found
        simp at found
      · rw [AList.lookup_erase_ne same] at found
        exact holds.pending other pending found

theorem From.receiveAll {source : Request → Prop} (holds : From source learner)
    {arrivals : List Arrival}
    (sources : ∀ arrival ∈ arrivals, ∀ req, submitted config arrival = some req → source req) :
    From source (arrivals.foldl (receive config) learner) := by
  induction arrivals generalizing learner with
  | nil => exact holds
  | cons arrival rest ih =>
      refine ih ?_ fun other member => sources other (List.mem_cons_of_mem arrival member)
      unfold receive
      split
      · exact holds
      · rename_i req isSubmitted
        exact holds.take (sources arrival List.mem_cons_self req isSubmitted) _ _

end Learner

/-! ## Over a run -/

namespace System

variable {config : Config} {system next : System} {event : Event}

/-- A proposer sent the request under its number. -/
def Proposed (system : System) (req : Request) : Prop :=
  ∃ sender proposal, .toAccepter sender proposal ∈ system.sent ∧ proposal.type = .propose ∧
    proposal.proposalNum = req.proposalNum ∧ proposal.asked = req.asked

theorem Proposed.mono (grows : ∀ datagram ∈ system.sent, datagram ∈ next.sent) {req : Request}
    (proposed : system.Proposed req) : next.Proposed req := by
  obtain ⟨sender, proposal, inFlight, rest⟩ := proposed
  exact ⟨sender, proposal, grows _ inFlight, rest⟩

structure Traced (config : Config) (system : System) : Prop where
  sockets : ∀ sender msg, .toAccepter sender msg ∈ system.sent →
    sender.client < system.clients ∧ sender.host ∈ config.accepters
  single : ∀ sender msg other otherMsg, .toAccepter sender msg ∈ system.sent →
    .toAccepter other otherMsg ∈ system.sent → sender.client = other.client → msg = otherMsg
  learns : ∀ msg, .toLearners msg ∈ system.sent → system.Proposed msg
  learners : ∀ node, From system.Proposed (system.learners node)

theorem traced_start (proposalNumber acceptedProposalNum : String → Nat) :
    Traced config (start proposalNumber acceptedProposalNum) where
  sockets := fun _ _ inFlight => absurd inFlight List.not_mem_nil
  single := fun _ _ _ _ inFlight => absurd inFlight List.not_mem_nil
  learns := fun _ inFlight => absurd inFlight List.not_mem_nil
  learners := fun _ =>
    ⟨fun _ member => absurd member List.not_mem_nil, fun _ _ found => by simp [start] at found⟩

theorem mem_sendToAccepters {msg : Request} {datagram : Datagram} :
    datagram ∈ (system.sendToAccepters config msg).sent ↔
      datagram ∈ system.sent ∨
        ∃ host ∈ config.accepters, .toAccepter ⟨system.clients, host⟩ msg = datagram := by
  simp [sendToAccepters]

theorem Traced.sendToAccepters (traced : Traced config system) (msg : Request) :
    Traced config (system.sendToAccepters config msg) where
  sockets := by
    intro sender sentMsg inFlight
    rcases mem_sendToAccepters.mp inFlight with old | ⟨host, listed, same⟩
    · obtain ⟨earlier, listed⟩ := traced.sockets sender sentMsg old
      exact ⟨Nat.lt_succ_of_lt earlier, listed⟩
    · obtain ⟨rfl, rfl⟩ := Datagram.toAccepter.inj same
      exact ⟨Nat.lt_succ_self _, listed⟩
  single := by
    intro sender sentMsg other otherMsg inFlight otherInFlight sameClient
    rcases mem_sendToAccepters.mp inFlight with old | ⟨host, _, same⟩
    · rcases mem_sendToAccepters.mp otherInFlight with otherOld | ⟨otherHost, _, otherSame⟩
      · exact traced.single sender sentMsg other otherMsg old otherOld sameClient
      · obtain ⟨rfl, rfl⟩ := Datagram.toAccepter.inj otherSame
        have earlier := (traced.sockets sender sentMsg old).1
        dsimp only at sameClient
        omega
    · rcases mem_sendToAccepters.mp otherInFlight with otherOld | ⟨otherHost, _, otherSame⟩
      · obtain ⟨rfl, rfl⟩ := Datagram.toAccepter.inj same
        have earlier := (traced.sockets other otherMsg otherOld).1
        dsimp only at sameClient
        omega
      · exact (Datagram.toAccepter.inj same).2.symm.trans (Datagram.toAccepter.inj otherSame).2
  learns := by
    intro learnMsg inFlight
    rcases mem_sendToAccepters.mp inFlight with old | ⟨host, _, same⟩
    · exact (traced.learns learnMsg old).mono fun _ member => mem_sendToAccepters.mpr (Or.inl member)
    · simp at same
  learners := fun node => (traced.learners node).mono fun _ proposed =>
    proposed.mono fun _ member => mem_sendToAccepters.mpr (Or.inl member)

theorem Traced.setProposer (traced : Traced config system) (node : String)
    (proposer : Proposer) : Traced config (system.setProposer node proposer) :=
  ⟨traced.sockets, traced.single, traced.learns, traced.learners⟩

/-- Replies, and requests to learners that were proposed, can be added. -/
theorem Traced.append (traced : Traced config system) {accepters : String → Accepter}
    {added : List Datagram} (noRequest : ∀ sender msg, .toAccepter sender msg ∉ added)
    (proposed : ∀ msg, .toLearners msg ∈ added → system.Proposed msg) :
    Traced config { system with accepters := accepters, sent := system.sent ++ added } where
  sockets := by
    intro sender msg inFlight
    exact traced.sockets sender msg ((List.mem_append.mp inFlight).resolve_right
      (noRequest sender msg))
  single := by
    intro sender msg other otherMsg inFlight otherInFlight
    exact traced.single sender msg other otherMsg
      ((List.mem_append.mp inFlight).resolve_right (noRequest sender msg))
      ((List.mem_append.mp otherInFlight).resolve_right (noRequest other otherMsg))
  learns := by
    intro msg inFlight
    have isProposed : system.Proposed msg :=
      (List.mem_append.mp inFlight).elim (traced.learns msg) (proposed msg)
    exact isProposed.mono fun _ member => List.mem_append_left _ member
  learners := fun node => (traced.learners node).mono fun _ isProposed =>
    isProposed.mono fun _ member => List.mem_append_left _ member

/-- What an accepter sends to the learners is what was proposed to it. -/
theorem accept_learn {accepter : Accepter} {req learn : Request}
    (isSent : (accepter.accept config req).2.1 = some learn) :
    learn = Request.sealed config.serializeAsString { req with type := .learn } := by
  unfold Accepter.accept at isSent
  split at isSent
  · simp at isSent
  · exact (Option.some.inj isSent).symm

theorem Traced.receiveAll (traced : Traced config system) (node : String)
    {arrivals : List Arrival}
    (inFlight : ∀ arrival ∈ arrivals, .toLearners arrival.msg ∈ system.sent) :
    From system.Proposed (arrivals.foldl (receive config) (system.learners node)) := by
  apply (traced.learners node).receiveAll
  intro arrival member req isSubmitted
  rw [submitted_eq_some isSubmitted]
  exact traced.learns arrival.msg (inFlight arrival member)

theorem Traced.move (traced : Traced config system) (move : Move config system event next) :
    Traced config next := by
  cases move with
  | idle => exact traced
  | prepares => exact (traced.sendToAccepters _).setProposer _ _
  | proposes => exact (traced.sendToAccepters _).setProposer _ _
  | bowsOut => exact (traced.sendToAccepters _).setProposer _ _
  | rests => exact traced.setProposer _ _
  | promises inFlight isPrepare =>
      exact traced.append (by simp) (by simp)
  | accepts inFlight isPropose =>
      apply traced.append (by simp)
      intro learn isSent
      simp only [List.mem_cons, reduceCtorEq, Option.mem_toList,
        Option.map_eq_some_iff, Datagram.toLearners.injEq, exists_eq_right, false_or] at isSent
      rw [accept_learn isSent]
      exact ⟨_, _, inFlight, isPropose, rfl, rfl⟩
  | learns now inFlight =>
      refine ⟨traced.sockets, traced.single, traced.learns, ?_⟩
      intro node
      dsimp only
      rw [Function.update_apply]
      split
      · exact ((traced.receiveAll _ inFlight).cleanup now).learnCompleted
      · exact traced.learners node

theorem traced_run {proposalNumber acceptedProposalNum : String → Nat} {events : List Event}
    {final : System}
    (ran : run (step config) (start proposalNumber acceptedProposalNum) events = some final) :
    Traced config final :=
  invariant_run (Traced config) (fun _ _ _ traced _ taken => traced.move (step_move taken))
    (traced_start proposalNumber acceptedProposalNum)
    (along_of_forall (fun _ _ => trivial) _) ran

end System

end Rangexx.Paxos
