import Rangexx.StoredWrites

/-!
# Whose answers the threads are given

An acknowledgement in the queue of a thread was made for a request of this
thread.  The thread looks at the id of the request, so `request` returns true
for the acknowledgement of this very request and no other.  `send` returns the
acknowledgement in any case, and then it can be that of an earlier request.
-/

namespace Rangexx.Stored

open EventRuns

/-- What the learner has executed, with the results. -/
abbrev Executed :=
  List (Paxos.Request × Except ApiError Bool)

/-- Requests that were executed one after the other, each with its result. -/
inductive Replay (first : World) : Executed → World → Prop
  | nothing : Replay first [] first
  | next {past : Executed} {before after : World}
      {req : Paxos.Request} {uninitialised : Bool} {result : Except ApiError Bool} :
      Replay first past before → execute req uninitialised before = (result, after) →
        Replay first (past ++ [(req, result)]) after

/-- The acknowledgement was made for a request that was executed. -/
def Answers (executed : Executed) (req : Paxos.Request) (ack : Paxos.Ack) : Prop :=
  ∃ result, (req, result) ∈ executed ∧ ack = learnedAck req result

/-- What a thread was given: the answer to what it asked for, or nothing, or the
answer to an earlier request of its own. -/
structure Fair (executed : Executed) (reply : Reply) : Prop where
  accepted : reply.accepted = true →
    ∃ req, Answers executed req reply.ack ∧ req.asked = reply.req.asked
  refused : reply.accepted = false → reply.ack = unsetAck ∨
    ∃ req, Answers executed req reply.ack ∧ req.clientId = reply.req.clientId ∧
      req.requestId < reply.req.requestId

theorem Answers.mono {executed more : Executed} {req : Paxos.Request} {ack : Paxos.Ack}
    (answers : Answers executed req ack) (grows : executed ⊆ more) : Answers more req ack := by
  obtain ⟨result, member, same⟩ := answers
  exact ⟨result, grows member, same⟩

theorem Fair.mono {executed more : Executed} {reply : Reply} (fair : Fair executed reply)
    (grows : executed ⊆ more) : Fair more reply where
  accepted := by
    intro isAccepted
    obtain ⟨req, answers, same⟩ := fair.accepted isAccepted
    exact ⟨req, answers.mono grows, same⟩
  refused := by
    intro isRefused
    rcases fair.refused isRefused with unset | ⟨req, answers, same, earlier⟩
    · exact .inl unset
    · exact .inr ⟨req, answers.mono grows, same, earlier⟩

/-- A reply for which no acknowledgement came. -/
theorem fair_unanswered (executed : Executed) (req : Paxos.Request) :
    Fair executed ⟨req, false, unsetAck⟩ where
  accepted := by
    intro isAccepted
    exact absurd isAccepted Bool.false_ne_true
  refused := fun _ => .inl rfl

namespace System

/-- The request is in the queue of the daemon or was forwarded. -/
def Known (system : System) (req : Paxos.Request) : Prop :=
  req ∈ system.requestQueue ∨ req ∈ system.forwarded

variable (nodeId : String) in
/-- What holds of the queues of a node at any time. -/
structure Consistent (system : System) : Prop where
  verified : ∀ req ∈ system.requestQueue, verifyRequest req = true
  numbered : ∀ req, system.Known req → req.requestId < system.nextId req.clientId
  unique : ∀ first second, system.Known first → system.Known second →
    first.identity = second.identity → first = second
  waiting : ∀ client req, system.waiting client = some req →
    system.Known req ∧ req.clientId = client ∧ req.requestId + 1 = system.nextId client
  executed : ∀ entry ∈ system.executed, isLocal nodeId entry.1 = true →
    ∃ req, system.Known req ∧ req.asked = entry.1.asked
  acks : ∀ client, ∀ ack ∈ system.ackQueue client,
    ∃ req, isLocal nodeId req = true ∧ req.clientId = client ∧ Answers system.executed req ack
  replies : ∀ reply ∈ system.replies, Fair system.executed reply

variable {serializeAsString : Paxos.Request → List UInt8} {nodeId : String}
  {system next : System}

theorem start_consistent (world : World) : (start world).Consistent nodeId where
  verified := List.forall_mem_nil _
  numbered := by
    rintro req (member | member) <;> exact absurd member List.not_mem_nil
  unique := by
    rintro first second (member | member) <;> exact absurd member List.not_mem_nil
  waiting := by
    intro client req isWaiting
    exact absurd isWaiting (Option.some_ne_none req).symm
  executed := List.forall_mem_nil _
  acks := fun _ => List.forall_mem_nil _
  replies := List.forall_mem_nil _

/-! ## One step -/

/-- A request that is forwarded stays known. -/
theorem serve_known (taken : system.serve = some next)
    (verified : ∀ req ∈ system.requestQueue, verifyRequest req = true) (req : Paxos.Request) :
    next.Known req ↔ system.Known req := by
  unfold serve at taken
  cases queue : system.requestQueue with
  | nil => simp [queue] at taken
  | cons first rest =>
      have isVerified := verified first (by simp [queue])
      simp only [queue, isVerified, if_true] at taken
      obtain rfl := Option.some.inj taken
      simp only [Known, queue, List.mem_append, List.mem_cons]
      tauto

theorem Consistent.serve (consistent : system.Consistent nodeId)
    (taken : system.serve = some next) : next.Consistent nodeId := by
  have known := serve_known taken consistent.verified
  unfold System.serve at taken
  cases queue : system.requestQueue with
  | nil => simp [queue] at taken
  | cons first rest =>
      rw [queue] at taken
      obtain rfl := Option.some.inj taken
      exact {
        verified := fun req member => consistent.verified req (by simp_all)
        numbered := fun req isKnown => consistent.numbered req ((known req).mp isKnown)
        unique := fun one other isKnown otherKnown =>
          consistent.unique one other ((known one).mp isKnown) ((known other).mp otherKnown)
        waiting := fun client req isWaiting => by
          obtain ⟨isKnown, rest⟩ := consistent.waiting client req isWaiting
          exact ⟨(known req).mpr isKnown, rest⟩
        executed := fun entry member isLocal => by
          obtain ⟨req, isKnown, same⟩ := consistent.executed entry member isLocal
          exact ⟨req, (known req).mpr isKnown, same⟩
        acks := consistent.acks
        replies := consistent.replies }

/-- A thread that still waits when another one does not is one that waited. -/
theorem waiting_of_update_none {waiting : String → Option Paxos.Request} {client other : String}
    {req : Paxos.Request} (isWaiting : Function.update waiting client none other = some req) :
    waiting other = some req := by
  by_cases same : other = client
  · subst same
    simp at isWaiting
  · rwa [Function.update_of_ne same] at isWaiting

/-- A request that a thread takes back without an answer. -/
theorem Consistent.expire {thread : String} (consistent : system.Consistent nodeId)
    (taken : system.expire nodeId thread = some next) : next.Consistent nodeId := by
  unfold System.expire at taken
  cases isWaiting : system.waiting (clientId nodeId thread) with
  | none => simp [isWaiting] at taken
  | some req =>
      simp only [isWaiting] at taken
      obtain rfl := Option.some.inj taken
      exact {
        verified := consistent.verified
        numbered := consistent.numbered
        unique := consistent.unique
        waiting := fun client other otherWaits =>
          consistent.waiting client other (waiting_of_update_none otherWaits)
        executed := consistent.executed
        acks := consistent.acks
        replies := by
          rw [List.forall_mem_append, List.forall_mem_singleton]
          exact ⟨consistent.replies, fair_unanswered _ req⟩ }

@[simp]
theorem learnedAck_requestId (req : Paxos.Request) (result : Except ApiError Bool) :
    (learnedAck req result).requestId = req.requestId := by
  cases result <;> rfl

@[simp]
theorem learnedAck_clientId (req : Paxos.Request) (result : Except ApiError Bool) :
    (learnedAck req result).clientId = req.clientId := by
  cases result <;> rfl

/-- The answer to a request with the id of a known one is the answer to that
request. -/
theorem Consistent.asked_eq (consistent : system.Consistent nodeId) {req made : Paxos.Request}
    (isKnown : system.Known req) (isLocal : isLocal nodeId made = true)
    {result : Except ApiError Bool} (member : (made, result) ∈ system.executed)
    (same : made.identity = req.identity) : made.asked = req.asked := by
  obtain ⟨sent, sentKnown, sentAsked⟩ := consistent.executed _ member isLocal
  have sentSame : sent.identity = made.identity := congrArg Prod.fst sentAsked
  obtain rfl := consistent.unique sent req sentKnown isKnown (sentSame.trans same)
  exact sentAsked.symm

/-- An acknowledgement that is taken. -/
theorem Consistent.fair_receive {client : String} {req : Paxos.Request} {ack : Paxos.Ack}
    (consistent : system.Consistent nodeId) (isWaiting : system.waiting client = some req)
    (member : ack ∈ system.ackQueue client) :
    Fair system.executed
      ⟨req, ack.requestId = req.requestId && ack.clientId = req.clientId, ack⟩ := by
  obtain ⟨reqKnown, sameClient, latest⟩ := consistent.waiting client req isWaiting
  obtain ⟨made, isLocal, madeClient, result, wasExecuted, rfl⟩ :=
    consistent.acks client ack member
  constructor
  · intro isAccepted
    have ids : made.requestId = req.requestId := by simpa [sameClient, madeClient] using isAccepted
    have identity : made.identity = req.identity := by
      unfold Paxos.Request.identity
      rw [ids, madeClient, sameClient]
    exact ⟨made, ⟨result, wasExecuted, rfl⟩,
      consistent.asked_eq reqKnown isLocal wasExecuted identity⟩
  · intro isRefused
    have ids : made.requestId ≠ req.requestId := by simpa [sameClient, madeClient] using isRefused
    obtain ⟨sent, sentKnown, sentAsked⟩ := consistent.executed _ wasExecuted isLocal
    have sentIdentity : sent.identity = made.identity := congrArg Prod.fst sentAsked
    have sentClient : sent.clientId = made.clientId := congrArg Prod.fst sentIdentity
    have sentId : sent.requestId = made.requestId := congrArg Prod.snd sentIdentity
    have below := consistent.numbered sent sentKnown
    rw [sentClient, madeClient, ← latest, sentId] at below
    exact .inr ⟨made, ⟨result, wasExecuted, rfl⟩, madeClient.trans sameClient.symm, by
      dsimp only
      omega⟩

theorem Consistent.receive {thread : String} (consistent : system.Consistent nodeId)
    (taken : system.receive nodeId thread = some next) : next.Consistent nodeId := by
  unfold System.receive at taken
  cases isWaiting : system.waiting (clientId nodeId thread) with
  | none => simp [isWaiting] at taken
  | some req =>
      cases queue : system.ackQueue (clientId nodeId thread) with
      | nil => simp [isWaiting, queue] at taken
      | cons ack rest =>
          simp only [isWaiting, queue] at taken
          obtain rfl := Option.some.inj taken
          have among : ack ∈ system.ackQueue (clientId nodeId thread) := by
            rw [queue]
            exact List.mem_cons_self
          have fair := consistent.fair_receive isWaiting among
          exact {
            verified := consistent.verified
            numbered := consistent.numbered
            unique := consistent.unique
            waiting := fun client other otherWaits =>
              consistent.waiting client other (waiting_of_update_none otherWaits)
            executed := consistent.executed
            acks := fun client other member => by
              dsimp only at member
              by_cases same : client = clientId nodeId thread
              · subst same
                rw [Function.update_self] at member
                exact consistent.acks _ other (by simp [queue, member])
              · rw [Function.update_of_ne same] at member
                exact consistent.acks client other member
            replies := by
              rw [List.forall_mem_append, List.forall_mem_singleton]
              exact ⟨consistent.replies, fair⟩ }

/-- What the learner changes. -/
structure Learned (nodeId : String) (system : System) (req : Paxos.Request)
    (uninitialised : Bool) (next : System) : Prop where
  asked : isLocal nodeId req = true → req.asked ∈ system.forwarded.map Paxos.Request.asked
  executed : ∃ result, execute req uninitialised system.world = (result, next.world) ∧
    next.executed = system.executed ++ [(req, result)] ∧
    ∀ client, ∀ ack ∈ next.ackQueue client, ack ∈ system.ackQueue client ∨
      isLocal nodeId req = true ∧ req.clientId = client ∧ ack = learnedAck req result
  nextId : next.nextId = system.nextId
  waiting : next.waiting = system.waiting
  requestQueue : next.requestQueue = system.requestQueue
  forwarded : next.forwarded = system.forwarded
  replies : next.replies = system.replies

theorem learned_of_learn {req : Paxos.Request} {uninitialised : Bool}
    (taken : system.learn nodeId req uninitialised = some next) :
    Learned nodeId system req uninitialised next := by
  unfold learn at taken
  split at taken
  · simp at taken
  · rename_i allowed
    have asked : isLocal nodeId req = true →
        req.asked ∈ system.forwarded.map Paxos.Request.asked := by
      intro here
      simpa [here] using allowed
    cases outcome : execute req uninitialised system.world with
    | mk result world =>
        rw [outcome] at taken
        dsimp only at taken
        split at taken
        · simp at taken
        · obtain rfl := Option.some.inj taken
          refine ⟨asked, ⟨result, outcome, rfl, fun client ack member => ?_⟩,
            rfl, rfl, rfl, rfl, rfl⟩
          dsimp only at member
          split at member
          · rename_i sent
            rw [Bool.and_eq_true, Bool.and_eq_true] at sent
            by_cases same : client = req.clientId
            · subst same
              rw [Function.update_self, List.mem_append, List.mem_singleton] at member
              exact member.imp_right fun isAck => ⟨sent.1.1, rfl, isAck⟩
            · rw [Function.update_of_ne same] at member
              exact .inl member
          · exact .inl member

theorem Consistent.learn {req : Paxos.Request} {uninitialised : Bool}
    (consistent : system.Consistent nodeId)
    (taken : system.learn nodeId req uninitialised = some next) : next.Consistent nodeId := by
  have learned := learned_of_learn taken
  obtain ⟨result, -, executed, acks⟩ := learned.executed
  have grows : system.executed ⊆ next.executed := by
    rw [executed]
    exact List.subset_append_left _ _
  have known (req : Paxos.Request) : next.Known req ↔ system.Known req := by
    unfold Known
    rw [learned.requestQueue, learned.forwarded]
  constructor
  case verified =>
    rw [learned.requestQueue]
    exact consistent.verified
  case numbered =>
    intro one isKnown
    rw [learned.nextId]
    exact consistent.numbered one ((known one).mp isKnown)
  case unique =>
    intro one other isKnown otherKnown
    exact consistent.unique one other ((known one).mp isKnown) ((known other).mp otherKnown)
  case waiting =>
    intro client one isWaiting
    rw [learned.waiting] at isWaiting
    rw [known, learned.nextId]
    exact consistent.waiting client one isWaiting
  case executed =>
    rw [executed, List.forall_mem_append, List.forall_mem_singleton]
    constructor
    · intro entry member here
      obtain ⟨sent, isKnown, same⟩ := consistent.executed entry member here
      exact ⟨sent, (known sent).mpr isKnown, same⟩
    · intro here
      obtain ⟨sent, isForwarded, same⟩ := List.mem_map.mp (learned.asked here)
      exact ⟨sent, (known sent).mpr (.inr isForwarded), same⟩
  case acks =>
    intro client ack member
    rcases acks client ack member with before | ⟨here, sameClient, rfl⟩
    · obtain ⟨made, isLocal, madeClient, answers⟩ := consistent.acks client ack before
      exact ⟨made, isLocal, madeClient, answers.mono grows⟩
    · exact ⟨req, here, sameClient, result, by simp [executed], rfl⟩
  case replies =>
    rw [learned.replies]
    exact fun reply member => (consistent.replies reply member).mono grows

/-- A thread that is not waiting takes a new id. -/
theorem Consistent.begun {client : String} (consistent : system.Consistent nodeId)
    (idle : system.waiting client = none) :
    ({ system with
      nextId := Function.update system.nextId client (system.nextId client + 1) } :
        System).Consistent nodeId where
  verified := consistent.verified
  numbered := by
    intro req isKnown
    have below := consistent.numbered req isKnown
    dsimp only
    by_cases same : req.clientId = client
    · rw [same, Function.update_self]
      rw [same] at below
      omega
    · rw [Function.update_of_ne same]
      exact below
  unique := consistent.unique
  waiting := by
    intro other req isWaiting
    have differs : other ≠ client := by
      rintro rfl
      rw [idle] at isWaiting
      exact Option.some_ne_none _ isWaiting.symm
    dsimp only
    rw [Function.update_of_ne differs]
    exact consistent.waiting other req isWaiting
  executed := consistent.executed
  acks := consistent.acks
  replies := consistent.replies

/-- `flush`. -/
theorem Consistent.flushed (consistent : system.Consistent nodeId) (client : String) :
    ({ system with ackQueue := Function.update system.ackQueue client [] } :
      System).Consistent nodeId where
  verified := consistent.verified
  numbered := consistent.numbered
  unique := consistent.unique
  waiting := consistent.waiting
  executed := consistent.executed
  acks := by
    intro other ack member
    dsimp only at member
    by_cases same : other = client
    · subst same
      simp at member
    · rw [Function.update_of_ne same] at member
      exact consistent.acks other ack member
  replies := consistent.replies

/-- A request with a new id enters the queue of the daemon. -/
theorem Consistent.queued {req : Paxos.Request} (consistent : system.Consistent nodeId)
    (verified : verifyRequest req = true)
    (fresh : req.requestId + 1 = system.nextId req.clientId)
    (newest : ∀ other, system.Known other → other.clientId = req.clientId →
      other.requestId < req.requestId) :
    ({ system with
      requestQueue := system.requestQueue ++ [req]
      waiting := Function.update system.waiting req.clientId (some req) } :
        System).Consistent nodeId := by
  have known (other : Paxos.Request) : ({ system with
      requestQueue := system.requestQueue ++ [req]
      waiting := Function.update system.waiting req.clientId (some req) } : System).Known other ↔
        system.Known other ∨ other = req := by
    simp only [Known, List.mem_append, List.mem_singleton]
    tauto
  have differs {other : Paxos.Request} (isKnown : system.Known other) :
      other.identity ≠ req.identity := by
    intro same
    obtain ⟨sameClient, sameId⟩ := Prod.mk.inj same
    have below := newest other isKnown sameClient
    omega
  constructor
  case verified =>
    rw [List.forall_mem_append, List.forall_mem_singleton]
    exact ⟨consistent.verified, verified⟩
  case numbered =>
    intro other isKnown
    rcases (known other).mp isKnown with before | rfl
    · exact consistent.numbered other before
    · dsimp only
      omega
  case unique =>
    intro first second firstKnown secondKnown same
    rcases (known first).mp firstKnown with firstBefore | rfl
    · rcases (known second).mp secondKnown with secondBefore | rfl
      · exact consistent.unique first second firstBefore secondBefore same
      · exact absurd same (differs firstBefore)
    · rcases (known second).mp secondKnown with secondBefore | rfl
      · exact absurd same.symm (differs secondBefore)
      · rfl
  case waiting =>
    intro client other isWaiting
    dsimp only at isWaiting
    by_cases same : client = req.clientId
    · subst same
      rw [Function.update_self] at isWaiting
      obtain rfl := Option.some.inj isWaiting
      exact ⟨(known _).mpr (.inr rfl), rfl, fresh⟩
    · rw [Function.update_of_ne same] at isWaiting
      obtain ⟨isKnown, rest⟩ := consistent.waiting client other isWaiting
      exact ⟨(known _).mpr (.inl isKnown), rest⟩
  case executed =>
    intro entry member here
    obtain ⟨sent, isKnown, same⟩ := consistent.executed entry member here
    exact ⟨sent, (known sent).mpr (.inl isKnown), same⟩
  case acks => exact consistent.acks
  case replies => exact consistent.replies

theorem Consistent.send {thread method : String} {args : List String}
    {type : Paxos.RequestType} (consistent : system.Consistent nodeId)
    (taken : system.send serializeAsString nodeId thread method args type = some next) :
    next.Consistent nodeId := by
  unfold System.send at taken
  dsimp only at taken
  split at taken
  · simp at taken
  · rename_i idle
    have begun := consistent.begun (Option.not_isSome_iff_eq_none.mp idle)
    split at taken
    · rename_i verified
      have flushed := begun.flushed (clientId nodeId thread)
      split at taken
      · obtain rfl := Option.some.inj taken
        refine flushed.queued verified ?_ fun other isKnown sameClient => ?_
        · exact (Function.update_self _ _ system.nextId).symm
        · have below := consistent.numbered other isKnown
          rw [sameClient] at below
          exact below
      · obtain rfl := Option.some.inj taken
        exact { flushed with
          replies := by
            rw [List.forall_mem_append, List.forall_mem_singleton]
            exact ⟨consistent.replies, fair_unanswered _ _⟩ }
    · obtain rfl := Option.some.inj taken
      exact begun

theorem Consistent.step {event : Event} (consistent : system.Consistent nodeId)
    (taken : system.step serializeAsString nodeId event = some next) :
    next.Consistent nodeId := by
  cases event with
  | send thread method args type => exact consistent.send taken
  | serve => exact consistent.serve taken
  | learn req uninitialised => exact consistent.learn taken
  | receive thread => exact consistent.receive taken
  | expire thread => exact consistent.expire taken

/-- Only the learner executes anything. -/
theorem step_replay {first : World} {event : Event}
    (replay : Replay first system.executed system.world)
    (taken : system.step serializeAsString nodeId event = some next) :
    Replay first next.executed next.world := by
  cases event with
  | send thread method args type =>
      simp only [step, send] at taken
      split at taken
      · simp at taken
      · split at taken
        · split at taken <;> (obtain rfl := Option.some.inj taken; exact replay)
        · obtain rfl := Option.some.inj taken
          exact replay
  | serve =>
      simp only [step, serve] at taken
      split at taken
      · simp at taken
      · obtain rfl := Option.some.inj taken
        exact replay
  | learn req uninitialised =>
      obtain ⟨result, outcome, executed, -⟩ := (learned_of_learn taken).executed
      rw [executed]
      exact replay.next outcome
  | receive thread =>
      simp only [step, receive] at taken
      split at taken
      · obtain rfl := Option.some.inj taken
        exact replay
      · simp at taken
  | expire thread =>
      simp only [step, expire] at taken
      split at taken
      · obtain rfl := Option.some.inj taken
        exact replay
      · simp at taken

end System

/-! ## Runs -/

/-- Whatever the threads, the daemon and the consensus do: the store is what the
executed requests made of it, one after the other.  Where `request` returned
true, the call in the thread returns or throws what the learner's execution of
the same request returned or threw.  Where it returned false, the call ends as
one of an earlier request of the same thread did, or returns false. -/
theorem calls_end_as_executed {serializeAsString : Paxos.Request → List UInt8} {nodeId : String}
    {world : World} {events : List Event} {system : System}
    (ran : run (System.step serializeAsString nodeId) (System.start world) events = some system) :
    Replay world system.executed system.world ∧
      ∀ reply ∈ system.replies,
        (reply.accepted = true → ∃ req result, (req, result) ∈ system.executed ∧
          req.asked = reply.req.asked ∧ processAck reply.ack = transported result) ∧
        (reply.accepted = false → processAck reply.ack = .ok false ∨
          ∃ req result, (req, result) ∈ system.executed ∧
            req.clientId = reply.req.clientId ∧ req.requestId < reply.req.requestId ∧
            processAck reply.ack = transported result) := by
  have always : Along (System.step serializeAsString nodeId) (fun _ _ => True)
      (System.start world) events :=
    along_of_forall (fun _ _ => trivial) (System.start world)
  obtain ⟨consistent, replay⟩ := invariant_run
    (fun system => system.Consistent nodeId ∧ Replay world system.executed system.world)
    (fun _ _ _ holds _ taken => ⟨holds.1.step taken, System.step_replay holds.2 taken⟩)
    ⟨System.start_consistent world, .nothing⟩ always ran
  refine ⟨replay, fun reply member => ⟨fun isAccepted => ?_, fun isRefused => ?_⟩⟩
  · obtain ⟨req, ⟨result, executed, isAck⟩, same⟩ :=
      (consistent.replies reply member).accepted isAccepted
    exact ⟨req, result, executed, same, by rw [isAck, processAck_learnedAck]⟩
  · rcases (consistent.replies reply member).refused isRefused with
      unset | ⟨req, ⟨result, executed, isAck⟩, same, earlier⟩
    · exact .inl (by rw [unset]; rfl)
    · exact .inr ⟨req, result, executed, same, earlier, by rw [isAck, processAck_learnedAck]⟩

/-- A thread gives up on its first request, and is given the answer to it in
place of the answer to its second one. -/
def lateAnswer : List Event :=
  let env := Paxos.Request.sealed (fun _ => [])
    (writeRequest "a|1" 0 "create_env" ["e"] .request)
  [.send "1" "create_env" ["e"] .request, .serve, .expire "1",
    .send "1" "add_host" ["h"] .request, .learn env false, .receive "1"]

/-- The second call returns true, although no host was added. -/
theorem late_answer_taken :
    ∃ system, run (System.step (fun _ => []) "a") (System.start .empty) lateAnswer =
        some system ∧
      Replay .empty system.executed system.world ∧
      system.replies.map (fun reply => (reply.req.method, reply.accepted, reply.ack.status)) =
        [("create_env", false, false), ("add_host", false, true)] := by
  have replies : (run (System.step (fun _ => []) "a") (System.start .empty) lateAnswer).map
      (fun system => system.replies.map fun reply =>
        (reply.req.method, reply.accepted, reply.ack.status)) =
      some [("create_env", false, false), ("add_host", false, true)] := by
    decide +kernel
  obtain ⟨system, ran, same⟩ := Option.map_eq_some_iff.mp replies
  exact ⟨system, ran, (calls_end_as_executed ran).1, same⟩

end Rangexx.Stored
