import Rangexx.KeyedTable
import Rangexx.StoredMessages

/-!
# The Paxos processes

The functions of `paxos_proposer.cpp`, `paxos_accepter.cpp` and
`paxos_learner.cpp`.  `prepare` and `propose` of the source send a request and
then wait for replies; here each is cut at the wait, so that the rest of the
system can act in between.  Members that no constructor initialises can have
any value at first.
-/

namespace Rangexx.Paxos

/-- What the processes read from the configuration: the accepters that the
range store lists, `stored_request_timeout` and the serialisation. -/
structure Config where
  accepters : List String
  requestTimeout : Int
  serializeAsString : Request → List UInt8

def nodeChecksum (nodeId : String) : UInt32 :=
  crc32 nodeId.toUTF8.toList

/-! ## The proposer -/

namespace Proposer

/-- Where the thread is in `event_task`: waiting for a request, or waiting for
the replies to a request that the numbered client sent. -/
inductive Activity where
  | waiting
  | preparing (req : Request) (bowOut client : Nat)
  | proposing (req : Request) (bowOut client : Nat)
  deriving DecidableEq, Repr

end Proposer

structure Proposer where
  proposalNumber : Nat
  activity : Proposer.Activity
  deriving DecidableEq, Repr

namespace Proposer

/-- `distinguished_proposer`, given the list of proposers. -/
def distinguishedProposer (proposers : List String) (secondary : Bool) : String :=
  match proposers with
  | [] => ""
  | first :: rest =>
      match secondary, rest with
      | true, second :: _ => second
      | _, _ => first

/-- The request that `prepare` sends. -/
def prepareRequest (config : Config) (nodeId : String) (proposalNumber : Nat) (req : Request) :
    Request :=
  Request.sealed config.serializeAsString
    { req with
      type := .prepare
      proposalNum := proposalNumber
      proposerId := nodeChecksum nodeId }

/-- The request that `propose` sends. -/
def proposeRequest (config : Config) (nodeId : String) (proposalNumber timestamp : Nat)
    (req : Request) : Request :=
  Request.sealed config.serializeAsString
    { req with
      type := .propose
      proposalNum := proposalNumber
      proposerId := nodeChecksum nodeId
      timestamp := timestamp }

/-- The replies that arrived in time, by host. -/
abbrev Results :=
  List (String × Ack)

def countOf (type : AckType) (results : Results) : Nat :=
  results.countP fun result => result.2.type = type

def highestSeenProposal (proposalNumber : Nat) (results : Results) : Nat :=
  results.foldl (fun highest result =>
    if result.2.type = .nack then max result.2.proposalNum highest else highest) proposalNumber

def nextNumber (proposalNumber : Nat) (results : Results) : Nat :=
  (highestSeenProposal proposalNumber results + 1) % 2 ^ 64

/-- The end of `prepare`: whether it succeeds, and the proposal number. -/
def prepared (config : Config) (proposalNumber : Nat) (results : Results) : Bool × Nat :=
  if quorum config.accepters ≤ countOf .promise results then (true, proposalNumber)
  else (false, nextNumber proposalNumber results)

/-- The end of `propose`. -/
def proposed (config : Config) (proposalNumber : Nat) (results : Results) : Bool × Nat :=
  (decide (quorum config.accepters ≤ countOf .accepted results),
    nextNumber proposalNumber results)

end Proposer

/-! ## The accepter -/

structure Accepter where
  promisedProposalNum : Nat
  acceptedProposalNum : Nat
  deriving DecidableEq, Repr

namespace Accepter

/-- The reply to a request. -/
def ackFor (type : AckType) (status : Bool) (proposalNum : Nat) (req : Request) : Ack where
  status := status
  clientId := req.clientId
  requestId := req.requestId
  code := 0
  reason := ""
  type := type
  proposalNum := proposalNum
  proposerId := req.proposerId

def nack (accepter : Accepter) (req : Request) : Ack :=
  ackFor .nack false accepter.promisedProposalNum req

def promise (accepter : Accepter) (req : Request) : Ack × Accepter :=
  if req.proposalNum ≤ accepter.promisedProposalNum then (accepter.nack req, accepter)
  else
    (ackFor .promise true req.proposalNum req,
      { accepter with promisedProposalNum := req.proposalNum })

/-- `accept`, with the request it sends to the learners. -/
def accept (config : Config) (accepter : Accepter) (req : Request) :
    Ack × Option Request × Accepter :=
  if req.proposalNum ≠ accepter.promisedProposalNum ∨
      req.proposalNum ≤ accepter.acceptedProposalNum then (accepter.nack req, none, accepter)
  else
    (ackFor .accepted true accepter.promisedProposalNum req,
      some (Request.sealed config.serializeAsString { req with type := .learn }),
      { accepter with acceptedProposalNum := accepter.promisedProposalNum })

end Accepter

/-! ## The learner -/

structure PendingLearnedRequest where
  lastSeen : Int
  req : Request
  seenCount : Nat
  neededCount : Nat
  deriving DecidableEq, Repr

/-- The learner with the requests `learn` was called on, in order. -/
structure Learner where
  pendingLearnedRequests : AList fun _ : Nat => PendingLearnedRequest
  learned : List Request
  deriving DecidableEq

namespace Learner

/-- A request taken from the queue, with the time, and the value that the
uninitialised `seen_count` has if an entry is made for the request. -/
structure Arrival where
  sender : Socket
  msg : Request
  now : Int
  seenCount : Nat
  deriving DecidableEq, Repr

/-- The entry a request is counted in. -/
def entryFor (config : Config) (learner : Learner) (req : Request) (seenCount : Nat) :
    PendingLearnedRequest :=
  match learner.pendingLearnedRequests.lookup req.proposalNum with
  | some entry => entry
  | none => ⟨0, req, seenCount, quorum config.accepters⟩

/-- The loop of `event_task` for one request. -/
def take (config : Config) (learner : Learner) (req : Request) (now : Int) (seenCount : Nat) :
    Learner :=
  let entry := learner.entryFor config req seenCount
  let entry := if req.crc = entry.req.crc then
      { entry with lastSeen := now, seenCount := (entry.seenCount + 1) % 2 ^ 64 }
    else entry
  { learner with
    pendingLearnedRequests := learner.pendingLearnedRequests.insert req.proposalNum entry }

/-- An entry that `cleanup_dead_requests` drops.  The clock counts nanoseconds,
the time-out is in milliseconds. -/
def Dead (config : Config) (now : Int) (entry : PendingLearnedRequest) : Prop :=
  entry.seenCount < entry.neededCount ∧
    config.requestTimeout < (now - entry.lastSeen).tdiv 1000000

instance (config : Config) (now : Int) (entry : PendingLearnedRequest) :
    Decidable (Dead config now entry) :=
  inferInstanceAs (Decidable (_ ∧ _))

def cleanupDeadRequests (config : Config) (learner : Learner) (now : Int) : Learner :=
  { learner with
    pendingLearnedRequests :=
      KeyedTable.eraseWhere (Dead config now) learner.pendingLearnedRequests }

/-- `learn_completed_requests`: the entry with the smallest number is learned
if it is complete. -/
def learnCompletedRequests (learner : Learner) : Learner :=
  match learner.pendingLearnedRequests.keys.min? with
  | none => learner
  | some number =>
      match learner.pendingLearnedRequests.lookup number with
      | none => learner
      | some entry =>
          if entry.neededCount ≤ entry.seenCount then
            ⟨learner.pendingLearnedRequests.erase number, learner.learned ++ [entry.req]⟩
          else learner

/-- What the listener submits of a datagram, if it goes to the learner. -/
def submitted (config : Config) (arrival : Arrival) : Option Request :=
  match receiveHandler config.serializeAsString arrival.sender (.parsed arrival.msg) with
  | .submit req => if req.type = .learn then some req else none
  | _ => none

/-- The listener and one round of the loop for a datagram. -/
def receive (config : Config) (learner : Learner) (arrival : Arrival) : Learner :=
  match submitted config arrival with
  | none => learner
  | some req => learner.take config req arrival.now arrival.seenCount

/-- `event_task`, with the datagrams that were queued. -/
def eventTask (config : Config) (learner : Learner) (arrivals : List Arrival) (now : Int) :
    Learner :=
  ((arrivals.foldl (receive config) learner).cleanupDeadRequests config now).learnCompletedRequests

end Learner

end Rangexx.Paxos
