import Mathlib.Logic.Function.Basic
import Rangexx.EventRuns
import Rangexx.PaxosProcesses

/-!
# The Paxos processes and their network

The state of all processes together with every datagram that was sent.  A
datagram can be delivered at any time after it was sent, any number of times or
never.  A client's sockets are its own: replies to a client that has returned
are lost.
-/

namespace Rangexx.Paxos

open Proposer Learner

inductive Datagram where
  | toAccepter (sender : Socket) (msg : Request)
  | reply (receiver : Socket) (ack : Ack)
  | toLearners (msg : Request)
  deriving DecidableEq

structure System where
  proposers : String → Proposer
  accepters : String → Accepter
  learners : String → Learner
  clients : Nat
  sent : List Datagram

inductive Event where
  /-- A proposer takes a request from its queue, when `listed` are the
  proposers. -/
  | request (proposer : String) (listed : List String) (req : Request)
  /-- A proposer stops waiting for replies to a PREPARE. -/
  | prepared (proposer : String) (results : Results) (timestamp : Nat)
  /-- A proposer stops waiting for replies to a PROPOSE. -/
  | proposed (proposer : String) (results : Results)
  /-- A datagram reaches the accepter it was sent to. -/
  | deliver (sender : Socket) (msg : Request)
  /-- A learner runs its task on the datagrams that reached it. -/
  | learn (learner : String) (arrivals : List Arrival) (now : Int)

namespace System

/-- The processes have sent nothing yet.  The proposal numbers of proposers
and the accepted numbers of accepters are not initialised. -/
def start (proposalNumber acceptedProposalNum : String → Nat) : System where
  proposers := fun node => ⟨proposalNumber node, .waiting⟩
  accepters := fun node => ⟨0, acceptedProposalNum node⟩
  learners := fun _ => ⟨∅, []⟩
  clients := 0
  sent := []

variable (config : Config)

def setProposer (system : System) (node : String) (proposer : Proposer) : System :=
  { system with proposers := Function.update system.proposers node proposer }

/-- A new client sends a request to every accepter. -/
def sendToAccepters (system : System) (msg : Request) : System :=
  { system with
    clients := system.clients + 1
    sent := system.sent ++
      config.accepters.map fun host => .toAccepter ⟨system.clients, host⟩ msg }

/-- `prepare`, up to the wait for replies. -/
def prepare (system : System) (node : String) (req : Request) (proposalNumber bowOut : Nat) :
    System :=
  (system.sendToAccepters config (prepareRequest config node proposalNumber req)).setProposer node
    ⟨proposalNumber, .preparing req bowOut system.clients⟩

/-- `propose`, up to the wait for replies. -/
def propose (system : System) (node : String) (req : Request)
    (proposalNumber bowOut timestamp : Nat) : System :=
  (system.sendToAccepters config
    (proposeRequest config node proposalNumber timestamp req)).setProposer node
    ⟨proposalNumber, .proposing req bowOut system.clients⟩

/-- Replies that can have arrived at the sockets of a client. -/
def CanReceive (system : System) (client : Nat) (results : Results) : Prop :=
  (results.map Prod.fst).Nodup ∧
    ∀ result ∈ results, .reply ⟨client, result.1⟩ result.2 ∈ system.sent

instance (system : System) (client : Nat) (results : Results) :
    Decidable (system.CanReceive client results) :=
  inferInstanceAs (Decidable (_ ∧ _))

/-- The start of `Proposer::event_task` for a request. -/
def request (system : System) (node : String) (listed : List String) (req : Request) :
    Option System :=
  if (system.proposers node).activity = .waiting ∧
      (req.type = .request ∨ req.type = .failover) then
    if node = distinguishedProposer listed (req.type = .failover) then
      some (system.prepare config node req (system.proposers node).proposalNumber 1)
    else some system
  else none

/-- From the end of `prepare` to the next wait.  After 42 failures `propose` is
called all the same. -/
def afterPrepare (system : System) (node : String) (results : Results) (timestamp : Nat) :
    Option System :=
  match (system.proposers node).activity with
  | .preparing req bowOut client =>
      if system.CanReceive client results then
        match Proposer.prepared config (system.proposers node).proposalNumber results with
        | (true, number) => some (system.propose config node req number bowOut timestamp)
        | (false, number) =>
            if bowOut < 42 then some (system.prepare config node req number (bowOut + 1))
            else some (system.propose config node req number (bowOut + 1) timestamp)
      else none
  | _ => none

/-- From the end of `propose` to the next wait. -/
def afterPropose (system : System) (node : String) (results : Results) : Option System :=
  match (system.proposers node).activity with
  | .proposing req bowOut client =>
      if system.CanReceive client results then
        match Proposer.proposed config (system.proposers node).proposalNumber results with
        | (true, number) => some (system.setProposer node ⟨number, .waiting⟩)
        | (false, number) =>
            if bowOut < 42 then some (system.prepare config node req number bowOut)
            else some (system.setProposer node ⟨number, .waiting⟩)
      else none
  | _ => none

/-- `Accepter::event_task` for a request the listener submitted. -/
def acceptTask (system : System) (sender : Socket) (req : Request) : System :=
  let accepter := system.accepters sender.host
  match req.type with
  | .prepare =>
      let (ack, accepter) := accepter.promise req
      { system with
        accepters := Function.update system.accepters sender.host accepter
        sent := system.sent ++ [.reply sender ack] }
  | .propose =>
      let (ack, learn, accepter) := accepter.accept config req
      { system with
        accepters := Function.update system.accepters sender.host accepter
        sent := system.sent ++ .reply sender ack :: (learn.map .toLearners).toList }
  | _ => system

def deliver (system : System) (sender : Socket) (msg : Request) : Option System :=
  if .toAccepter sender msg ∈ system.sent then
    match receiveHandler config.serializeAsString sender (.parsed msg) with
    | .submit req => some (system.acceptTask config sender req)
    | _ => some system
  else none

def learn (system : System) (node : String) (arrivals : List Arrival) (now : Int) :
    Option System :=
  if ∀ arrival ∈ arrivals, .toLearners arrival.msg ∈ system.sent then
    some { system with
      learners := Function.update system.learners node
        ((system.learners node).eventTask config arrivals now) }
  else none

def step (system : System) : Event → Option System
  | .request node listed req => system.request config node listed req
  | .prepared node results timestamp => system.afterPrepare config node results timestamp
  | .proposed node results => system.afterPropose config node results
  | .deliver sender msg => system.deliver config sender msg
  | .learn node arrivals now => system.learn config node arrivals now

end System

end Rangexx.Paxos
