import Mathlib.Order.Bounds.Basic
import Rangexx.PaxosTraces

/-!
# What an accepter answers

An accepter together with the acks it has sent since its start.  The promised
number is the greatest number in a PROMISE, and the accepted number is at least
every number in an ACCEPTED, whatever the constructor left in it.
-/

namespace Rangexx.Paxos

open EventRuns

/-- The numbers in the acks of a type. -/
def ackNumbers (type : AckType) (acks : List Ack) : List Nat :=
  (acks.filter fun ack => ack.type = type).map Ack.proposalNum

theorem ackNumbers_concat (type : AckType) (acks : List Ack) (ack : Ack) :
    ackNumbers type (acks ++ [ack]) =
      ackNumbers type acks ++ (if ack.type = type then [ack.proposalNum] else []) := by
  by_cases isType : ack.type = type
  · simp [ackNumbers, isType]
  · simp [ackNumbers, isType]

theorem ackNumbers_concat_of_ne {type : AckType} {ack : Ack} (differ : ack.type ≠ type)
    (acks : List Ack) : ackNumbers type (acks ++ [ack]) = ackNumbers type acks := by
  rw [ackNumbers_concat, if_neg differ, List.append_nil]

theorem mem_ackNumbers_ackFor {type : AckType} {status : Bool} {proposalNum : Nat}
    {req : Request} {acks : List Ack} {number : Nat} :
    number ∈ ackNumbers type (acks ++ [Accepter.ackFor type status proposalNum req]) ↔
      number ∈ ackNumbers type acks ∨ number = proposalNum := by
  have own : (Accepter.ackFor type status proposalNum req).type = type := rfl
  rw [ackNumbers_concat, if_pos own, List.mem_append, List.mem_singleton]
  rfl

structure Answering where
  accepter : Accepter
  sent : List Ack
  deriving DecidableEq, Repr

namespace Answering

/-- `accepted_proposal_num_` is not initialised. -/
def start (acceptedProposalNum : Nat) : Answering :=
  ⟨⟨0, acceptedProposalNum⟩, []⟩

variable (config : Config)

/-- `Accepter::event_task` for one request. -/
def take (answering : Answering) (req : Request) : Answering :=
  match req.type with
  | .prepare =>
      let (ack, accepter) := answering.accepter.promise req
      ⟨accepter, answering.sent ++ [ack]⟩
  | .propose =>
      let (ack, _, accepter) := answering.accepter.accept config req
      ⟨accepter, answering.sent ++ [ack]⟩
  | _ => answering

def takes (answering : Answering) (requests : List Request) : Answering :=
  requests.foldl (take config) answering

theorem take_prepare {req : Request} (isPrepare : req.type = .prepare) (answering : Answering) :
    (answering.take config req).accepter = (answering.accepter.promise req).2 := by
  unfold take
  rw [isPrepare]

theorem take_propose {req : Request} (isPropose : req.type = .propose) (answering : Answering) :
    (answering.take config req).accepter = (answering.accepter.accept config req).2.2 := by
  unfold take
  rw [isPropose]

/-- What is left alone, promised, accepted or refused by a request. -/
inductive Answer (answering : Answering) (req : Request) : Answering → Prop
  | ignored (other : req.type ≠ .prepare ∧ req.type ≠ .propose) :
      Answer answering req answering
  | promised (greater : answering.accepter.promisedProposalNum < req.proposalNum) :
      Answer answering req
        ⟨⟨req.proposalNum, answering.accepter.acceptedProposalNum⟩,
          answering.sent ++ [Accepter.ackFor .promise true req.proposalNum req]⟩
  | accepted (current : req.proposalNum = answering.accepter.promisedProposalNum)
      (fresh : answering.accepter.acceptedProposalNum < req.proposalNum) :
      Answer answering req
        ⟨⟨answering.accepter.promisedProposalNum, answering.accepter.promisedProposalNum⟩,
          answering.sent ++
            [Accepter.ackFor .accepted true answering.accepter.promisedProposalNum req]⟩
  | refused :
      Answer answering req
        ⟨answering.accepter, answering.sent ++ [answering.accepter.nack req]⟩

theorem take_answer (answering : Answering) (req : Request) :
    Answer answering req (answering.take config req) := by
  unfold take
  split
  · unfold Accepter.promise
    by_cases stale : req.proposalNum ≤ answering.accepter.promisedProposalNum
    · rw [if_pos stale]
      exact .refused
    · rw [if_neg stale]
      exact .promised (Nat.lt_of_not_le stale)
  · unfold Accepter.accept
    by_cases stale : req.proposalNum ≠ answering.accepter.promisedProposalNum ∨
        req.proposalNum ≤ answering.accepter.acceptedProposalNum
    · rw [if_pos stale]
      exact .refused
    · rw [if_neg stale]
      push Not at stale
      exact .accepted stale.1 stale.2
  · rename_i notPrepare notPropose
    exact .ignored ⟨notPrepare, notPropose⟩

/-- How the numbers of an accepter go with the acks it has sent. -/
structure Consistent (answering : Answering) : Prop where
  promisedBound : ∀ number ∈ ackNumbers .promise answering.sent,
    number ≤ answering.accepter.promisedProposalNum
  promisedSent : answering.accepter.promisedProposalNum = 0 ∨
    answering.accepter.promisedProposalNum ∈ ackNumbers .promise answering.sent
  acceptedBound : ∀ number ∈ ackNumbers .accepted answering.sent,
    number ≤ answering.accepter.acceptedProposalNum

theorem Consistent.start (acceptedProposalNum : Nat) : Consistent (start acceptedProposalNum) where
  promisedBound := by simp [Answering.start, ackNumbers]
  promisedSent := Or.inl rfl
  acceptedBound := by simp [Answering.start, ackNumbers]

theorem Consistent.answer {answering next : Answering} {req : Request}
    (consistent : Consistent answering) (answer : Answer answering req next) :
    Consistent next := by
  have notAccepted : (Accepter.ackFor .promise true req.proposalNum req).type ≠ .accepted := nofun
  have notPromised : (Accepter.ackFor .accepted true answering.accepter.promisedProposalNum
      req).type ≠ .promise := nofun
  have neither : (answering.accepter.nack req).type ≠ .promise ∧
      (answering.accepter.nack req).type ≠ .accepted := ⟨nofun, nofun⟩
  cases answer with
  | ignored => exact consistent
  | promised greater =>
      constructor
      · intro number member
        rcases mem_ackNumbers_ackFor.mp member with earlier | rfl
        · exact (consistent.promisedBound number earlier).trans (Nat.le_of_lt greater)
        · exact Nat.le_refl _
      · exact Or.inr (mem_ackNumbers_ackFor.mpr (Or.inr rfl))
      · rw [ackNumbers_concat_of_ne notAccepted]
        exact consistent.acceptedBound
  | accepted current fresh =>
      constructor
      · rw [ackNumbers_concat_of_ne notPromised]
        exact consistent.promisedBound
      · rw [ackNumbers_concat_of_ne notPromised]
        exact consistent.promisedSent
      · intro number member
        rcases mem_ackNumbers_ackFor.mp member with earlier | rfl
        · calc number ≤ answering.accepter.acceptedProposalNum :=
                consistent.acceptedBound number earlier
            _ ≤ req.proposalNum := Nat.le_of_lt fresh
            _ = answering.accepter.promisedProposalNum := current
        · exact Nat.le_refl _
  | refused =>
      constructor
      · rw [ackNumbers_concat_of_ne neither.1]
        exact consistent.promisedBound
      · rw [ackNumbers_concat_of_ne neither.1]
        exact consistent.promisedSent
      · rw [ackNumbers_concat_of_ne neither.2]
        exact consistent.acceptedBound

theorem Consistent.takes {answering : Answering} (consistent : Consistent answering)
    (requests : List Request) : Consistent (answering.takes config requests) := by
  induction requests generalizing answering with
  | nil => exact consistent
  | cons req rest ih => exact ih (consistent.answer (take_answer config answering req))

/-- What a PROMISE, an ACCEPTED or a NACK may say after the acks sent before,
when the promised number is the given one. -/
structure Truthful (sent : List Ack) (promised : Nat) (ack : Ack) : Prop where
  promise : ack.type = .promise →
    ack.proposalNum = promised ∧ ∀ number ∈ ackNumbers .promise sent, number < ack.proposalNum
  accepted : ack.type = .accepted →
    ack.proposalNum ∉ ackNumbers .accepted sent ∧
      IsGreatest {number | number ∈ ackNumbers .promise sent} ack.proposalNum
  nack : ack.type = .nack → ack.proposalNum = promised

theorem Consistent.truthful {answering next : Answering} {req : Request}
    (consistent : Consistent answering) (answer : Answer answering req next) :
    answering.accepter.promisedProposalNum ≤ next.accepter.promisedProposalNum ∧
      ∃ acks : List Ack, next.sent = answering.sent ++ acks ∧ acks.length ≤ 1 ∧
        ∀ ack ∈ acks, Truthful answering.sent next.accepter.promisedProposalNum ack := by
  cases answer with
  | ignored => exact ⟨Nat.le_refl _, [], (List.append_nil _).symm, by simp⟩
  | promised greater =>
      refine ⟨Nat.le_of_lt greater, _, rfl, Nat.le_refl 1, fun ack member => ?_⟩
      obtain rfl := List.mem_singleton.mp member
      constructor
      · intro _
        refine ⟨rfl, fun number earlier => ?_⟩
        exact Nat.lt_of_le_of_lt (consistent.promisedBound number earlier) greater
      · intro isAccepted
        simp [Accepter.ackFor] at isAccepted
      · intro isNack
        simp [Accepter.ackFor] at isNack
  | accepted current fresh =>
      refine ⟨Nat.le_refl _, _, rfl, Nat.le_refl 1, fun ack member => ?_⟩
      obtain rfl := List.mem_singleton.mp member
      constructor
      · intro isPromise
        simp [Accepter.ackFor] at isPromise
      · intro _
        constructor
        · intro earlier
          have bound := consistent.acceptedBound _ earlier
          exact absurd (current.trans_le bound) (Nat.not_le_of_lt fresh)
        · refine ⟨?_, consistent.promisedBound⟩
          rcases consistent.promisedSent with zero | sent
          · omega
          · exact sent
      · intro isNack
        simp [Accepter.ackFor] at isNack
  | refused =>
      refine ⟨Nat.le_refl _, _, rfl, Nat.le_refl 1, fun ack member => ?_⟩
      obtain rfl := List.mem_singleton.mp member
      constructor
      · intro isPromise
        simp [Accepter.nack, Accepter.ackFor] at isPromise
      · intro isAccepted
        simp [Accepter.nack, Accepter.ackFor] at isAccepted
      · intro _
        rfl

theorem takes_concat (answering : Answering) (past : List Request) (req : Request) :
    answering.takes config (past ++ [req]) = (answering.takes config past).take config req := by
  simp [takes]

/-- After any requests, the next one leaves or raises the promised number, and
what is sent for it is truthful. -/
theorem accepter_invariant (acceptedProposalNum : Nat) (past : List Request) (req : Request) :
    ((start acceptedProposalNum).takes config past).accepter.promisedProposalNum ≤
        ((start acceptedProposalNum).takes config (past ++ [req])).accepter.promisedProposalNum ∧
      ∃ acks : List Ack,
        ((start acceptedProposalNum).takes config (past ++ [req])).sent =
            ((start acceptedProposalNum).takes config past).sent ++ acks ∧
          acks.length ≤ 1 ∧
          ∀ ack ∈ acks,
            Truthful ((start acceptedProposalNum).takes config past).sent
              ((start acceptedProposalNum).takes config (past ++ [req])).accepter.promisedProposalNum
              ack := by
  have consistent := (Consistent.start acceptedProposalNum).takes config past
  rw [takes_concat]
  exact consistent.truthful (take_answer config _ req)

end Answering

/-! ## In the system -/

namespace System

variable {config : Config} {system next : System} {event : Event}

/-- Every accepter is as if it had only taken requests. -/
def Answers (config : Config) (acceptedProposalNum : String → Nat) (system : System) : Prop :=
  ∀ host, ∃ requests : List Request,
    system.accepters host =
      ((Answering.start (acceptedProposalNum host)).takes config requests).accepter

variable {acceptedProposalNum : String → Nat}

theorem Answers.take (answers : Answers config acceptedProposalNum system) (req : Request)
    {host : String} {accepter : Accepter}
    (taken : ∀ answering : Answering, answering.accepter = system.accepters host →
      (answering.take config req).accepter = accepter) {sent : List Datagram} :
    Answers config acceptedProposalNum
      { system with
        accepters := Function.update system.accepters host accepter
        sent := sent } := by
  intro other
  by_cases same : other = host
  · subst same
    obtain ⟨requests, eq⟩ := answers other
    refine ⟨requests ++ [req], ?_⟩
    rw [Answering.takes_concat, taken _ eq.symm]
    exact Function.update_self ..
  · obtain ⟨requests, eq⟩ := answers other
    refine ⟨requests, ?_⟩
    rw [← eq]
    exact Function.update_of_ne same ..

theorem Answers.move (answers : Answers config acceptedProposalNum system)
    (move : Move config system event next) : Answers config acceptedProposalNum next := by
  cases move with
  | @promises sender msg inFlight isPrepare =>
      apply answers.take { msg with crc := 0, sender := some sender }
      intro answering eq
      rw [← eq]
      exact Answering.take_prepare config (by exact isPrepare) answering
  | @accepts sender msg inFlight isPropose =>
      apply answers.take { msg with crc := 0, sender := some sender }
      intro answering eq
      rw [← eq]
      exact Answering.take_propose config (by exact isPropose) answering
  | idle | prepares | proposes | bowsOut | rests | learns => exact answers

theorem answers_run {proposalNumber : String → Nat} {events : List Event} {final : System}
    (ran : run (step config) (start proposalNumber acceptedProposalNum) events = some final) :
    Answers config acceptedProposalNum final :=
  invariant_run (Answers config acceptedProposalNum)
    (fun _ _ _ answers _ taken => answers.move (step_move taken))
    (fun _ => ⟨[], rfl⟩) (along_of_forall (fun _ _ => trivial) _) ran

end System

end Rangexx.Paxos
