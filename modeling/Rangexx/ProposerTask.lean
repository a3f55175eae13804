import Rangexx.PaxosSystem

/-!
# The proposer's task

`Proposer::event_task` on its own, against any replies.  `log` tells what the
task did; the accepters are read anew by every `prepare`, and reading them may
fail.
-/

namespace Rangexx.Paxos

open EventRuns

namespace Proposer

/-! ## The two loops -/

/-- What the loops do next with a request. -/
inductive Next where
  | prepare (bowOut : Nat)
  | propose (bowOut : Nat)
  | leave
  deriving DecidableEq, Repr

/-- After `prepare`.  `bow_out` is counted up on a failure only, and the inner
loop is also left when it is 42. -/
def afterPrepare (bowOut : Nat) (prepared shutdown : Bool) : Next :=
  if shutdown then .leave
  else if prepared then .propose bowOut
  else if bowOut < 42 then .prepare (bowOut + 1)
  else .propose (bowOut + 1)

/-- After `propose`. -/
def afterPropose (bowOut : Nat) (proposed shutdown : Bool) : Next :=
  if proposed then .leave
  else if bowOut < 42 ∧ ¬ shutdown then .prepare bowOut
  else .leave

end Proposer

/-! ## The task -/

namespace ProposerTask

/-- Waiting for a request, or for the replies to what was sent for one. -/
inductive Phase where
  | waiting
  | preparing (req : Request) (bowOut : Nat)
  | proposing (req : Request) (bowOut : Nat)
  deriving DecidableEq, Repr

inductive Entry where
  | taken (req : Request)
  | sent (msg : Request) (accepters : List String)
  | received (results : Proposer.Results)
  deriving DecidableEq, Repr

/-- What happens to the task: it takes a request from the queue, or stops
waiting for the replies to a PREPARE or a PROPOSE.  `listed` and `read` are the
proposers and accepters that the range store returns then, if it does. -/
inductive Event where
  | take (req : Request) (listed : Option (List String)) (shutdown : Bool)
      (read : Option (List String))
  | prepared (results : Proposer.Results) (shutdown : Bool) (timestamp : Nat)
      (read : Option (List String))
  | proposed (results : Proposer.Results) (shutdown : Bool) (read : Option (List String))
  deriving DecidableEq, Repr

end ProposerTask

structure ProposerTask where
  proposalNumber : Nat
  accepters : List String
  phase : ProposerTask.Phase
  log : List ProposerTask.Entry
  deriving DecidableEq, Repr

namespace ProposerTask

/-- `proposal_number_` is not initialised. -/
def start (proposalNumber : Nat) : ProposerTask :=
  ⟨proposalNumber, [], .waiting, []⟩

section Steps

variable (serializeAsString : Request → List UInt8) (requestTimeout : Int) (nodeId : String)

/-- The configuration with the accepters read last. -/
def config (task : ProposerTask) : Config :=
  ⟨task.accepters, requestTimeout, serializeAsString⟩

def record (task : ProposerTask) (entry : Entry) : ProposerTask :=
  { task with log := task.log ++ [entry] }

/-- `prepare`, up to the wait for replies. -/
def prepare (task : ProposerTask) (req : Request) (bowOut : Nat) :
    Option (List String) → ProposerTask
  | none => { task with phase := .waiting }
  | some accepters =>
      let task := { task with accepters := accepters, phase := .preparing req bowOut }
      task.record (.sent (Proposer.prepareRequest (task.config serializeAsString requestTimeout)
        nodeId task.proposalNumber req) accepters)

/-- `propose`, up to the wait for replies. -/
def propose (task : ProposerTask) (req : Request) (bowOut timestamp : Nat) : ProposerTask :=
  { task with phase := .proposing req bowOut }.record
    (.sent (Proposer.proposeRequest (task.config serializeAsString requestTimeout) nodeId
      task.proposalNumber timestamp req) task.accepters)

/-- The loops go on with a request. -/
def resume (task : ProposerTask) (req : Request) (timestamp : Nat)
    (read : Option (List String)) : Proposer.Next → ProposerTask
  | .prepare bowOut => task.prepare serializeAsString requestTimeout nodeId req bowOut read
  | .propose bowOut => task.propose serializeAsString requestTimeout nodeId req bowOut timestamp
  | .leave => { task with phase := .waiting }

def step (task : ProposerTask) : Event → Option ProposerTask
  | .take req listed shutdown read =>
      match task.phase with
      | .waiting =>
          let task := task.record (.taken req)
          if listed.map (Proposer.distinguishedProposer · (req.type = .failover)) = some nodeId ∧
              ¬ shutdown then
            some (task.prepare serializeAsString requestTimeout nodeId req 1 read)
          else some task
      | _ => none
  | .prepared results shutdown timestamp read =>
      match task.phase with
      | .preparing req bowOut =>
          let (prepared, number) := Proposer.prepared (task.config serializeAsString requestTimeout)
            task.proposalNumber results
          let task := { task with proposalNumber := number }.record (.received results)
          some (task.resume serializeAsString requestTimeout nodeId req timestamp read
            (Proposer.afterPrepare bowOut prepared shutdown))
      | _ => none
  | .proposed results shutdown read =>
      match task.phase with
      | .proposing req bowOut =>
          let (proposed, number) := Proposer.proposed (task.config serializeAsString requestTimeout)
            task.proposalNumber results
          let task := { task with proposalNumber := number }.record (.received results)
          some (task.resume serializeAsString requestTimeout nodeId req 0 read
            (Proposer.afterPropose bowOut proposed shutdown))
      | _ => none

end Steps

/-! ## Promises before proposals -/

/-- A quorum of promises came for a PREPARE with the number of the message,
since the last request was taken. -/
def Promised (past : List Entry) (msg : Request) : Prop :=
  ∃ earlier later prepare accepters results,
    past = earlier ++ .sent prepare accepters :: .received results :: later ∧
      (∀ req, .taken req ∉ later) ∧
      prepare.type = .prepare ∧ prepare.proposalNum = msg.proposalNum ∧
      prepare.asked = msg.asked ∧
      (3 * accepters.length + 4) / 5 ≤ Proposer.countOf .promise results

/-- Every PROPOSE of a log was promised. -/
def Disciplined (log : List Entry) : Prop :=
  ∀ past msg accepters future, log = past ++ .sent msg accepters :: future →
    msg.type = .propose → Promised past msg

theorem disciplined_nil : Disciplined [] := by
  intro past msg accepters future split
  simp at split

theorem Disciplined.concat {log : List Entry} (disciplined : Disciplined log) {entry : Entry}
    (promised : ∀ msg accepters, entry = .sent msg accepters → msg.type = .propose →
      Promised log msg) : Disciplined (log ++ [entry]) := by
  intro past msg accepters future split isPropose
  rcases List.eq_nil_or_concat future with rfl | ⟨before, last, rfl⟩
  · obtain ⟨rfl, same⟩ := List.append_inj' split rfl
    exact promised msg accepters (List.singleton_inj.mp same) isPropose
  · rw [List.concat_eq_append, ← List.cons_append, ← List.append_assoc] at split
    exact disciplined past msg accepters before (List.append_inj' split rfl).1 isPropose

section Runs

variable {serializeAsString : Request → List UInt8} {requestTimeout : Int} {nodeId : String}

/-- The log is in order, and a task that waits for promises has just sent the
PREPARE. -/
structure Kept (serializeAsString : Request → List UInt8) (requestTimeout : Int)
    (nodeId : String) (task : ProposerTask) : Prop where
  disciplined : Disciplined task.log
  prepares : ∀ req bowOut, task.phase = .preparing req bowOut → bowOut ≤ 42 ∧
    ∃ earlier, task.log = earlier ++
      [.sent (Proposer.prepareRequest (task.config serializeAsString requestTimeout) nodeId
        task.proposalNumber req) task.accepters]

/-- The step is not the one after which a proposer bows out, and the quorum of
the accepters fits its type. -/
def WithinRetries (task : ProposerTask) : Event → Prop
  | .prepared results _ _ _ =>
      task.accepters.length ≤ 109225 ∧
        ∀ req, task.phase = .preparing req 42 →
          quorum task.accepters ≤ Proposer.countOf .promise results
  | _ => True

theorem Kept.of_disciplined {task : ProposerTask} (disciplined : Disciplined task.log)
    (idle : ∀ req bowOut, task.phase ≠ .preparing req bowOut) :
    Kept serializeAsString requestTimeout nodeId task :=
  ⟨disciplined, fun req bowOut preparing => absurd preparing (idle req bowOut)⟩

theorem kept_prepare {task : ProposerTask} (disciplined : Disciplined task.log) {req : Request}
    {bowOut : Nat} (few : bowOut ≤ 42) (read : Option (List String)) :
    Kept serializeAsString requestTimeout nodeId
      (task.prepare serializeAsString requestTimeout nodeId req bowOut read) := by
  cases read with
  | none => exact Kept.of_disciplined disciplined (by simp [prepare])
  | some accepters =>
      constructor
      · apply disciplined.concat
        intro msg listed eq isPropose
        obtain ⟨rfl, rfl⟩ := Entry.sent.inj eq
        simp [Proposer.prepareRequest, Request.sealed] at isPropose
      · intro other count preparing
        obtain ⟨rfl, rfl⟩ := Phase.preparing.inj preparing
        exact ⟨few, task.log, rfl⟩

theorem kept_propose {task : ProposerTask} (disciplined : Disciplined task.log) {req : Request}
    {bowOut timestamp : Nat}
    (promised : Promised task.log
      (Proposer.proposeRequest (task.config serializeAsString requestTimeout) nodeId
        task.proposalNumber timestamp req)) :
    Kept serializeAsString requestTimeout nodeId
      (task.propose serializeAsString requestTimeout nodeId req bowOut timestamp) := by
  apply Kept.of_disciplined
  · apply disciplined.concat
    intro msg listed eq _
    obtain ⟨rfl, rfl⟩ := Entry.sent.inj eq
    exact promised
  · simp [propose, record]

/-- The log after the replies to a PREPARE. -/
theorem disciplined_received {task : ProposerTask} (disciplined : Disciplined task.log)
    (results : Proposer.Results) : Disciplined (task.log ++ [.received results]) := by
  apply disciplined.concat
  intro msg accepters eq
  simp at eq

/-- The replies to a PREPARE that was just sent, if they hold a quorum, are the
promises for a PROPOSE with its number. -/
theorem promised_of_quorum {task : ProposerTask} {req : Request} {earlier : List Entry}
    (sent : task.log = earlier ++
      [.sent (Proposer.prepareRequest (task.config serializeAsString requestTimeout) nodeId
        task.proposalNumber req) task.accepters])
    {results : Proposer.Results} (fits : task.accepters.length ≤ 109225)
    (enough : quorum task.accepters ≤ Proposer.countOf .promise results) (timestamp : Nat) :
    Promised (task.log ++ [.received results])
      (Proposer.proposeRequest (task.config serializeAsString requestTimeout) nodeId
        task.proposalNumber timestamp req) := by
  rw [quorum_eq fits] at enough
  refine ⟨earlier, [], Proposer.prepareRequest (task.config serializeAsString requestTimeout)
    nodeId task.proposalNumber req, task.accepters, results, ?_, by simp, rfl, rfl, rfl, enough⟩
  rw [sent, List.append_assoc, List.singleton_append]

theorem Kept.prepared {task : ProposerTask}
    (kept : Kept serializeAsString requestTimeout nodeId task) {req : Request} {bowOut : Nat}
    (preparing : task.phase = .preparing req bowOut) {results : Proposer.Results}
    {shutdown : Bool} {timestamp : Nat} {read : Option (List String)}
    (within : task.WithinRetries (.prepared results shutdown timestamp read))
    {next : ProposerTask}
    (taken : task.step serializeAsString requestTimeout nodeId
      (.prepared results shutdown timestamp read) = some next) :
    Kept serializeAsString requestTimeout nodeId next := by
  obtain ⟨few, earlier, sent⟩ := kept.prepares req bowOut preparing
  have received := disciplined_received kept.disciplined results
  unfold step at taken
  rw [preparing] at taken
  dsimp only at taken
  by_cases enough : quorum task.accepters ≤ Proposer.countOf .promise results
  · have succeeds : Proposer.prepared (task.config serializeAsString requestTimeout)
        task.proposalNumber results = (true, task.proposalNumber) := if_pos enough
    rw [succeeds] at taken
    obtain rfl := Option.some.inj taken
    cases shutdown with
    | true => exact Kept.of_disciplined received (by simp [resume, Proposer.afterPrepare])
    | false => exact kept_propose received (promised_of_quorum sent within.1 enough timestamp)
  · have fails : Proposer.prepared (task.config serializeAsString requestTimeout)
        task.proposalNumber results =
          (false, Proposer.nextNumber task.proposalNumber results) := if_neg enough
    rw [fails] at taken
    obtain rfl := Option.some.inj taken
    cases shutdown with
    | true => exact Kept.of_disciplined received (by simp [resume, Proposer.afterPrepare])
    | false =>
        have less : bowOut < 42 := by
          apply Nat.lt_of_le_of_ne few
          rintro rfl
          exact enough (within.2 req preparing)
        simp only [Proposer.afterPrepare, Bool.false_eq_true, if_false, less, if_true, resume]
        exact kept_prepare received less read

theorem Kept.proposed {task : ProposerTask}
    (kept : Kept serializeAsString requestTimeout nodeId task) {req : Request} {bowOut : Nat}
    (proposing : task.phase = .proposing req bowOut) {results : Proposer.Results}
    {shutdown : Bool} {read : Option (List String)} {next : ProposerTask}
    (taken : task.step serializeAsString requestTimeout nodeId
      (.proposed results shutdown read) = some next) :
    Kept serializeAsString requestTimeout nodeId next := by
  have received := disciplined_received kept.disciplined results
  unfold step at taken
  rw [proposing] at taken
  obtain rfl := Option.some.inj taken
  unfold Proposer.afterPropose
  split
  · exact Kept.of_disciplined received (by simp [resume])
  · split
    · rename_i again
      exact kept_prepare received (Nat.le_of_lt again.1) read
    · exact Kept.of_disciplined received (by simp [resume])

theorem Kept.take {task : ProposerTask}
    (kept : Kept serializeAsString requestTimeout nodeId task) (waiting : task.phase = .waiting)
    {req : Request} {listed : Option (List String)} {shutdown : Bool}
    {read : Option (List String)} {next : ProposerTask}
    (taken : task.step serializeAsString requestTimeout nodeId (.take req listed shutdown read) =
      some next) :
    Kept serializeAsString requestTimeout nodeId next := by
  have marked : Disciplined (task.record (.taken req)).log :=
    kept.disciplined.concat fun msg accepters eq => by simp at eq
  unfold step at taken
  rw [waiting] at taken
  dsimp only at taken
  split at taken
  · obtain rfl := Option.some.inj taken
    exact kept_prepare marked (by omega) read
  · obtain rfl := Option.some.inj taken
    exact Kept.of_disciplined marked (by simp [record, waiting])

theorem Kept.step {task next : ProposerTask} {event : Event}
    (kept : Kept serializeAsString requestTimeout nodeId task)
    (within : task.WithinRetries event)
    (taken : task.step serializeAsString requestTimeout nodeId event = some next) :
    Kept serializeAsString requestTimeout nodeId next := by
  cases event with
  | take req listed shutdown read =>
      cases waiting : task.phase with
      | waiting => exact kept.take waiting taken
      | preparing => simp [ProposerTask.step, waiting] at taken
      | proposing => simp [ProposerTask.step, waiting] at taken
  | prepared results shutdown timestamp read =>
      cases preparing : task.phase with
      | preparing => exact kept.prepared preparing within taken
      | waiting => simp [ProposerTask.step, preparing] at taken
      | proposing => simp [ProposerTask.step, preparing] at taken
  | proposed results shutdown read =>
      cases proposing : task.phase with
      | proposing => exact kept.proposed proposing taken
      | waiting => simp [ProposerTask.step, proposing] at taken
      | preparing => simp [ProposerTask.step, proposing] at taken

/-- In a run without a 42nd failure of `prepare` for one request, every PROPOSE
was promised. -/
theorem proposals_promised {proposalNumber : Nat} {events : List Event} {final : ProposerTask}
    (within : Along (ProposerTask.step serializeAsString requestTimeout nodeId) WithinRetries
      (start proposalNumber) events)
    (ran : run (ProposerTask.step serializeAsString requestTimeout nodeId)
      (start proposalNumber) events = some final) :
    Disciplined final.log :=
  (invariant_run (Kept serializeAsString requestTimeout nodeId)
    (fun _ _ _ kept within taken => kept.step within taken)
    (Kept.of_disciplined disciplined_nil (by simp [start])) within ran).disciplined

end Runs

/-- Nothing was received, and something was sent to somebody. -/
def Entry.unanswered : Entry → Bool
  | .taken _ => true
  | .sent _ accepters => !accepters.isEmpty
  | .received results => results.isEmpty

theorem not_promised_of_unanswered {past : List Entry} (unanswered : past.all Entry.unanswered)
    (msg : Request) : ¬ Promised past msg := by
  rintro ⟨earlier, later, prepare, accepters, results, rfl, -, -, -, -, enough⟩
  simp only [List.all_append, List.all_cons, Entry.unanswered, Bool.and_eq_true,
    Bool.not_eq_true', List.isEmpty_eq_false_iff, List.isEmpty_iff] at unanswered
  obtain ⟨-, someAccepters, rfl, -⟩ := unanswered
  have positive := List.length_pos_iff.mpr someAccepters
  have none : Proposer.countOf .promise [] = 0 := rfl
  omega

/-- A request is taken, and no reply to a PREPARE ever arrives. -/
def failures (count : Nat) : List Event :=
  .take Request.unset (some [""]) false (some ["a"]) ::
    List.replicate count (.prepared [] false 0 (some ["a"]))

/-- After 42 failures the proposer proposes without any promise. -/
theorem proposal_not_promised :
    ¬ ∀ final : ProposerTask,
      run (ProposerTask.step (fun _ => []) 0 "") (start 1) (failures 42) = some final →
        Disciplined final.log := by
  intro disciplined
  have ends : ∃ final, run (ProposerTask.step (fun _ => []) 0 "") (start 1) (failures 42) =
      some final ∧ final.log.dropLast.all Entry.unanswered ∧
        final.log = final.log.dropLast ++
          [.sent (Proposer.proposeRequest ⟨[], 0, fun _ => []⟩ "" 43 0 Request.unset) ["a"]] :=
    ⟨_, rfl, by decide +kernel, by decide +kernel⟩
  obtain ⟨final, ran, unanswered, split⟩ := ends
  exact not_promised_of_unanswered unanswered _ (disciplined final ran _ _ _ [] split rfl)

/-- The accepter promises at the first try and accepts. -/
def success : List Event :=
  [.take Request.unset (some [""]) false (some ["a"]),
    .prepared [("a", Accepter.ackFor .promise true 1 Request.unset)] false 0 none,
    .proposed [("a", Accepter.ackFor .accepted true 1 Request.unset)] false none]

theorem proposals_promised_success :
    ∃ final, run (ProposerTask.step (fun _ => []) 0 "") (start 1) success = some final ∧
      final.log.length = 5 ∧ Disciplined final.log := by
  refine ⟨_, rfl, rfl, @proposals_promised (fun _ => []) 0 "" 1 success _ ?_ rfl⟩
  refine ⟨trivial, fun next taken => ⟨?_, fun _ _ => ⟨trivial, fun _ _ => trivial⟩⟩⟩
  obtain rfl := Option.some.inj taken
  exact ⟨by decide, fun _ preparing => absurd (Phase.preparing.inj preparing).2 (by decide)⟩

/-! ## In the system -/

/-- What a proposer of the system waits for. -/
def Phase.ofActivity : Proposer.Activity → Phase
  | .waiting => .waiting
  | .preparing req bowOut _ => .preparing req bowOut
  | .proposing req bowOut _ => .proposing req bowOut

/-- The task is where the proposer is. -/
structure Follows (config : Config) (task : ProposerTask) (proposer : Proposer) : Prop where
  number : task.proposalNumber = proposer.proposalNumber
  phase : task.phase = Phase.ofActivity proposer.activity
  accepters : proposer.activity ≠ .waiting → task.accepters = config.accepters

/-- Whose task takes part in an event of the system. -/
def takesPart : Paxos.Event → Option String
  | .request node _ _ | .prepared node _ _ | .proposed node _ => some node
  | .deliver _ _ | .learn _ _ _ => none

section System

variable {config : Config} {node : String} {system next : System} {task : ProposerTask}

theorem Follows.config_eq {proposer : Proposer} (follows : Follows config task proposer)
    (busy : proposer.activity ≠ .waiting) :
    task.config config.serializeAsString config.requestTimeout = config := by
  unfold ProposerTask.config
  rw [follows.accepters busy]

theorem follows_prepare {number : Nat} (same : task.proposalNumber = number) (req : Request)
    (bowOut : Nat) :
    Follows config
      (task.prepare config.serializeAsString config.requestTimeout node req bowOut
        (some config.accepters))
      ((system.prepare config node req number bowOut).proposers node) := by
  constructor
  · simp [prepare, record, System.prepare, System.setProposer, same]
  · simp [prepare, record, System.prepare, System.setProposer, Phase.ofActivity]
  · intro _
    rfl

theorem follows_propose {number : Nat} (same : task.proposalNumber = number)
    (read : task.accepters = config.accepters) (req : Request) (bowOut timestamp : Nat) :
    Follows config
      (task.propose config.serializeAsString config.requestTimeout node req bowOut timestamp)
      ((system.propose config node req number bowOut timestamp).proposers node) := by
  constructor
  · simp [propose, record, System.propose, System.setProposer, same]
  · simp [propose, record, System.propose, System.setProposer, Phase.ofActivity]
  · intro _
    exact read

theorem follows_rest {number : Nat} (same : task.proposalNumber = number)
    (waiting : task.phase = .waiting) :
    Follows config task ((system.setProposer node ⟨number, .waiting⟩).proposers node) := by
  constructor
  · simp [System.setProposer, same]
  · simp [System.setProposer, Phase.ofActivity, waiting]
  · simp [System.setProposer]

theorem follows_request {listed : List String} {req : Request}
    (follows : Follows config task (system.proposers node))
    (taken : system.request config node listed req = some next) :
    ∃ event final,
      task.step config.serializeAsString config.requestTimeout node event = some final ∧
        Follows config final (next.proposers node) := by
  unfold System.request at taken
  split at taken
  · rename_i ready
    have waiting : task.phase = .waiting := by
      rw [follows.phase, ready.1]
      rfl
    refine ⟨.take req (some listed) false (some config.accepters), ?_⟩
    unfold step
    rw [waiting]
    dsimp only
    split at taken
    · rename_i distinguished
      obtain rfl := Option.some.inj taken
      rw [if_pos ⟨congrArg some distinguished.symm, by simp⟩]
      exact ⟨_, rfl, follows_prepare (by exact follows.number) req 1⟩
    · rename_i notDistinguished
      obtain rfl := Option.some.inj taken
      rw [if_neg (fun distinguished =>
        notDistinguished (Option.some.inj distinguished.1).symm)]
      exact ⟨_, rfl, follows.number, follows.phase, follows.accepters⟩
  · simp at taken

theorem follows_prepared {results : Proposer.Results} {timestamp : Nat}
    (follows : Follows config task (system.proposers node))
    (taken : system.afterPrepare config node results timestamp = some next) :
    ∃ event final,
      task.step config.serializeAsString config.requestTimeout node event = some final ∧
        Follows config final (next.proposers node) := by
  unfold System.afterPrepare at taken
  cases activity : (system.proposers node).activity with
  | preparing req bowOut client =>
      rw [activity] at taken
      have busy : (system.proposers node).activity ≠ .waiting := by simp [activity]
      have preparing : task.phase = .preparing req bowOut := by
        rw [follows.phase, activity]
        rfl
      refine ⟨.prepared results false timestamp (some config.accepters), ?_⟩
      unfold step
      rw [preparing, follows.config_eq busy, follows.number]
      dsimp only at taken ⊢
      split at taken
      · cases outcome : Proposer.prepared config (system.proposers node).proposalNumber results with
        | mk prepared number =>
            rw [outcome] at taken
            refine ⟨_, rfl, ?_⟩
            cases prepared with
            | true =>
                obtain rfl := Option.some.inj taken
                exact follows_propose rfl (by exact follows.accepters busy) req bowOut timestamp
            | false =>
                dsimp only at taken
                split at taken
                · rename_i less
                  obtain rfl := Option.some.inj taken
                  simp only [Proposer.afterPrepare, Bool.false_eq_true, if_false, less, if_true,
                    resume]
                  exact follows_prepare rfl req (bowOut + 1)
                · rename_i last
                  obtain rfl := Option.some.inj taken
                  simp only [Proposer.afterPrepare, Bool.false_eq_true, if_false, last, resume]
                  exact follows_propose rfl (by exact follows.accepters busy) req (bowOut + 1) timestamp
      · simp at taken
  | waiting => simp [activity] at taken
  | proposing => simp [activity] at taken

theorem follows_proposed {results : Proposer.Results}
    (follows : Follows config task (system.proposers node))
    (taken : system.afterPropose config node results = some next) :
    ∃ event final,
      task.step config.serializeAsString config.requestTimeout node event = some final ∧
        Follows config final (next.proposers node) := by
  unfold System.afterPropose at taken
  cases activity : (system.proposers node).activity with
  | proposing req bowOut client =>
      rw [activity] at taken
      have busy : (system.proposers node).activity ≠ .waiting := by simp [activity]
      have proposing : task.phase = .proposing req bowOut := by
        rw [follows.phase, activity]
        rfl
      refine ⟨.proposed results false (some config.accepters), ?_⟩
      unfold step
      rw [proposing, follows.config_eq busy, follows.number]
      dsimp only at taken ⊢
      split at taken
      · cases outcome : Proposer.proposed config (system.proposers node).proposalNumber results with
        | mk proposed number =>
            rw [outcome] at taken
            refine ⟨_, rfl, ?_⟩
            cases proposed with
            | true =>
                obtain rfl := Option.some.inj taken
                exact follows_rest rfl rfl
            | false =>
                dsimp only at taken
                split at taken
                · rename_i less
                  obtain rfl := Option.some.inj taken
                  simp only [Proposer.afterPropose, Bool.false_eq_true, not_false_iff, and_true,
                    if_false, less, if_true, resume]
                  exact follows_prepare rfl req bowOut
                · rename_i last
                  obtain rfl := Option.some.inj taken
                  simp only [Proposer.afterPropose, Bool.false_eq_true, not_false_iff, and_true,
                    if_false, last, resume]
                  exact follows_rest rfl rfl
      · simp at taken
  | waiting => simp [activity] at taken
  | preparing => simp [activity] at taken

theorem setProposer_other {other : String} (ne : node ≠ other) (proposer : Proposer) :
    (system.setProposer other proposer).proposers node = system.proposers node :=
  Function.update_of_ne ne ..

theorem proposers_other {event : Paxos.Event} (other : takesPart event ≠ some node)
    (taken : system.step config event = some next) :
    next.proposers node = system.proposers node := by
  cases event with
  | request proposer listed req =>
      have ne : node ≠ proposer := fun same => other (congrArg some same.symm)
      simp only [System.step, System.request] at taken
      split at taken
      · split at taken
        · obtain rfl := Option.some.inj taken
          exact setProposer_other ne _
        · rw [Option.some.inj taken]
      · simp at taken
  | prepared proposer results timestamp =>
      have ne : node ≠ proposer := fun same => other (congrArg some same.symm)
      simp only [System.step, System.afterPrepare] at taken
      split at taken
      · split at taken
        · split at taken
          · obtain rfl := Option.some.inj taken
            exact setProposer_other ne _
          · split at taken
            · obtain rfl := Option.some.inj taken
              exact setProposer_other ne _
            · obtain rfl := Option.some.inj taken
              exact setProposer_other ne _
        · simp at taken
      · simp at taken
  | proposed proposer results =>
      have ne : node ≠ proposer := fun same => other (congrArg some same.symm)
      simp only [System.step, System.afterPropose] at taken
      split at taken
      · split at taken
        · split at taken
          · obtain rfl := Option.some.inj taken
            exact setProposer_other ne _
          · split at taken
            · obtain rfl := Option.some.inj taken
              exact setProposer_other ne _
            · obtain rfl := Option.some.inj taken
              exact setProposer_other ne _
        · simp at taken
      · simp at taken
  | deliver sender msg =>
      simp only [System.step, System.deliver] at taken
      split at taken
      · split at taken
        · obtain rfl := Option.some.inj taken
          unfold System.acceptTask
          dsimp only
          split <;> rfl
        · rw [Option.some.inj taken]
      · simp at taken
  | learn learner arrivals now =>
      simp only [System.step, System.learn] at taken
      split at taken
      · obtain rfl := Option.some.inj taken
        rfl
      · simp at taken

theorem follows_step {event : Paxos.Event}
    (follows : Follows config task (system.proposers node))
    (taken : system.step config event = some next) :
    ∃ events final,
      run (step config.serializeAsString config.requestTimeout node) task events = some final ∧
        Follows config final (next.proposers node) := by
  by_cases own : takesPart event = some node
  · have single : ∃ event final,
        task.step config.serializeAsString config.requestTimeout node event = some final ∧
          Follows config final (next.proposers node) := by
      cases event with
      | request proposer listed req =>
          obtain rfl := Option.some.inj own
          exact follows_request follows taken
      | prepared proposer results timestamp =>
          obtain rfl := Option.some.inj own
          exact follows_prepared follows taken
      | proposed proposer results =>
          obtain rfl := Option.some.inj own
          exact follows_proposed follows taken
      | deliver => simp [takesPart] at own
      | learn => simp [takesPart] at own
    obtain ⟨taskEvent, final, stepped, ends⟩ := single
    have nothing : run (step config.serializeAsString config.requestTimeout node) task [] =
        some task := rfl
    exact ⟨[taskEvent], final, run_concat nothing stepped, ends⟩
  · rw [proposers_other own taken]
    exact ⟨[], task, rfl, follows⟩

/-- In every run of the system, each proposer runs its task. -/
theorem follows_run {proposalNumber acceptedProposalNum : String → Nat}
    {events : List Paxos.Event}
    (ran : run (System.step config) (System.start proposalNumber acceptedProposalNum) events =
      some system) (node : String) :
    ∃ events final,
      run (step config.serializeAsString config.requestTimeout node) (start (proposalNumber node))
        events = some final ∧ Follows config final (system.proposers node) := by
  refine invariant_run (fun system => ∃ events final,
      run (step config.serializeAsString config.requestTimeout node) (start (proposalNumber node))
        events = some final ∧ Follows config final (system.proposers node))
    ?_ ⟨[], start (proposalNumber node), rfl, rfl, rfl, by simp [System.start]⟩
    (along_of_forall (fun _ _ => trivial) _) ran
  rintro system event next ⟨past, task, reached, follows⟩ _ taken
  obtain ⟨more, final, onward, ends⟩ := follows_step follows taken
  exact ⟨past ++ more, final, by rw [run_append reached, onward], ends⟩

end System

end ProposerTask

end Rangexx.Paxos
