import Mathlib.Logic.Function.Basic
import Rangexx.EventRuns
import Rangexx.StoredMessages
import Rangexx.TransactionLog

/-!
# Writes through the daemon

With `use_stored`, a call of the write API does not change the store itself.
The thread puts a request into a queue, the daemon hands the request to the
proposers, and the learner of the thread's own node, having executed the call,
puts an acknowledgement into a queue of the thread.  What the learner catches
goes over as a code and a text, and the thread throws it again.

Every thread has a client id of its own.  Which requests are learned, how often
and in which order is up to the consensus of the proposers and the accepters.
-/

namespace Rangexx

/-! ## Methods and errors -/

namespace WriteMethod

/-- `num_arguments`. -/
def numArguments : WriteMethod → Nat
  | createEnv | removeEnv | addHost => 1
  | addClusterToEnv | removeClusterFromEnv | removeCluster | removeHost => 2
  | addClusterToCluster | removeClusterFromCluster | addHostToCluster | removeHostFromCluster
  | removeKeyFromNode => 3
  | addNodeKeyValue | removeNodeKeyValue | addNodeExtDependency | removeNodeExtDependency => 4

/-- The methods of `num_arguments` and `write_api_symtable`. -/
def all : List WriteMethod :=
  [createEnv, removeEnv, addClusterToEnv, removeClusterFromEnv, addClusterToCluster,
    removeClusterFromCluster, removeCluster, addHostToCluster, removeHostFromCluster, addHost,
    removeHost, addNodeKeyValue, removeNodeKeyValue, removeKeyFromNode, addNodeExtDependency,
    removeNodeExtDependency]

/-- `find` in one of the two tables. -/
def find (name : String) : Option WriteMethod :=
  all.find? fun method => method.name = name

end WriteMethod

/-- `RangeAPI_v1::ErrorCode`. -/
inductive ErrorCode where
  | createNodeException
  | edgeNotFoundException
  | incorrectNodeTypeException
  | invalidEnvironmentException
  | nodeExistsException
  | nodeNotFoundException
  | unknown
  deriving DecidableEq, Repr

namespace ErrorCode

def number : ErrorCode → Nat
  | createNodeException => 1
  | edgeNotFoundException => 2
  | incorrectNodeTypeException => 3
  | invalidEnvironmentException => 4
  | nodeExistsException => 5
  | nodeNotFoundException => 6
  | unknown => 7

/-- The case of the `switch` of `process_ack`, if there is one. -/
def ofNumber : Nat → Option ErrorCode
  | 1 => some createNodeException
  | 2 => some edgeNotFoundException
  | 3 => some incorrectNodeTypeException
  | 4 => some invalidEnvironmentException
  | 5 => some nodeExistsException
  | 6 => some nodeNotFoundException
  | 7 => some unknown
  | _ => none

@[simp]
theorem ofNumber_number (code : ErrorCode) : ofNumber code.number = some code := by
  cases code <;> rfl

end ErrorCode

namespace ApiError

/-- The first `catch` clause of `learn` that takes the exception. -/
def code : ApiError → ErrorCode
  | createNode _ => .createNodeException
  | edgeNotFound _ => .edgeNotFoundException
  | incorrectNodeType _ => .incorrectNodeTypeException
  | invalidEnvironment _ => .invalidEnvironmentException
  | nodeExists _ => .nodeExistsException
  | nodeNotFound _ => .nodeNotFoundException
  | graphCycle _ | incorrectNumberOfArguments _ | keyNotFound _ | database _ => .unknown
  | outOfBounds | nullPointer => .unknown

/-- `what()`. -/
def what : ApiError → String
  | createNode text | edgeNotFound text | graphCycle text | incorrectNodeType text
  | invalidEnvironment text | nodeExists text | nodeNotFound text
  | incorrectNumberOfArguments text | keyNotFound text => text
  | database (.databaseVersioning found expected) =>
      "changehistory inconsistent with graph version, found: " ++ toString found ++
        ", expected " ++ toString expected
  | database .outOfBounds | outOfBounds | nullPointer => ""

/-- The error stands for undefined behaviour, not for an exception. -/
def undefined : ApiError → Bool
  | database .outOfBounds | outOfBounds | nullPointer => true
  | _ => false

end ApiError

/-! ## Requests and acknowledgements -/

namespace Stored

/-- An `Ack` nothing was parsed into. -/
def unsetAck : Paxos.Ack where
  status := false
  clientId := ""
  requestId := 0
  code := 0
  reason := ""
  type := .ack
  proposalNum := 0
  proposerId := 0

/-- `verify_request`. -/
def verifyRequest (req : Paxos.Request) : Bool :=
  req.method = "none" || (WriteMethod.find req.method).any fun method =>
    req.args.length = method.numArguments

/-- The request of a `WriteRequest`, before its checksum is set. -/
def writeRequest (clientId : String) (requestId : Nat) (method : String) (args : List String)
    (type : Paxos.RequestType) : Paxos.Request :=
  { Paxos.Request.unset with clientId, requestId, method, args, type }

/-- The result of a call, or the text and the code of what it threw. -/
abbrev Outcome :=
  Except (ErrorCode × String) Bool

/-- `process_ack`. -/
def processAck (ack : Paxos.Ack) : Outcome :=
  if ack.status then .ok true
  else
    match ErrorCode.ofNumber ack.code with
    | some code => .error (code, ack.reason)
    | none => .ok false

/-- The client of the request is a thread of this node. -/
def isLocal (nodeId : String) (req : Paxos.Request) : Bool :=
  req.clientId.toList.take (nodeId.length + 1) = (nodeId ++ "|").toList

/-- The acknowledgement that `learn` sends. -/
def learnedAck (req : Paxos.Request) (result : Except ApiError Bool) : Paxos.Ack :=
  let ack := { unsetAck with clientId := req.clientId, requestId := req.requestId }
  match result with
  | .ok success => { ack with status := success }
  | .error error => { ack with code := error.code.number, reason := error.what }

/-- The call that `learn` finds for a request; `success` is not initialised when
there is none. -/
def execute (req : Paxos.Request) (uninitialised : Bool) : Api Bool :=
  match WriteMethod.find req.method with
  | some method => WriteCall.run ⟨method, req.args, req.proposerId.toNat⟩
  | none => pure uninitialised

/-- `learn` goes on to the acknowledgement; it returns at a wrong number of
arguments. -/
def acknowledges : Except ApiError Bool → Bool
  | .error (.incorrectNumberOfArguments _) => false
  | _ => true

/-- The call ran into undefined behaviour. -/
def undefinedResult : Except ApiError Bool → Bool
  | .ok _ => false
  | .error error => error.undefined

/-- What becomes of a result on its way to the thread. -/
def transported : Except ApiError Bool → Outcome
  | .ok success => .ok success
  | .error error => .error (error.code, error.what)

/-- The thread returns what the call returned, and throws what it threw. -/
theorem processAck_learnedAck (req : Paxos.Request) (result : Except ApiError Bool) :
    processAck (learnedAck req result) = transported result := by
  cases result with
  | ok success => cases success <;> rfl
  | error error => simp [processAck, learnedAck, transported, unsetAck]

/-! ## The queues -/

/-- What `send` of a `WriteRequest` ends with: what `request` returned, which it
does not look at, and the acknowledgement that it returns. -/
structure Reply where
  req : Paxos.Request
  accepted : Bool
  ack : Paxos.Ack
  deriving DecidableEq

/-- The threads and the daemon of one node.  `executed` is what the learner has
executed, with the results, and `replies` what the threads were given. -/
structure System where
  world : World
  nextId : String → Nat
  waiting : String → Option Paxos.Request
  requestQueue : List Paxos.Request
  forwarded : List Paxos.Request
  ackQueue : String → List Paxos.Ack
  executed : List (Paxos.Request × Except ApiError Bool)
  replies : List Reply

inductive Event where
  /-- A thread sends a write request. -/
  | send (thread method : String) (args : List String) (type : Paxos.RequestType)
  /-- The daemon takes a request from its queue. -/
  | serve
  /-- The learner executes a request. -/
  | learn (req : Paxos.Request) (uninitialised : Bool)
  /-- A thread takes an acknowledgement from its queue. -/
  | receive (thread : String)
  /-- A thread has waited for too long. -/
  | expire (thread : String)

namespace System

/-- `qlen`. -/
def capacity : Nat := 512

def start (world : World) : System where
  world := world
  nextId := fun _ => 0
  waiting := fun _ => none
  requestQueue := []
  forwarded := []
  ackQueue := fun _ => []
  executed := []
  replies := []

variable (serializeAsString : Paxos.Request → List UInt8) (nodeId : String)

/-- `CLIENT_ID`; a thread stands for the ids of its process and its own. -/
def clientId (thread : String) : String :=
  nodeId ++ "|" ++ thread

/-- `send` of a `WriteRequest`, up to the wait.  The thread is not waiting for
another request.  A request with a wrong number of arguments is thrown back, and
one that finds the queue full for too long ends at once. -/
def send (system : System) (thread method : String) (args : List String)
    (type : Paxos.RequestType) : Option System :=
  let client := clientId nodeId thread
  let req := Paxos.Request.sealed serializeAsString
    (writeRequest client (system.nextId client) method args type)
  let begun := { system with
    nextId := Function.update system.nextId client (system.nextId client + 1) }
  if (system.waiting client).isSome then none
  else if verifyRequest req then
    let flushed := { begun with ackQueue := Function.update system.ackQueue client [] }
    if system.requestQueue.length < capacity then
      some { flushed with
        requestQueue := system.requestQueue ++ [req]
        waiting := Function.update system.waiting client (some req) }
    else some { flushed with replies := system.replies ++ [⟨req, false, unsetAck⟩] }
  else some begun

/-- `MQServer::event_task`, for one request. -/
def serve (system : System) : Option System :=
  match system.requestQueue with
  | [] => none
  | req :: rest =>
      some { system with
        requestQueue := rest
        forwarded := if verifyRequest req then system.forwarded ++ [req] else system.forwarded }

/-- `Learner::learn`.  A request of this node that is learned is one that was
forwarded, with the marks of the consensus on it.  An acknowledgement that finds
its queue full is lost, and wrong numbers of arguments are not acknowledged. -/
def learn (system : System) (req : Paxos.Request) (uninitialised : Bool) : Option System :=
  if isLocal nodeId req && req.asked ∉ system.forwarded.map Paxos.Request.asked then none
  else
    let (result, world) := execute req uninitialised system.world
    let acks := system.ackQueue req.clientId
    if undefinedResult result then none
    else some { system with
      world := world
      executed := system.executed ++ [(req, result)]
      ackQueue :=
        if isLocal nodeId req && acknowledges result && acks.length < capacity then
          Function.update system.ackQueue req.clientId (acks ++ [learnedAck req result])
        else system.ackQueue }

/-- `request`, from the wait on. -/
def receive (system : System) (thread : String) : Option System :=
  let client := clientId nodeId thread
  match system.waiting client, system.ackQueue client with
  | some req, ack :: rest =>
      some { system with
        waiting := Function.update system.waiting client none
        ackQueue := Function.update system.ackQueue client rest
        replies := system.replies ++
          [⟨req, ack.requestId = req.requestId && ack.clientId = req.clientId, ack⟩] }
  | _, _ => none

def expire (system : System) (thread : String) : Option System :=
  let client := clientId nodeId thread
  match system.waiting client with
  | some req =>
      some { system with
        waiting := Function.update system.waiting client none
        replies := system.replies ++ [⟨req, false, unsetAck⟩] }
  | none => none

def step (system : System) : Event → Option System
  | .send thread method args type =>
      system.send serializeAsString nodeId thread method args type
  | .serve => system.serve
  | .learn req uninitialised => system.learn nodeId req uninitialised
  | .receive thread => system.receive nodeId thread
  | .expire thread => system.expire nodeId thread

end System

end Stored

end Rangexx
