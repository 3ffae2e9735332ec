import TransferQueue.ClientSubscription
import TransferQueue.Server
import TransferQueue.Subscription

/-! The handlers of HTTP and RPC requests. A request is parsed into a job; the job runs as a
session that calls the buffer, waits, polls, sleeps or sends, next to all other sessions; and
what it ends with becomes a reply. Protobuf and its JSON are parameters. -/

namespace TransferQueue

section Messages

structure BatchWriteRequest where
  trajectories : List Trajectory
  deriving DecidableEq

structure BatchWriteResponse where
  success : Bool
  writtenCount : Int32
  deriving DecidableEq

structure BatchReadRequest where
  maxGroups : Int32
  block : Bool
  timeoutMs : Int32
  deriving DecidableEq

/-- Nothing sets the meta information. -/
structure BatchReadResult where
  success : Bool
  message : String
  groups : List TrajectoryGroup
  deriving DecidableEq

/-- The message of POST /buffer/write. -/
structure WriteRequest where
  uid : String
  instanceId : String
  messages : List ChatMessage
  reward : ℚ
  extraInfo : List (String × String)

def WriteRequest.trajectory (req : WriteRequest) : Trajectory :=
  ⟨req.uid, req.instanceId, req.messages, req.reward, req.extraInfo⟩

/-- The responses of the HTTP routes; all but the rollout data have the same two fields. -/
inductive HttpMessage where
  | outcome (success : Bool) (message : String)
  | rolloutData (success : Bool) (message : String) (data : List Trajectory)

/-- The messages of the RPC verbs. `unfilled` is what stands in the string of a message that
`SerializeToArray` refuses. -/
structure RpcCodecs where
  batchWriteRequest : Codec BatchWriteRequest
  batchWriteResponse : Codec BatchWriteResponse
  batchReadRequest : Codec BatchReadRequest
  batchReadResult : Codec BatchReadResult
  bufferStatus : Codec BufferShard.BufferStatus
  trajectoryGroup : Codec TrajectoryGroup
  subscribeRequest : Codec SubscribeRequest
  unfilled : List UInt8

/-- `JsonStringToMessage` and `MessageToJsonString`; an error is its status as a string. -/
structure Json where
  writeRequest : String → Except String WriteRequest
  configRequest : String → Except String ConfigBody
  print : HttpMessage → Except String String

end Messages

/-- `what()` of a failure; that of a system error is left to the parameter. -/
def Failure.what (systemError : Failure → String) : Failure → String
  | .runtimeError what => what
  | failure => systemError failure

/-- What a handler does with the buffer. -/
inductive Job where
  | call (request : Request)
  | readBlocking (maxGroups timeoutMs : Int32)
  | subscribe (prefetchGroups : Int32)
  | configure (req : ConfigRequest)

section Http

/-- The routes, with what their requests carry. -/
inductive HttpCall where
  | write (body : String)
  | getRolloutData (body : String)
  | config (body : String)
  | reset (body : String)
  | deleteInstance (instanceId : String)

structure Reply where
  status : ℕ
  contentType : String
  body : String
  deriving DecidableEq

namespace HttpHandler
variable (json : Json) (systemError : Failure → String)

def jsonReply (msg : HttpMessage) : Reply :=
  match json.print msg with
  | .error status => ⟨500, "text/plain", "Failed to serialize response: " ++ status⟩
  | .ok text => ⟨200, "json", text⟩

def errorReply (status : ℕ) (message : String) : Reply := ⟨status, "text/plain", message⟩

/-- What a handler does before it calls the buffer, or why it refuses. -/
def job : HttpCall → Except String Job
  | .write body =>
    match json.writeRequest body with
    | .error status => .error ("Invalid JSON: " ++ status)
    | .ok req => .ok (.call (.write req.trajectory))
  | .getRolloutData _ => .ok (.call (.readReadyGroups 100))
  | .config body =>
    match json.configRequest body with
    | .error status => .error ("Invalid JSON: " ++ status)
    | .ok body => .ok (.configure body.message)
  | .reset _ => .ok (.call .reset)
  | .deleteInstance instanceId =>
    if instanceId = "" then .error "Missing instance_id"
    else .ok (.call (.deleteInstance instanceId))

/-- What a handler makes of the result of its call. Every exception is a bad request, but for
that of a deletion: its reply has been moved to the handler, and what it would be written to
is a null pointer. -/
def reply (call : HttpCall) (response : Response) : Option Reply :=
  match call, response with
  | .write _, .written (.ok success) =>
    some (jsonReply json (.outcome success (if success then "OK" else "Duplicate UID")))
  | .write _, .written (.error e) => some (errorReply 400 (e.what systemError))
  | .getRolloutData _, .groups (.ok groups) =>
    some (jsonReply json (.rolloutData true "OK" (groups.flatMap TrajectoryGroup.trajectories)))
  | .getRolloutData _, .groups (.error e) => some (errorReply 400 (e.what systemError))
  | .config _, .done (.ok _) => some (jsonReply json (.outcome true "Config updated"))
  | .config _, .done (.error e) => some (errorReply 400 (e.what systemError))
  | .reset _, .done (.ok _) => some (jsonReply json (.outcome true "Buffer reset"))
  | .reset _, .done (.error e) => some (errorReply 400 (e.what systemError))
  | .deleteInstance _, .done (.ok _) => some (jsonReply json (.outcome true "Instance deleted"))
  | _, _ => none

end HttpHandler
end Http

section Rpc

inductive Verb where
  | batchWrite
  | batchRead
  | getStatus
  | subscribe
  deriving DecidableEq

/-- What an RPC gets in the end, if its stream does not break. -/
inductive RpcReply where
  | data (bytes : List UInt8)
  | exception (what : String)
  deriving DecidableEq

namespace RpcHandler
variable (codecs : RpcCodecs) (systemError : Failure → String)

/-- The result of `SerializeToArray` is not looked at. -/
def serializeProto {α : Type} (codec : Codec α) (msg : α) : List UInt8 :=
  (codec.serialize msg).getD codecs.unfilled

def parseProto {α : Type} (codec : Codec α) (data : List UInt8) : Except String α :=
  match codec.parse data with
  | none => .error "Failed to parse protobuf message"
  | some msg => .ok msg

def job (data : List UInt8) : Verb → Except String Job
  | .batchWrite =>
    (parseProto codecs.batchWriteRequest data).map fun req => .call (.batchWrite req.trajectories)
  | .batchRead =>
    (parseProto codecs.batchReadRequest data).map fun req =>
      if req.block then .readBlocking req.maxGroups req.timeoutMs
      else .call (.readReadyGroups req.maxGroups)
  | .getStatus => .ok (.call .getStatus)
  | .subscribe =>
    (parseProto codecs.subscribeRequest data).map fun req => .subscribe req.prefetchGroups

/-- Exceptions go to the caller. -/
def reply (verb : Verb) (response : Response) : Option RpcReply :=
  match verb, response with
  | .batchWrite, .counted (.ok count) =>
    some (.data (serializeProto codecs codecs.batchWriteResponse ⟨true, Int32.ofNat count⟩))
  | .batchWrite, .counted (.error e) => some (.exception (e.what systemError))
  | .batchRead, .groups (.ok groups) =>
    some (.data (serializeProto codecs codecs.batchReadResult ⟨true, "", groups⟩))
  | .batchRead, .groups (.error e) => some (.exception (e.what systemError))
  | .getStatus, .status status => some (.data (serializeProto codecs codecs.bufferStatus status))
  | .subscribe, .groups (.error e) => some (.exception (e.what systemError))
  | _, _ => none

end RpcHandler
end Rpc

/-- Where a request comes from. -/
inductive Source where
  | http (call : HttpCall)
  | rpc (verb : Verb) (data : List UInt8)

def Source.job (json : Json) (codecs : RpcCodecs) : Source → Except String Job
  | .http call => HttpHandler.job json call
  | .rpc verb data => RpcHandler.job codecs data verb

/-- A blocking read: its limit, its deadline, and whether it is a round of a stream. -/
structure Poll where
  maxGroups : Int32
  deadline : ℤ
  streams : Bool

/-- Where a session is: refused; waiting for its call; waiting for the answer to a poll;
asleep; waiting for the read after the polls; sending what it has read; about to confirm
a configuration; ended with a result, or in the middle of a batch. -/
inductive Phase where
  | refused (what : String)
  | calling (c : ℕ)
  | polling (poll : Poll) (c : ℕ)
  | sleeping (poll : Poll) (wake : ℤ)
  | reading (poll : Poll) (c : ℕ)
  | sending (poll : Poll) (rest : List TrajectoryGroup)
  | configured
  | ended (response : Response)
  | broken

namespace Phase

def awaits : Phase → Option ℕ
  | calling c => some c
  | polling _ c => some c
  | reading _ c => some c
  | _ => none

def held : Phase → List TrajectoryGroup
  | sending _ rest => rest
  | _ => []

def replied : Phase → List TrajectoryGroup
  | ended response => response.given
  | _ => []

end Phase

/-- The last two fields are history: what the sink has taken, and what of a batch it has not. -/
structure Session where
  source : Source
  phase : Phase
  sent : List TrajectoryGroup := []
  dropped : List TrajectoryGroup := []

section Answers
variable (json : Json) (codecs : RpcCodecs) (systemError : Failure → String)

inductive Answer where
  | http (reply : Reply)
  | rpc (reply : RpcReply)
  deriving DecidableEq

def Source.refuse (what : String) : Source → Answer
  | .http _ => .http (HttpHandler.errorReply 400 what)
  | .rpc _ _ => .rpc (.exception what)

def Source.answer (source : Source) (response : Response) : Option Answer :=
  match source with
  | .http call => (HttpHandler.reply json systemError call response).map .http
  | .rpc verb _ => (RpcHandler.reply codecs systemError verb response).map .rpc

def Session.answer (session : Session) : Option Answer :=
  match session.phase with
  | .refused what => some (session.source.refuse what)
  | .ended response => session.source.answer json codecs systemError response
  | _ => none

def Session.messages (session : Session) : List (List UInt8) :=
  session.sent.map (RpcHandler.serializeProto codecs codecs.trajectoryGroup)

end Answers

abbrev Move := Phase × Option Request

section Moves
variable (clock : ℤ) (fresh : ℕ)

def milliseconds (n : ℤ) : ℤ := n * 1000000

/-- A blocking read polls at once. -/
def Poll.begin (maxGroups : Int32) (timeoutMs : ℤ) (streams : Bool) : Move :=
  (.polling ⟨maxGroups, clock + milliseconds timeoutMs, streams⟩ fresh, some .hasReadyGroups)

/-- A round of `handle_subscribe`. -/
def Poll.round (prefetch : Int32) : Move := Poll.begin clock fresh prefetch 1000 true

/-- The first move of a job, up to its first wait. -/
def Job.begin : Job → Move
  | .call request => (.calling fresh, some request)
  | .readBlocking maxGroups timeoutMs => Poll.begin clock fresh maxGroups timeoutMs.toInt false
  | .subscribe prefetchGroups =>
    Poll.round clock fresh (if 0 < prefetchGroups then prefetchGroups else 1)
  | .configure _ => (.configured, none)

def Poll.read (poll : Poll) : Move := (.reading poll fresh, some (.readReadyGroups poll.maxGroups))

/-- The continuation of a session, if what it waits for is there: the answer to its call, or
the time. -/
def Phase.next (response : ℕ → Option Response) : Phase → Move
  | .calling c =>
    match response c with
    | some result => (.ended result, none)
    | none => (.calling c, none)
  | .polling poll c =>
    match response c with
    | some (.ready true) => poll.read fresh
    | some (.ready false) =>
      if poll.deadline ≤ clock then poll.read fresh
      else (.sleeping poll (clock + milliseconds 10), none)
    | _ => (.polling poll c, none)
  | .sleeping poll wake =>
    if wake ≤ clock then (.polling poll fresh, some .hasReadyGroups)
    else (.sleeping poll wake, none)
  | .reading poll c =>
    match response c with
    | some (.groups (.ok groups)) =>
      if poll.streams then
        if groups = [] then Poll.round clock fresh poll.maxGroups else (.sending poll groups, none)
      else (.ended (.groups (.ok groups)), none)
    | some result => (.ended result, none)
    | none => (.reading poll c, none)
  | .sending poll [] => Poll.round clock fresh poll.maxGroups
  | .configured => (.ended (.done (.ok ())), none)
  | phase => (phase, none)

end Moves

/-- What becomes of the message that a session is sending. The rest of the batch is dropped
when the message is refused, and it is gone when the session has waited for the message. -/
def Session.sink (outcome : SendOutcome) (session : Session) : Session :=
  match session.phase with
  | .sending poll (group :: rest) =>
    let sent := session.sent ++ [group]
    match outcome with
    | .ready => { session with phase := .sending poll rest, sent }
    | .pending =>
      if rest = [] then { session with phase := .sending poll rest, sent }
      else { session with phase := .broken, sent, dropped := session.dropped ++ rest }
    | .refused => { session with phase := .broken, dropped := session.dropped ++ group :: rest }
  | _ => session

/-- The server with its handlers, the clock in nanoseconds and the sessions in the order of their
requests. `callers` is history: the session that has made each call. -/
structure Deployment (k : ℕ) where
  server : Server k
  clock : ℤ
  sessions : List Session
  callers : List ℕ

/-- A request comes in, a session goes on, a sink takes a message or refuses it, time passes, or a
core of the server has something to do. -/
inductive DeploymentAction (k : ℕ) where
  | accept (source : Source)
  | proceed (n : ℕ)
  | sink (n : ℕ) (outcome : SendOutcome)
  | tick (nanoseconds : ℕ)
  | arrive (c : ℕ) (i : Fin k)
  | resume (i : Fin k) (j : ℕ)

namespace Deployment
variable {k : ℕ}

def create (k : ℕ) (config : TransferQueueConfig) (bitCount numHashes : ℕ) : Deployment k :=
  ⟨.create k config bitCount numHashes, 0, [], []⟩

variable [NeZero k] (env : Fin k → Env) (stdHash : String → ℕ) (json : Json) (codecs : RpcCodecs)

def ask (n : ℕ) (request : Option Request) (s : Deployment k) : Deployment k :=
  match request with
  | none => s
  | some request =>
    { s with
      server := (s.server.step env stdHash (.call request)).2
      callers := s.callers ++ [n] }

def fresh (s : Deployment k) : ℕ := s.server.calls.length

/-- A configuration is changed before its handler waits for the shards. -/
def configure (job : Job) (s : Deployment k) : Deployment k :=
  match job with
  | .configure req => { s with server := (s.server.step env stdHash (.configure req)).2 }
  | _ => s

def accept (source : Source) (s : Deployment k) : Deployment k :=
  match source.job json codecs with
  | .error what => { s with sessions := s.sessions ++ [⟨source, .refused what, [], []⟩] }
  | .ok job =>
    let move := job.begin s.clock s.fresh
    ask env stdHash s.sessions.length move.2
      { configure env stdHash job s with
        sessions := s.sessions ++ [⟨source, move.1, [], []⟩] }

def proceed (n : ℕ) (s : Deployment k) : Deployment k :=
  match s.sessions[n]? with
  | none => s
  | some session =>
    let move := session.phase.next s.clock s.fresh fun c => s.server.responseOf stdHash c
    ask env stdHash n move.2
      { s with sessions := s.sessions.set n { session with phase := move.1 } }

def act (s : Deployment k) : DeploymentAction k → Deployment k
  | .accept source => accept env stdHash json codecs source s
  | .proceed n => proceed env stdHash n s
  | .sink n outcome => { s with sessions := s.sessions.modify n (Session.sink outcome) }
  | .tick nanoseconds => { s with clock := s.clock + nanoseconds }
  | .arrive c i => { s with server := (s.server.step env stdHash (.arrive c i)).2 }
  | .resume i j => { s with server := (s.server.step env stdHash (.resume i j)).2 }

/-- Nothing happens when the process is down. -/
def step (s : Deployment k) (a : DeploymentAction k) : Unit × Deployment k :=
  ((), if s.server.crashed then s else s.act env stdHash json codecs a)

def run (s : Deployment k) (actions : List (DeploymentAction k)) : Deployment k :=
  Machine.final (step env stdHash json codecs) s actions

end Deployment
end TransferQueue
