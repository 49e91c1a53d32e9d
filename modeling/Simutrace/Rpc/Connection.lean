import Simutrace.Library.Transition
import Simutrace.Rpc.Port

/-! # Connections

A client calls the server and waits for the response. The main server handles the
first request of a connection. If it is one for a session, a worker takes over the
port, completes the request, and then handles the other ones.
-/

namespace Simutrace.Rpc

structure Exception where
  message : List UInt8
  errorClass : BitVec 32
  errorCode : BitVec 32
  bound : message.length < 2 ^ 32

namespace Exception

def ecRuntime : BitVec 32 := 1

def ecPlatform : BitVec 32 := 2

def ecNetwork : BitVec 32 := 4

def text (s : String) : List UInt8 := s.toList.map fun c => UInt8.ofNat c.toNat

def notSupported : Exception :=
  ⟨text "The requested operation or feature is not supported.", ecRuntime, 3, by decide⟩

def rpcMessageMalformed : Exception :=
  ⟨text "RPC protocol violation. The message is malformed.", ecNetwork, 1, by decide⟩

def outOfMemory : Exception :=
  ⟨text "The process failed to allocate memory.", ecPlatform, 12, by decide⟩

/-- The exceptions of a port. The text of a failed system call is the one of its error code. -/
def ofRpcError (errorString : ℕ → { s : List UInt8 // s.length < 2 ^ 32 }) :
    RpcError → Exception
  | .platform code =>
    ⟨errorString code, ecPlatform, .ofNat 32 code, (errorString code).property⟩
  | .malformed => rpcMessageMalformed
  | .notSupported => notSupported
  | .allocation | .blocked => outOfMemory

end Exception

/-- What a call returns or throws after it has received a response. -/
inductive Outcome
  | returned (response : Message)
  | orderViolation
  | malformed
  | peer (e : Exception)

/-- The response to a call tells if the peer could process the request. -/
def ClientPort.checkStatus (response : Message) : Outcome :=
  if response.code = scFailed then
    match response.payload with
    | .data parameter1 bytes bound => .peer ⟨bytes, response.parameter0, parameter1, bound⟩
    | .embedded _ | .handles _ _ => .malformed
  else .returned response

def ClientPort.finishCall (request response : Message) : Outcome :=
  if response.sequenceNumber ≠ request.sequenceNumber then .orderViolation
  else checkStatus response

def ServerPort.failed (p : Port) (request : Message) (e : Exception) : Message :=
  respond p request (.ret scFailed e.errorClass (.data e.errorCode e.message e.bound))

/-- What a handler of the main server does. It answers itself, unless a session takes over the
port. -/
inductive MainReply
  | answer (result0 : BitVec 32) (payload : Payload)
  | session (id : BitVec 32)
  | threw (e : Exception)
  | fatal

/-- What a handler of a session worker does. It returns true, it answers itself and undoes its work
if the answer cannot be sent, or it throws an exception. The request to close the session stops the
worker. -/
inductive Reply (σ : Type*)
  | done (stop : Bool)
  | answer (result0 : BitVec 32) (payload : Payload) (undo : σ → σ)
  | threw (e : Exception)
  | fatal

/-- The handlers of the server under the version and the code of a request, the memory for
payloads, and the texts of the system's errors. -/
structure Peers (σ : Type*) where
  mainHandlers : BitVec 32 → Option (Message → σ → MainReply × σ)
  handlers : BitVec 32 → Option (Message → σ → Reply σ × σ)
  allocators : σ → Allocators
  clientAllocators : Allocators
  errorString : ℕ → { s : List UInt8 // s.length < 2 ^ 32 }

/-- Where the connection is at the server. A worker that starts completes the request for its
session. -/
inductive Phase
  | accepting
  | starting (request : Message) (version : BitVec 16) (session : BitVec 32)
  | serving (version : BitVec 16)
  | gone

/-- The two ports with the bytes that are under way between them. The client waits for a response,
unless a transfer failed. -/
structure Connection (σ : Type*) where
  client : Port
  nextSequenceNumber : BitVec 8
  pending : Option Message
  failed : Bool
  requests : List UInt8
  responses : List UInt8
  server : Port
  phase : Phase
  state : σ

/-- What becomes of a request. It is answered, it ends the connection without an answer, or its
payload cannot be received and this is the answer. -/
inductive Served
  | answered (request response : Message)
  | dropped (request : Message)
  | rejected (response : Message)

/-- The events at both ends, with the bytes that the server sends after a transfer failed. -/
inductive Event
  | call (request : Message)
  | outcome (outcome : Outcome)
  | served (served : Served) (again : List UInt8)
  | lost (again : List UInt8)
  | silent

/-- The bytes of a response that were sent, those that were sent after this failed, and whether the
last message was sent. -/
structure Transmission where
  port : Port
  wire : List UInt8
  again : List UInt8
  sent : Bool

def Sent.isOk (s : Sent) : Bool :=
  match s.result with
  | .ok _ => true
  | .error _ => false

/-- Send a message without reacting to a failure. -/
def transmit (p : Port) (m : Message) (sends : List CallResult) : Transmission :=
  let sent := p.send sends m
  ⟨sent.1, sent.2.wire, [], sent.2.isOk⟩

variable {σ : Type*}

namespace Peers

variable (peers : Peers σ)

def exception (e : RpcError) : Exception := .ofRpcError peers.errorString e

/-- Send a response. A socket throws a `PlatformException`, which is returned to the caller like
the exceptions of the handlers, unless the worker should stop. -/
def ret (p : Port) (request response : Message) (stop : Bool) (sends again : List CallResult) :
    Transmission :=
  let t := transmit p response sends
  match (p.send sends response).2.result with
  | .ok _ | .error .blocked => t
  | .error e =>
    if stop then t
    else
      let second := transmit t.port (ServerPort.failed t.port request (peers.exception e)) again
      { second with wire := t.wire, again := second.wire }

/-- `_processRequest` finds its handlers by the version in the request. -/
def mainHandle (m : Message) (s : σ) : MainReply × σ :=
  match peers.mainHandlers (m.parameter0.setWidth 16 ++ m.code) with
  | none => (.threw .notSupported, s)
  | some handler => handler m s

def handle (version : BitVec 16) (m : Message) (s : σ) : Reply σ × σ :=
  match peers.handlers (version ++ m.code) with
  | none => (.threw .notSupported, s)
  | some handler => handler m s

/-- Answer the first request. Only a session keeps the connection. -/
def mainReply (p : Port) (m : Message) (sends again : List CallResult) :
    MainReply → Option (Served × Transmission)
  | .answer result0 payload =>
    let response := ServerPort.respond p m (.ret scSuccess result0 payload)
    some (.answered m response, peers.ret p m response false sends again)
  | .threw e =>
    let response := ServerPort.failed p m e
    some (.answered m response, transmit p response sends)
  | .fatal => some (.dropped m, ⟨p, [], [], false⟩)
  | .session _ => none

/-- Answer a request, with the state that is left and whether the worker goes on. -/
def reply (p : Port) (m : Message) (s : σ) (sends again : List CallResult) :
    Reply σ → Served × Transmission × σ × Bool
  | .done stop =>
    let response := ServerPort.respond p m (.ret scSuccess 0 (.embedded 0))
    let t := peers.ret p m response stop sends again
    (.answered m response, t, s, t.sent && !stop)
  | .answer result0 payload undo =>
    let response := ServerPort.respond p m (.ret scSuccess result0 payload)
    let t := peers.ret p m response false sends again
    (.answered m response, t, if (p.send sends response).2.isOk then s else undo s, t.sent)
  | .threw e =>
    let response := ServerPort.failed p m e
    let t := transmit p response sends
    (.answered m response, t, s, t.sent)
  | .fatal => (.dropped m, ⟨p, [], [], false⟩, s, false)

end Peers

namespace Connection

open Peers

/-- A client has connected, and nothing was sent. -/
structure Initial (s : Connection σ) : Prop where
  pending : s.pending = none
  failed : s.failed = false
  requests : s.requests = []
  responses : s.responses = []
  phase : s.phase = .accepting

variable (peers : Peers σ)

/-- The main server receives payloads into memory of its own. -/
def allocators (s : Connection σ) : Allocators :=
  match s.phase with
  | .serving _ => peers.allocators s.state
  | .accepting | .starting _ _ _ | .gone => ⟨none, (peers.allocators s.state).malloc⟩

/-- What was sent is under way to the client. -/
def sent (s : Connection σ) (t : Transmission) : Connection σ :=
  { s with server := t.port, responses := s.responses ++ (t.wire ++ t.again) }

/-- The response to a request that could not be received. -/
def rejection (p : Port) (number : BitVec 8) (e : RpcError) : Message :=
  ServerPort.failed p ⟨number, 0, 0, 0, .embedded 0⟩ (peers.exception e)

/-- The steps at both ends of a connection. A transfer is one step that ends with the last of its
system calls. A send that blocks for ever counts as failed. -/
inductive Step : Connection σ → Event → Connection σ → Prop
  | call {s : Connection σ} {m : Message} {sends : List CallResult}
      (idle : s.pending = none ∨ s.failed = true)
      (number : m.sequenceNumber = s.nextSequenceNumber) :
      Step s (.call m) { s with
        client := (s.client.send sends m).1
        nextSequenceNumber := s.nextSequenceNumber + 1
        pending := some m
        failed := !(s.client.send sends m).2.isOk
        requests := s.requests ++ (s.client.send sends m).2.wire }
  | returned {s : Connection σ} {m : Message} {p : Port} {calls : List CallResult}
      {received : Received Message} (pending : s.pending = some m) (ok : s.failed = false)
      (receives : s.client.receive peers.clientAllocators calls s.responses =
        (p, .ok received)) :
      Step s (.outcome (ClientPort.finishCall m received.value))
        { s with client := p, pending := none, responses := received.stream }
  | callThrew {s : Connection σ} {m : Message} {p : Port} {calls : List CallResult} {e : RpcError}
      {responses : List UInt8} (pending : s.pending = some m) (ok : s.failed = false)
      (receives : s.client.receive peers.clientAllocators calls s.responses = (p, .error e))
      (finished : e ≠ .blocked) :
      Step s .silent { s with client := p, failed := true, responses := responses }
  | processed {s : Connection σ} {p : Port} {calls sends again : List CallResult}
      {received : Received Message} {state : σ} {r : MainReply} {v : Served} {t : Transmission}
      (phase : s.phase = .accepting)
      (receives : s.server.receive (s.allocators peers) calls s.requests = (p, .ok received))
      (handled : peers.mainHandle received.value s.state = (r, state))
      (replied : peers.mainReply p received.value sends again r = some (v, t)) :
      Step s (.served v t.again)
        { s.sent t with requests := received.stream, phase := .gone, state := state }
  | accepted {s : Connection σ} {p : Port} {calls : List CallResult}
      {received : Received Message} {state : σ} {id : BitVec 32} (phase : s.phase = .accepting)
      (receives : s.server.receive (s.allocators peers) calls s.requests = (p, .ok received))
      (handled : peers.mainHandle received.value s.state = (.session id, state)) :
      Step s .silent { s with
        server := p
        requests := received.stream
        phase := .starting received.value (received.value.parameter0.setWidth 16) id
        state := state }
  -- The exceptions of the port itself are returned to the caller as well, with the number that was
  -- received.
  | rejected {s : Connection σ} {p : Port} {calls sends : List CallResult} {e : RpcError}
      {requests : List UInt8} (phase : s.phase = .accepting)
      (receives : s.server.receive (s.allocators peers) calls s.requests = (p, .error e))
      (finished : e ≠ .blocked) (transferred : ∀ code, e ≠ .platform code) :
      Step s (.served (.rejected (rejection peers p p.lastSequenceNumber e)) [])
        { s.sent (transmit p (rejection peers p p.lastSequenceNumber e) sends) with
          requests := requests
          phase := .gone }
  | lost {s : Connection σ} {p : Port} {calls sends : List CallResult} {code : ℕ}
      {requests : List UInt8} {number : BitVec 8} {t : Transmission} (phase : s.phase = .accepting)
      (receives : s.server.receive (s.allocators peers) calls s.requests =
        (p, .error (.platform code)))
      (replied : transmit p (rejection peers p number (.platform code)) sends = t) :
      Step s (.lost t.wire) { s.sent t with requests := requests, phase := .gone }
  | acknowledged {s : Connection σ} {m : Message} {version : BitVec 16} {id : BitVec 32}
      {response : Message} {sends : List CallResult} {t : Transmission}
      (phase : s.phase = .starting m version id)
      (acknowledges : ServerPort.respond s.server m (.acknowledgeSessionCreate id) = response)
      (replied : transmit s.server response sends = t) :
      Step s (.served (.answered m response) [])
        { s.sent t with phase := if t.sent then .serving version else .gone }
  | handled {s : Connection σ} {p : Port} {calls sends again : List CallResult}
      {received : Received Message} {version : BitVec 16} {state state' : σ} {r : Reply σ}
      {v : Served} {t : Transmission} {goesOn : Bool} (phase : s.phase = .serving version)
      (receives : s.server.receive (s.allocators peers) calls s.requests = (p, .ok received))
      (handled : peers.handle version received.value s.state = (r, state))
      (replied : peers.reply p received.value state sends again r = (v, t, state', goesOn)) :
      Step s (.served v t.again)
        { s.sent t with
          requests := received.stream
          phase := if goesOn then .serving version else .gone
          state := state' }
  | dropped {s : Connection σ} {p : Port} {calls : List CallResult} {e : RpcError}
      {requests : List UInt8} {version : BitVec 16} (phase : s.phase = .serving version)
      (receives : s.server.receive (s.allocators peers) calls s.requests = (p, .error e))
      (finished : e ≠ .blocked) :
      Step s (.lost []) { s with server := p, requests := requests, phase := .gone }
  | closed {s : Connection σ} : Step s .silent { s with phase := .gone }
  -- Other connections change what the handlers work on.
  | other {s : Connection σ} {state : σ} : Step s .silent { s with state := state }

end Connection

end Simutrace.Rpc
