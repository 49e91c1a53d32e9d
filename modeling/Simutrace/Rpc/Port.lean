import Simutrace.Rpc.Message

/-! # Ports

A port sends a message as its header and its payload and receives it in the same
two parts. A server port turns the request that it received into the response.
-/

namespace Simutrace.Rpc

/-- The memory for data payloads. A custom allocator may provide it, leave it to `malloc`, or throw
an exception. -/
structure Allocators where
  custom : Option (MessageHeader → Option Bool)
  malloc : ℕ → Bool

/-- There is memory for the payload of a message. The custom allocator is not used for the text of
an error. -/
def Allocators.allocate (a : Allocators) (h : MessageHeader) : Bool :=
  let provided :=
    match a.custom with
    | none => some false
    | some allocator =>
      if h.flags &&& mfResponse = 0 ∨ h.code ≠ scFailed then allocator h else some false
  match provided with
  | none => false
  | some true => true
  | some false => a.malloc h.payloadLength.toNat

structure Port where
  lastSequenceNumber : BitVec 8
  messagesSent : ℕ
  messagesReceived : ℕ

namespace Port

variable (p : Port) (a : Allocators)

def sendPayload (calls : List CallResult) (payload : Payload) : Sent :=
  match payload with
  | .embedded _ => ⟨[], .ok calls⟩
  | .data _ bytes _ => if bytes = [] then ⟨[], .ok calls⟩ else SocketChannel.send calls bytes
  | .handles _ handleCount =>
    if handleCount = 0 then ⟨[], .ok calls⟩ else ⟨[], .error .notSupported⟩

def send (calls : List CallResult) (m : Message) : Port × Sent :=
  let p := { p with lastSequenceNumber := m.sequenceNumber }
  let header := SocketChannel.send calls m.header.encode
  match header.result with
  | .error e => (p, ⟨header.wire, .error e⟩)
  | .ok calls =>
    let payload := sendPayload calls m.payload
    match payload.result with
    | .error e => (p, ⟨header.wire ++ payload.wire, .error e⟩)
    | .ok calls =>
      ({ p with messagesSent := p.messagesSent + 1 }, ⟨header.wire ++ payload.wire, .ok calls⟩)

def receivePayload (h : MessageHeader) (calls : List CallResult) (stream : List UInt8) :
    Except RpcError (Received Payload) :=
  if h.payloadType = mptEmbedded then
    .ok ⟨.embedded (h.payloadLength ++ h.parameter1), stream, calls⟩
  else if h.payloadType = mptData then
    if h.payloadLength = 0 then .ok ⟨.data h.parameter1 [] (by decide), stream, calls⟩
    else if a.allocate h then
      match SocketChannel.receive calls h.payloadLength.toNat stream with
      | .error e => .error e
      | .ok received =>
        if hlength : received.value.length = h.payloadLength.toNat then
          .ok { received with
            value := .data h.parameter1 received.value (hlength ▸ h.payloadLength.isLt) }
        else .error .malformed
    else .error .allocation
  else if h.payloadType = mptHandles ∧ h.payloadLength = 0 then
    .ok ⟨.handles h.parameter1 0, stream, calls⟩
  else .error .notSupported

def receive (calls : List CallResult) (stream : List UInt8) :
    Port × Except RpcError (Received Message) :=
  match SocketChannel.receive calls messageSize stream with
  | .error e => (p, .error e)
  | .ok header =>
    let h := MessageHeader.decode header.value
    let p := { p with lastSequenceNumber := h.sequenceNumber }
    match receivePayload a h header.calls header.stream with
    | .error e => (p, .error e)
    | .ok payload =>
      ({ p with messagesReceived := p.messagesReceived + 1 },
        .ok { payload with value := .ofHeader h payload.value })

/-- Send messages one after the other, until an exception is thrown. -/
def sendAll (p : Port) (calls : List CallResult) : List Message → Port × Sent
  | [] => (p, ⟨[], .ok calls⟩)
  | m :: messages =>
    match p.send calls m with
    | (p, ⟨wire, .error e⟩) => (p, ⟨wire, .error e⟩)
    | (p, ⟨wire, .ok calls⟩) =>
      let rest := sendAll p calls messages
      (rest.1, ⟨wire ++ rest.2.wire, rest.2.result⟩)

/-- Receive a number of messages one after the other, until an exception is thrown. -/
def receiveAll (p : Port) (calls : List CallResult) (stream : List UInt8) :
    ℕ → List Message × Option RpcError
  | 0 => ([], none)
  | n + 1 =>
    match p.receive a calls stream with
    | (_, .error e) => ([], some e)
    | (p, .ok received) =>
      let rest := receiveAll p received.calls received.stream n
      (received.value :: rest.1, rest.2)

end Port

/-- How a server answers a request: it returns a status with results, or it completes the creation
of a session with a new message. -/
inductive Answer
  | ret (status : BitVec 16) (result0 : BitVec 32) (payload : Payload)
  | acknowledgeSessionCreate (id : BitVec 32)

def ServerPort.respond (p : Port) (request : Message) : Answer → Message
  | .ret status result0 payload => ⟨request.sequenceNumber, mfResponse, status, result0, payload⟩
  | .acknowledgeSessionCreate id =>
    ⟨p.lastSequenceNumber, mfResponse, scSuccess, id, .embedded 0⟩

def ServerPort.serve (a : Allocators) (answer : Message → Answer) (p : Port)
    (calls : List CallResult) (stream : List UInt8) : ℕ → List Message
  | 0 => []
  | n + 1 =>
    match p.receive a calls stream with
    | (_, .error _) => []
    | (p, .ok received) =>
      respond p received.value (answer received.value) ::
        serve a answer p received.calls received.stream n

end Simutrace.Rpc
