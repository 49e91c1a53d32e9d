import Simutrace.Store.Recording

/-! # Announcing hidden streams

The encoder of a memory stream keeps its data in hidden streams. It registers
them on the first write or drop of a segment and then commits a second zero
frame with their ids. Other streams are registered and written meanwhile.
-/

namespace Simutrace.Simtrace3

/-- What is done with a segment that is closed: it is encoded, or it is empty and dropped. -/
inductive CloseOperation
  | write
  | drop
  deriving DecidableEq, Repr

/-- The encoder of a stream with the hidden streams it has registered so far. While it is being
initialised, it keeps the operation to do afterwards, and its stream is locked. -/
structure EncoderState where
  descriptor : List UInt8
  streams : List StreamId
  initialized : Bool
  initializing : Option CloseOperation

/-- A registration holds the lock of the store. Its zero frame is in the file, but the stream is
not part of the store yet. The owner is the memory stream a hidden stream is registered for. -/
structure Registration where
  id : StreamId
  descriptor : List UInt8
  owner : Option StreamId

structure Announcing where
  store : Simtrace3Store
  encoders : StreamId → Option EncoderState
  registration : Option Registration
  queue : List StreamId
  committed : List Committed

def EncoderState.new (descriptor : List UInt8) : EncoderState := ⟨descriptor, [], false, none⟩

namespace Announcing

def new : Announcing := ⟨.createStore, fun _ => none, none, [], []⟩

variable (r : Announcing)

def setEncoder (id : StreamId) (encoder : EncoderState) : Announcing :=
  { r with encoders := Function.update r.encoders id (some encoder) }

def commitFrame (murmur3 : List UInt8 → BitVec 32) (fault : Option IoFault)
    (frame : Simtrace3Frame) (success failure : Announcing → Announcing) : Announcing :=
  match r.store.commitFrame murmur3 fault frame with
  | (none, store) => failure { r with store := store }
  | (some offset, store) => success { r with
      store := store
      committed := r.committed ++ [(frame.updateHash murmur3, offset)] }

def addStream (g : Registration) : Announcing :=
  let r := { r.setEncoder g.id (.new g.descriptor) with registration := none }
  match g.owner with
  | none => r
  | some owner =>
    match r.encoders owner with
    | none => r
    | some encoder => r.setEncoder owner { encoder with streams := encoder.streams ++ [g.id] }

/-- Queue a work item for a write. There is nothing left to do for a drop. -/
def finish (id : StreamId) : CloseOperation → Announcing
  | .write => { r with queue := r.queue ++ [id] }
  | .drop => r

/-- Close a segment that was written. A generic encoder does not have hidden streams. -/
def close (totalStreamCount : List UInt8 → BitVec 32) (id : StreamId) (encoder : EncoderState)
    (op : CloseOperation) : Announcing :=
  if totalStreamCount encoder.descriptor = 0 ∨ encoder.initialized then r.finish id op
  else r.setEncoder id { encoder with initializing := some op }

/-- The steps of the threads of a server. An exception may end any of them. -/
inductive Step (totalStreamCount : List UInt8 → BitVec 32) (murmur3 : List UInt8 → BitVec 32) :
    Announcing → Announcing → Prop
  | registerStream {r : Announcing} {id : StreamId} {typeId : BitVec 128} {a : Attribute}
      {fault : Option IoFault} (unlocked : r.registration = none) (new : r.encoders id = none)
      (type : a.type = satStreamDescription) (fits : frameHeaderSize + a.size < 2 ^ 64) :
      Step totalStreamCount murmur3 r (r.commitFrame murmur3 fault (.zero id typeId a fits)
        (fun r => { r with registration := some ⟨id, a.buffer, none⟩ }) (fun r => r))
  | registerHiddenStream {r : Announcing} {owner id : StreamId} {encoder : EncoderState}
      {op : CloseOperation} {typeId : BitVec 128} {a : Attribute} {fault : Option IoFault}
      (stream : r.encoders owner = some encoder) (locked : encoder.initializing = some op)
      (missing : encoder.streams.length < (totalStreamCount encoder.descriptor).toNat)
      (unlocked : r.registration = none) (new : r.encoders id = none)
      (type : a.type = satStreamDescription) (generic : totalStreamCount a.buffer = 0)
      (fits : frameHeaderSize + a.size < 2 ^ 64) :
      Step totalStreamCount murmur3 r (r.commitFrame murmur3 fault (.zero id typeId a fits)
        (fun r => { r with registration := some ⟨id, a.buffer, some owner⟩ })
        (·.setEncoder owner { encoder with initializing := none }))
  | addStream {r : Announcing} {g : Registration} (registration : r.registration = some g) :
      Step totalStreamCount murmur3 r (r.addStream g)
  | close {r : Announcing} {id : StreamId} {encoder : EncoderState} {op : CloseOperation}
      (stream : r.encoders id = some encoder) (unlocked : encoder.initializing = none) :
      Step totalStreamCount murmur3 r (r.close totalStreamCount id encoder op)
  | announce {r : Announcing} {id : StreamId} {encoder : EncoderState} {op : CloseOperation}
      {typeId : BitVec 128} {a : Attribute} {fault : Option IoFault}
      (stream : r.encoders id = some encoder) (locked : encoder.initializing = some op)
      (complete : encoder.streams.length = (totalStreamCount encoder.descriptor).toNat)
      (type : a.type = satAssociatedStreams)
      (buffer : a.buffer = packAssociatedStreams encoder.streams)
      (fits : frameHeaderSize + a.size < 2 ^ 64) :
      Step totalStreamCount murmur3 r (r.commitFrame murmur3 fault (.zero id typeId a fits)
        (fun r => (r.setEncoder id
          { encoder with initialized := true, initializing := none }).finish id op)
        (·.setEncoder id { encoder with initializing := none }))
  | initializeFailed {r : Announcing} {id : StreamId} {encoder : EncoderState}
      {op : CloseOperation} (stream : r.encoders id = some encoder)
      (locked : encoder.initializing = some op)
      (unlocked : ∀ g ∈ r.registration, g.owner ≠ some id) :
      Step totalStreamCount murmur3 r (r.setEncoder id { encoder with initializing := none })
  | encode {r : Announcing} {frame : Simtrace3Frame} {fault : Option IoFault}
      {before after : List StreamId} (queued : r.queue = before ++ frame.header.streamId :: after)
      (data : frame.header.sequenceNumber ≠ -1) :
      Step totalStreamCount murmur3 r (r.commitFrame murmur3 fault frame
        (fun r => { r with queue := before ++ after })
        (fun r => { r with queue := before ++ after }))

/-- The states of the server in any interleaving of its threads. -/
inductive Reachable (totalStreamCount : List UInt8 → BitVec 32)
    (murmur3 : List UInt8 → BitVec 32) : Announcing → Prop
  | new : Reachable totalStreamCount murmur3 new
  | step {r r' : Announcing} (h : Reachable totalStreamCount murmur3 r)
      (step : Step totalStreamCount murmur3 r r') : Reachable totalStreamCount murmur3 r'

end Announcing

end Simutrace.Simtrace3
