import Simutrace.Store.DirectoryWriter
import Simutrace.Store.Reopen
import Simutrace.Stream.Complete
import Simutrace.Stream.Search
import Mathlib.Data.Option.Basic

/-! # Recording to a store

The streams of a store are written segment by segment. A worker commits the
frame of a segment to the file and then completes the segment, which checks its
ranges. The workers run in any order.
-/

namespace Simutrace.Simtrace3

def FrameHeader.zero (streamId : StreamId) (typeId : BitVec 128) (a : Attribute) : FrameHeader where
  sequenceNumber := -1
  streamId := streamId
  typeId := typeId
  entryCount := 0
  rawEntryCount := 0
  startTime := -1
  endTime := -1
  startCycle := -1
  endCycle := -1
  startIndex := -1
  totalSize := .ofNat 64 (frameHeaderSize + a.size)
  attribute₀ := a.type.setWidth 64 ||| .ofNat 64 (frameHeaderSize * 2 ^ 16)
  attribute₁ := 0
  attributeCount := 1
  checksum := 0

def Simtrace3Frame.zero (streamId : StreamId) (typeId : BitVec 128) (a : Attribute)
    (fits : frameHeaderSize + a.size < 2 ^ 64) : Simtrace3Frame where
  header := .zero streamId typeId a
  attributes := [a]
  totalSize_eq := by simpa [FrameHeader.zero] using Nat.mod_eq_of_lt fits

def Streams.segment (streams : Streams) (id : StreamId) (sequenceNumber : StreamSegmentId) :
    Option SegmentLocation :=
  (streams id).bind fun stream => stream.stream.segments sequenceNumber

/-- The end of the encoding of a segment is reported to its stream. The result is `none` if the
ranges of the location are rejected. -/
def Streams.completeSegment (streams : Streams) (id : StreamId) (sequenceNumber : StreamSegmentId)
    (location : Option StorageLocation) : Option Streams := do
  let stream ← streams id
  let loc ← stream.stream.segments sequenceNumber
  let s ← stream.stream.completeEncoding loc location false
  some (Function.update streams id (some { stream with stream := s }))

namespace Committed

def streamId (c : Committed) : StreamId := c.1.header.streamId

def location (c : Committed) : StorageLocation := storageLocation c.1.header

def sequenceNumber (c : Committed) : StreamSegmentId := c.location.sequenceNumber

end Committed

/-- A store with its streams and the frames that were committed, in the order of the file. Their
segments are yet to be completed, got a location, or were rejected. -/
structure Recording where
  store : Simtrace3Store
  streams : Streams
  pending : List Committed
  committed : List Committed
  located : List Committed
  rejected : List Committed

/-- What happens to a store. -/
inductive Recording.Action
  | register (id : StreamId) (descriptor : List UInt8)
  | associate (id : StreamId) (ids : List StreamId)
  | append (id : StreamId) (sequenceNumber : StreamSegmentId)
  | submit (id : StreamId) (sequenceNumber : StreamSegmentId)
  | discard (id : StreamId) (sequenceNumber : StreamSegmentId)
  | commit (frame : Simtrace3Frame)
  | commitFailed (frame : Simtrace3Frame)
  | complete (c : Committed)

namespace Recording

def new : Recording := ⟨.createStore, fun _ => none, [], [], [], []⟩

variable (r : Recording)

def setStream (id : StreamId) (stream : StoreStream) : Recording :=
  { r with streams := Function.update r.streams id (some stream) }

/-- Commit a zero frame. The streams change only if that succeeds. -/
def commitZeroFrame (murmur3 : List UInt8 → BitVec 32) (fault : Option IoFault)
    (frame : Simtrace3Frame) (stream : StoreStream) : Recording :=
  match r.store.commitFrame murmur3 fault frame with
  | (none, store) => { r with store := store }
  | (some offset, store) =>
    { r.setStream frame.header.streamId stream with
      store := store
      committed := r.committed ++ [(frame.updateHash murmur3, offset)] }

/-- Complete the segment of a frame. If its ranges are rejected, the data is discarded. -/
def completeSegment (c : Committed) (pending : List Committed) : Option Recording :=
  match r.streams.completeSegment c.streamId c.sequenceNumber (some c.location) with
  | some streams =>
    some { r with streams := streams, pending := pending, located := r.located ++ [c] }
  | none =>
    (r.streams.completeSegment c.streamId c.sequenceNumber none).map fun streams =>
      { r with streams := streams, pending := pending, rejected := r.rejected ++ [c] }

/-- A segment that was submitted and whose frame has not been committed. -/
structure Submitted (id : StreamId) (sequenceNumber : StreamSegmentId) : Prop where
  segment : ∃ loc, r.streams.segment id sequenceNumber = some loc ∧ loc.location = none ∧
    loc.id = none
  notPending : ∀ c ∈ r.pending, ¬ (c.streamId = id ∧ c.sequenceNumber = sequenceNumber)

/-- The steps of a store. Any access to the file may fail. -/
inductive Step (totalStreamCount : List UInt8 → BitVec 32) (murmur3 : List UInt8 → BitVec 32) :
    Recording → Action → Recording → Prop
  | register {r : Recording} {id : StreamId} {typeId : BitVec 128} {a : Attribute}
      {fault : Option IoFault} (new : r.streams id = none) (type : a.type = satStreamDescription)
      (fits : frameHeaderSize + a.size < 2 ^ 64) :
      Step totalStreamCount murmur3 r (.register id a.buffer)
        (r.commitZeroFrame murmur3 fault (.zero id typeId a fits) (.new a.buffer))
  | associate {r : Recording} {id : StreamId} {ids : List StreamId} {stream : StoreStream}
      {typeId : BitVec 128} {a : Attribute} {fault : Option IoFault}
      (registered : r.streams id = some stream) (new : stream.associated = none)
      (count : (totalStreamCount stream.descriptor).toNat = ids.length) (nonempty : ids ≠ [])
      (hidden : ∀ i ∈ ids, r.streams i ≠ none) (type : a.type = satAssociatedStreams)
      (buffer : a.buffer = packAssociatedStreams ids)
      (fits : frameHeaderSize + a.size < 2 ^ 64) :
      Step totalStreamCount murmur3 r (.associate id ids)
        (r.commitZeroFrame murmur3 fault (.zero id typeId a fits)
          { stream with associated := some ids })
  | append {r : Recording} {id : StreamId} {sqn : StreamSegmentId} {stream : StoreStream}
      {session : SessionId} {buffer : SegmentId} (registered : r.streams id = some stream)
      (free : ¬ stream.stream.SegmentIsAllocated sqn) (valid : sqn < invalidStreamSegmentId) :
      Step totalStreamCount murmur3 r (.append id sqn) (r.setStream id { stream with
        stream := stream.stream.addSegmentLocation (.allocated sqn session buffer) })
  | submit {r : Recording} {id : StreamId} {sqn : StreamSegmentId} {stream : StoreStream}
      {loc : SegmentLocation} {buffer : SegmentId} (registered : r.streams id = some stream)
      (segment : stream.stream.segments sqn = some loc) (notLocated : loc.location = none)
      (writable : loc.id = some buffer) :
      Step totalStreamCount murmur3 r (.submit id sqn) (r.setStream id { stream with
        stream := stream.stream.setSegment sqn
          (some { loc with sideId := some buffer, id := none }) })
  | discard {r : Recording} {id : StreamId} {sqn : StreamSegmentId} {streams : Streams}
      (submitted : r.Submitted id sqn)
      (completed : r.streams.completeSegment id sqn none = some streams) :
      Step totalStreamCount murmur3 r (.discard id sqn) { r with streams := streams }
  | commit {r : Recording} {frame : Simtrace3Frame} {fault : Option IoFault} {offset : FileOffset}
      {store : Simtrace3Store} (data : frame.header.sequenceNumber ≠ -1)
      (submitted : r.Submitted frame.header.streamId frame.header.sequenceNumber.toNat)
      (committed : r.store.commitFrame murmur3 fault frame = (some offset, store)) :
      Step totalStreamCount murmur3 r (.commit frame) { r with
        store := store
        committed := r.committed ++ [(frame.updateHash murmur3, offset)]
        pending := r.pending ++ [(frame.updateHash murmur3, offset)] }
  | commitFailed {r : Recording} {frame : Simtrace3Frame} {fault : Option IoFault}
      {store : Simtrace3Store} {streams : Streams} (data : frame.header.sequenceNumber ≠ -1)
      (submitted : r.Submitted frame.header.streamId frame.header.sequenceNumber.toNat)
      (failed : r.store.commitFrame murmur3 fault frame = (none, store))
      (completed : r.streams.completeSegment frame.header.streamId
        frame.header.sequenceNumber.toNat none = some streams) :
      Step totalStreamCount murmur3 r (.commitFailed frame)
        { r with store := store, streams := streams }
  | complete {r r' : Recording} {c : Committed} {before after : List Committed}
      (pending : r.pending = before ++ c :: after)
      (completed : r.completeSegment c (before ++ after) = some r') :
      Step totalStreamCount murmur3 r (.complete c) r'

inductive Run (totalStreamCount : List UInt8 → BitVec 32) (murmur3 : List UInt8 → BitVec 32) :
    List (Recording × Action) → Recording → Prop
  | new : Run totalStreamCount murmur3 [] new
  | step {trace : List (Recording × Action)} {r r' : Recording} {a : Action}
      (run : Run totalStreamCount murmur3 trace r) (step : Step totalStreamCount murmur3 r a r') :
      Run totalStreamCount murmur3 (trace ++ [(r, a)]) r'

def Opens (totalStreamCount : List UInt8 → BitVec 32) (murmur3 : List UInt8 → BitVec 32)
    (loaded : Streams) : Prop :=
  ∀ assertions fuel, 2 * r.committed.length + 1 ≤ fuel →
    r.store.file.openStore assertions (openFrame totalStreamCount murmur3 r.store.file.storage)
      fuel (fun _ => none) = some loaded

end Recording

/-- Two streams have the same meta data, located segments and statistics. -/
structure StoreStream.Same (a b : StoreStream) : Prop where
  descriptor : a.descriptor = b.descriptor
  associated : a.associated = b.associated
  locations : ∀ location, a.stream.HasLocation location ↔ b.stream.HasLocation location
  stats : a.stream.stats = b.stream.stats

namespace Recording

def Reopens (totalStreamCount : List UInt8 → BitVec 32) (murmur3 : List UInt8 → BitVec 32)
    (r : Recording) : Prop :=
  ∃ loaded, r.Opens totalStreamCount murmur3 loaded ∧
    ∀ id, Option.Rel StoreStream.Same (r.streams id) (loaded id)

/-- The ranges of a segment are accepted by its stream, and at the commit also by the stream that
is loaded from the file up to there. -/
def Accepted (totalStreamCount : List UInt8 → BitVec 32) (murmur3 : List UInt8 → BitVec 32)
    (r : Recording) : Action → Prop
  | .commit frame => ∀ loaded, r.Opens totalStreamCount murmur3 loaded →
      ∀ stream ∈ loaded frame.header.streamId,
        stream.stream.LocationAccepted (storageLocation frame.header)
  | .complete c => ∀ stream ∈ r.streams c.streamId, stream.stream.LocationAccepted c.location
  | _ => True

end Recording

end Simutrace.Simtrace3
