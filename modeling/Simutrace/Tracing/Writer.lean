import Simutrace.Client.Handle
import Simutrace.GenericEncoder.Compression
import Simutrace.Library.Records
import Simutrace.Server.Payload
import Simutrace.Tracing.Places

/-! # Writing a stream

Sessions write entries through their handles into buffer segments. A session shares
these with the server, or has copies that are sent with the call that gives a
segment back. The handle has no segment while such a call is in progress. The
server hands the segment to the encoder, which reads it at a later time, while
the session goes on with the next one.
-/

namespace Simutrace

/-- The format of the data in the store. An encoder may give up a segment, but what it has encoded
is decoded to the same bytes. -/
structure SegmentCodec (segmentSize : ℕ) where
  Stored : Type
  encode : List UInt8 → Option Stored
  decode : Stored → Option (List UInt8)
  lossless : ∀ content stored, content.length ≤ segmentSize → encode content = some stored →
    decode stored = some content

/-- The format of the generic encoder. The compressed data of a segment with entries are not
empty. -/
def GenericEncoder.segmentCodec (z : Lzma) {segmentSize : ℕ} (small : segmentSize < 2 ^ 32)
    (nonempty : ∀ source ≠ [], (z.compress source).1 ≠ []) : SegmentCodec segmentSize where
  Stored := List UInt8
  encode content := (lzmaCompress z content segmentSize).toOption
  decode stored := (lzmaDecompress z stored segmentSize).toOption
  lossless content stored hlength hencode := by
    cases h : lzmaCompress z content segmentSize with
    | error e =>
      rw [h] at hencode
      cases hencode
    | ok target =>
      rw [h] at hencode
      obtain rfl := Option.some.inj hencode
      have hsource := (lzmaCompress_isOk.mp (by rw [h]; rfl)).1
      rw [lzmaDecompress_lzmaCompress h (nonempty content hsource) (by omega) hlength]
      rfl

/-- A stream with entries of a fixed size, and the sessions that share the buffer with the
server. -/
structure TracedStream where
  stype : StreamType
  segmentSize : ℕ
  fits : stype.entrySize ≤ segmentSize
  small : segmentSize < 2 ^ 32
  codec : SegmentCodec segmentSize
  shared : SessionId → Bool

structure BufferSegment where
  data : Storage
  rawEntryCount : ℕ

/-- The entry of a handle is relative to the start of its segment. It is behind the one that was
requested last, which may not have been submitted yet. -/
structure TraceHandle where
  session : SessionId
  segment : SegmentId
  sequenceNumber : StreamSegmentId
  entry : ℕ
  requested : Option ℕ
  deriving DecidableEq

/-- A stream that is written, with the buffer segments of the server and of each session, the write
handles of all sessions, the stored data, and the entries that were submitted so far. -/
structure Tracing (d : TracedStream) where
  writing : Writing
  memory : Option SessionId → SegmentId → BufferSegment
  handles : List TraceHandle
  stored : StreamSegmentId → Option d.codec.Stored
  written : List (List UInt8)

/-- What sessions do with their handles, and the steps of the server that are made for none. An
`append` can be given the handle whose segment it submits. -/
inductive TraceAction
  | getNextEntry (handle : TraceHandle)
  | submitEntry (handle : TraceHandle) (entry : List UInt8)
  | release (handle : TraceHandle)
  | append (handle : Option TraceHandle) (session : SessionId) (submit : SubmitOutcome)
  | closeHandle (handle : TraceHandle) (submit : SubmitOutcome)
  | server (action : WriteAction)

namespace TracedStream

variable (d : TracedStream)

/-- The memory that a session writes to. -/
def side (session : SessionId) : Option SessionId := if d.shared session then none else some session

/-- The buffer drops a segment without entries and hands any other one to the encoder, unless it
throws an exception. -/
def Submits (segment : BufferSegment) : SubmitOutcome → Prop
  | .failed => True
  | .complete _ => segment.rawEntryCount = 0
  | .pending count =>
    count = segment.rawEntryCount ∧ d.stype.entrySize * segment.rawEntryCount ≤ d.segmentSize

end TracedStream

namespace BufferSegment

def submitEntry (segment : BufferSegment) (offset : ℕ) (entry : List UInt8) : BufferSegment :=
  ⟨segment.data.write offset entry, (segment.rawEntryCount + 1) % 2 ^ 32⟩

/-- The control element of a segment that was just allocated. -/
def clear (segment : BufferSegment) : BufferSegment := { segment with rawEntryCount := 0 }

end BufferSegment

namespace Tracing

variable {d : TracedStream} (t : Tracing d)

abbrev stream : ServerStream := t.writing.server.stream

def setMemory (side : Option SessionId) (id : SegmentId) (segment : BufferSegment) :
    Option SessionId → SegmentId → BufferSegment :=
  Function.update t.memory side (Function.update (t.memory side) id segment)

/-- The payload of a call with a handle is received into the buffer segment that the given one is
mapped to. The call fails if there is none. -/
def receive (handle : Option TraceHandle) (n : StreamSegmentId) :
    Option (Option SessionId → SegmentId → BufferSegment) :=
  match handle with
  | none => some t.memory
  | some handle =>
    if d.shared handle.session then some t.memory
    else (t.stream.getBufferMapping n).map fun id =>
      t.setMemory none id (t.memory (some handle.session) handle.segment)

def prepareSegment (session : SessionId) (answered : Bool) :
    Option SegmentId → Option SessionId → SegmentId → BufferSegment
  | none => t.memory
  | some id =>
    let t := { t with memory := t.setMemory none id (t.memory none id).clear }
    if answered then t.setMemory (d.side session) id (t.memory (d.side session) id).clear
    else t.memory

def initializeHandle (session : SessionId) (answered : Bool) :
    Option SegmentId → Option TraceHandle
  | none => none
  | some id =>
    let n := t.stream.nextSequenceNumber
    if n = invalidStreamSegmentId ∨ answered = false then none
    else some ⟨session, id, n, 0, none⟩

def getNextEntry (handle : TraceHandle) : Tracing d :=
  { t with
    handles := { handle with
      entry := handle.entry + d.stype.entrySize
      requested := some handle.entry } :: t.handles.erase handle }

def submitEntry (handle : TraceHandle) (offset : ℕ) (entry : List UInt8) : Tracing d :=
  let side := d.side handle.session
  { t with
    memory := t.setMemory side handle.segment
      ((t.memory side handle.segment).submitEntry offset entry)
    handles := { handle with requested := none } :: t.handles.erase handle
    written := t.written ++ [entry] }

def releaseHandle (handle : TraceHandle) : Tracing d :=
  { t with handles := t.handles.erase handle }

/-- The handles that are left while an `append` with one of them is in progress. -/
def otherHandles : Option TraceHandle → List TraceHandle
  | none => t.handles
  | some handle => t.handles.erase handle

def content (n : StreamSegmentId) : List UInt8 :=
  match t.stream.place n with
  | some (.encoding id) =>
    (t.memory none id).data.read 0 (t.writing.entryCount n * d.stype.entrySize)
  | _ => []

/-- The outcomes of the submissions are those for the control elements of the server. -/
def SubmitsAll (t : Tracing d) (memory : Option SessionId → SegmentId → BufferSegment)
    (submit : StreamSegmentId → SubmitOutcome) : Prop :=
  ∀ n id, t.stream.place n = some (.writing id) → d.Submits (memory none id) (submit n)

/-- The steps of the sessions and the server. Any session can append at any time, and it can be
closed with its handles open. -/
inductive Step : Tracing d → TraceAction → Tracing d → Prop
  | getNextEntry {t : Tracing d} {handle : TraceHandle} (opened : handle ∈ t.handles)
      (submitted : handle.requested = none)
      (room : handle.entry + d.stype.entrySize ≤ d.segmentSize) :
      Step t (.getNextEntry handle) (t.getNextEntry handle)
  | submitEntry {t : Tracing d} {handle : TraceHandle} {offset : ℕ} {entry : List UInt8}
      (opened : handle ∈ t.handles) (requested : handle.requested = some offset)
      (size : entry.length = d.stype.entrySize) :
      Step t (.submitEntry handle entry) (t.submitEntry handle offset entry)
  | release {t : Tracing d} {handle : TraceHandle} (opened : handle ∈ t.handles) :
      Step t (.release handle) (t.releaseHandle handle)
  | append {t : Tracing d} {handle : Option TraceHandle} {session : SessionId}
      {submit : SubmitOutcome} {w : Writing}
      {memory : Option SessionId → SegmentId → BufferSegment}
      (opened : ∀ h ∈ handle, h ∈ t.handles ∧ h.session = session)
      (received : t.receive handle t.stream.getCurrentSegmentId = some memory)
      (submits : t.SubmitsAll memory fun _ => submit)
      (step : t.writing.Step (.submitLast session none submit) w) :
      Step t (.append handle session submit)
        { t with writing := w, memory := memory, handles := t.otherHandles handle }
  | allocateNext {t : Tracing d} {session : SessionId} {id : Option SegmentId} {answered : Bool}
      {w : Writing} (appending : t.writing.appending = some session)
      (step : t.writing.Step (.allocateNext id) w) :
      Step t (.server (.allocateNext id)) { t with
        writing := w
        memory := t.prepareSegment session answered id
        handles := (t.initializeHandle session answered id).toList ++ t.handles }
  | closeHandle {t : Tracing d} {handle : TraceHandle} {submit : SubmitOutcome} {s : ServerState}
      {throws : Bool} {memory : Option SessionId → SegmentId → BufferSegment}
      (opened : handle ∈ t.handles)
      (received : t.receive (some handle) handle.sequenceNumber = some memory)
      (submits : t.SubmitsAll memory fun _ => submit)
      (possible : ∀ loc, t.stream.segments handle.sequenceNumber = some loc → submit.Possible loc)
      (closed : t.writing.server.close handle.session handle.sequenceNumber none false submit =
        some (s, throws)) :
      Step t (.closeHandle handle submit) { t with
        writing := t.writing.record s fun _ => submit
        memory := memory
        handles := if throws then t.handles else t.handles.erase handle }
  | close {t : Tracing d} {session : SessionId} {n : StreamSegmentId} {wait : Option WaitId}
      {ignoreErrors : Bool} {submit : SubmitOutcome} {w : Writing}
      (submits : t.SubmitsAll t.memory fun _ => submit)
      (step : t.writing.Step (.close session n wait ignoreErrors submit) w) :
      Step t (.server (.close session n wait ignoreErrors submit)) { t with writing := w }
  | closeSession {t : Tracing d} {session : SessionId} {wait : Option WaitId} {ignoreErrors : Bool}
      {submit : StreamSegmentId → SubmitOutcome} {w : Writing}
      (submits : t.SubmitsAll t.memory submit)
      (step : t.writing.Step (.closeSession session wait ignoreErrors submit) w) :
      Step t (.server (.closeSession session wait ignoreErrors submit)) { t with writing := w }
  | encoded {t : Tracing d} {n : StreamSegmentId} {frame : Frame} {stored : d.codec.Stored}
      {w : Writing} (encoded : d.codec.encode (t.content n) = some stored)
      (count : frame.rawEntryCount = t.writing.entryCount n)
      (step : t.writing.Step (.encoded n (some frame)) w) :
      Step t (.server (.encoded n (some frame))) { t with
        writing := w
        stored := Function.update t.stored n (some stored) }
  | discarded {t : Tracing d} {n : StreamSegmentId} {w : Writing}
      (step : t.writing.Step (.encoded n none) w) :
      Step t (.server (.encoded n none)) { t with writing := w }

/-- A segment that has entries is not given up because of an exception. -/
def Keeps (ignoreErrors : Bool) (submit : SubmitOutcome) (n : StreamSegmentId) : Prop :=
  ignoreErrors = true → submit = .failed → ∀ id, t.stream.place n = some (.writing id) →
    (t.memory none id).rawEntryCount = 0

/-- The sessions that write take turns: one of them calls `append` only with the handle that is
open, if there is any, and neither its segment nor its session is closed without it. A session that
does not share the buffer gives up its handle only with a call that the server receives. No segment
with entries is given up for an exception, and its encoding succeeds. -/
def Lossless (t : Tracing d) : TraceAction → Prop
  | .getNextEntry _ | .submitEntry _ _ | .closeHandle _ _ => True
  | .release handle => d.shared handle.session = true
  | .append handle _ _ => ∀ h ∈ t.handles, handle = some h
  | .server (.close _ n _ ignoreErrors submit) =>
    (∀ handle ∈ t.handles, handle.sequenceNumber ≠ n) ∧ t.Keeps ignoreErrors submit n
  | .server (.closeSession session _ ignoreErrors submit) =>
    (∀ handle ∈ t.handles, handle.session ≠ session) ∧ ∀ n, t.Keeps ignoreErrors (submit n) n
  | .server (.encoded n frame) => t.writing.Succeeds (.encoded n frame)
  | .server (.submitLast _ _ _) | .server (.allocateNext _) => True

def LosslessStep (t : Tracing d) (a : TraceAction) (t' : Tracing d) : Prop :=
  Step t a t' ∧ t.Lossless a

/-- A new stream, which no session has a handle of yet. -/
structure Initial (t : Tracing d) : Prop where
  writing : t.writing = .fresh
  handles : t.handles = []
  written : t.written = []

def writer (n : StreamSegmentId) : Option SessionId :=
  match t.handles.find? (·.sequenceNumber = n) with
  | none => none
  | some handle => d.side handle.session

def load (n : StreamSegmentId) : List UInt8 := ((t.stored n).bind d.codec.decode).getD []

def segmentEntries (n : StreamSegmentId) : List (List UInt8) :=
  match t.stream.place n with
  | none | some .lost => []
  | some (.writing id) =>
    (t.memory (t.writer n) id).data.records d.stype.entrySize
      (t.memory (t.writer n) id).rawEntryCount
  | some (.encoding id) =>
    (t.memory none id).data.records d.stype.entrySize (t.writing.entryCount n)
  | some (.stored location) =>
    Storage.recordsOf (t.load n) d.stype.entrySize location.rawEntryCount

def entries : List (List UInt8) := (List.range t.stream.size).flatMap t.segmentEntries

end Tracing

end Simutrace
