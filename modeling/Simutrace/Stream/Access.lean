import Simutrace.Stream.Complete
import Mathlib.Data.Multiset.Filter

/-! # Opening and closing segments

Sessions hold references to the segments of a stream. The first reference loads
a segment into a buffer segment, also ahead of the reads of a sequential scan,
and the last one gives the buffer segment back.
-/

namespace Simutrace

/-- What the stream buffer did to open a segment: it ran out of segments, had or synchronously
read the data, started an asynchronous read, or threw an exception. -/
inductive OpenOutcome
  | noMemory
  | complete (id : SegmentId)
  | loading (id : SegmentId)
  | failed
  deriving DecidableEq

def OpenOutcome.id : OpenOutcome → Option SegmentId
  | noMemory | failed => none
  | complete id | loading id => some id

/-- The request is not left to a worker. -/
def OpenOutcome.completes : OpenOutcome → Bool
  | loading _ => false
  | noMemory | complete _ | failed => true

/-- What the stream buffer did with a submitted segment: it threw an exception, finished the
segment, possibly with a location, or started to encode it. -/
inductive SubmitOutcome
  | failed
  | complete (location : Option StorageLocation)
  | pending (entryCount : ℕ)

def SegmentLocation.addReference (session : SessionId) (loc : SegmentLocation) :
    SegmentLocation :=
  { loc with
    referenceCount := loc.referenceCount + 1
    referenceMap := session ::ₘ loc.referenceMap }

/-- Another reference to a segment, which is the one of the read ahead if that is still in
progress. -/
def SegmentLocation.shareReference (session : SessionId) (loc : SegmentLocation) :
    SegmentLocation :=
  { loc with
    referenceCount := if loc.prefetched then loc.referenceCount else loc.referenceCount + 1
    referenceMap := session ::ₘ (if loc.prefetched then 0 else loc.referenceMap)
    prefetched := false
    cancel := false }

namespace ServerState

variable (s : ServerState)

def registerWait (loc : SegmentLocation) : Option WaitId → ServerState
  | none => { s with stream := s.stream.setSegment loc.sequenceNumber (some loc) }
  | some w =>
    { s with
      stream := s.stream.setSegment loc.sequenceNumber
        (some { loc with waitList := loc.waitList ++ [w] })
      waits := Function.update s.waits w (s.waits w).increment }

/-- The start of `open`. A segment with references gets another one. The flag tells if the segment
has been handled. -/
def lookup (session : SessionId) (sequenceNumber : StreamSegmentId) (wait : Option WaitId) :
    Option (ServerState × Bool) := do
  let loc ← s.stream.segments sequenceNumber
  if sequenceNumber ≥ s.stream.size ∨ loc.location = none then none
  else if loc.referenceCount > 0 then
    some (s.registerWait (loc.shareReference session) (if loc.id = none then wait else none), true)
  else some (s, false)

/-- `_open` up to the return of the stream buffer. If this throws, the flags stay as they are. -/
def beginOpen (loc : SegmentLocation) (prefetch : Bool) (outcome : OpenOutcome) : ServerState :=
  { s with
    stream := s.stream.setSegment loc.sequenceNumber
      (some { loc with prefetched := prefetch, cancel := prefetch, sideId := outcome.id })
    buffer :=
      match outcome.id with
      | none => s.buffer
      | some id => Function.update s.buffer id (some loc.sequenceNumber) }

def addReference (session : SessionId) (loc : SegmentLocation) : ServerState :=
  { s with
    stream := { s.stream.setSegment loc.sequenceNumber (some (loc.addReference session)) with
      openList := s.stream.openList ++ [loc.sequenceNumber] } }

/-- `_open` after the return of the stream buffer. An asynchronous read may have been completed
before. -/
def finishOpen (session : SessionId) (loc : SegmentLocation) (complete : Bool)
    (wait : Option WaitId) : Option ServerState :=
  match loc.id, loc.sideId with
  | none, none =>
    some { s with
      stream := s.stream.setSegment loc.sequenceNumber
        (some { loc with cancel := false, prefetched := false })
      waits :=
        match wait with
        | none => s.waits
        | some w => Function.update s.waits w ((s.waits w).pushError loc.sequenceNumber) }
  | none, some _ =>
    let s' := s.addReference session loc
    if complete then s'.completeLocked loc.sequenceNumber loc.location true true
    else some (s'.registerWait (loc.addReference session) wait)
  | some _, _ =>
    let s' := s.addReference session loc
    if complete then s'.completeLocked loc.sequenceNumber loc.location true true else some s'

def finishAppend (sequenceNumber : StreamSegmentId) (entryCount : ℕ) : ServerState :=
  if s.stream.lastAppendSequenceNumber = some sequenceNumber then
    { s with stream := { s.stream with
        lastAppendIndex := (s.stream.lastAppendIndex + entryCount) % 2 ^ 64
        lastAppendSequenceNumber := none } }
  else s

/-- `_close`, the last reference to a segment is given back. The flag tells if it threw an
exception. -/
def closeSegment (loc : SegmentLocation) (wait : Option WaitId) (ignoreErrors : Bool)
    (submit : SubmitOutcome) : ServerState × Bool :=
  let sqn := loc.sequenceNumber
  match loc.id with
  | none => (s.registerWait { loc with cancel := true } wait, false)
  | some id =>
    let loc' := { loc with sideId := some id, id := none }
    let submitted := { s with
      stream := s.stream.setSegment sqn (some loc')
      buffer := releaseBuffer s.buffer (some id) }
    let kept := { s with stream := s.stream.setSegment sqn (some loc') }
    match submit with
    | .failed =>
      if !ignoreErrors && loc.location.isNone then (s, true)
      else
        match kept.completeLocked sqn none false true with
        | some s' => (s'.finishAppend sqn 0, false)
        | none => (kept, true)
    | .complete location =>
      match submitted.completeLocked sqn location true true with
      | some s' => (s'.finishAppend sqn ((location.map (·.getEntryCount)).getD 0), false)
      | none => (submitted, true)
    | .pending entryCount => ((s.registerWait loc' wait).finishAppend sqn entryCount, false)

/-- `close`, one reference of a session is given back. The result is `none` if the session holds
no reference to the segment. -/
def close (session : SessionId) (sequenceNumber : StreamSegmentId) (wait : Option WaitId)
    (ignoreErrors : Bool) (submit : SubmitOutcome) : Option (ServerState × Bool) := do
  let loc ← s.stream.segments sequenceNumber
  if loc.referenceCount = 0 ∨ session ∉ loc.referenceMap then none
  else if loc.referenceCount = 1 then some (s.closeSegment loc wait ignoreErrors submit)
  else
    some ({ s with stream := s.stream.setSegment sequenceNumber (some { loc with
      referenceCount := loc.referenceCount - 1
      referenceMap := loc.referenceMap.erase session }) }, false)

def closeReferences (session : SessionId) (wait : Option WaitId) (ignoreErrors : Bool)
    (submit : SubmitOutcome) (sequenceNumber : StreamSegmentId) : ServerState × Bool :=
  match s.stream.segments sequenceNumber with
  | none => (s, false)
  | some loc =>
    if session ∈ loc.referenceMap then
      if loc.referenceCount = loc.referenceMap.count session then
        s.closeSegment loc wait ignoreErrors submit
      else
        ({ s with stream := s.stream.setSegment sequenceNumber (some { loc with
          referenceCount := loc.referenceCount - loc.referenceMap.count session
          referenceMap := loc.referenceMap.filter (· ≠ session) }) }, false)
    else (s, false)

/-- All references of a session are given back, until one throws an exception. The result has the
segments that have not been closed then. -/
def closeSession (session : SessionId) (wait : Option WaitId) (ignoreErrors : Bool)
    (submit : StreamSegmentId → SubmitOutcome) :
    List StreamSegmentId → ServerState → ServerState × List StreamSegmentId
  | [], s => (s, [])
  | sqn :: openList, s =>
    match s.closeReferences session wait ignoreErrors (submit sqn) sqn with
    | (s, true) => (s, sqn :: openList)
    | (s, false) => closeSession session wait ignoreErrors submit openList s

end ServerState

end Simutrace
