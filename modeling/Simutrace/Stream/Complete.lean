import Simutrace.Stream.Types

/-! # Completion of segments

Encoders and decoders report the end of their work on a segment to the stream,
which updates the state of the segment, its buffer segment and all waits that
are registered on it.
-/

namespace Simutrace

/-- The number of operations a waiter waits for, and the segments of those that failed. -/
structure StreamWait where
  count : ℕ
  errors : List StreamSegmentId

namespace StreamWait

def increment (wait : StreamWait) : StreamWait :=
  { wait with count := (wait.count + 1) % 2 ^ 32 }

def decrement (wait : StreamWait) : StreamWait :=
  { wait with count := (wait.count + (2 ^ 32 - 1)) % 2 ^ 32 }

def pushError (wait : StreamWait) (error : StreamSegmentId) : StreamWait :=
  { wait with errors := wait.errors ++ [error] }

def notify (success : Bool) (sequenceNumber : StreamSegmentId) (wait : StreamWait) : StreamWait :=
  (if success then wait else wait.pushError sequenceNumber).decrement

end StreamWait

/-- A segment that was encoded gets its location, and one without a location is deleted. The result
is `none` if the ranges of the location are rejected. -/
def ServerStream.completeEncoding (s : ServerStream) (loc : SegmentLocation)
    (location : Option StorageLocation) (synchronous : Bool) : Option ServerStream :=
  let sqn := loc.sequenceNumber
  match location with
  | some location => do
    let stream ← s.addSegment location
    let loc' := (stream.segments sqn).map fun loc => { loc with
      sideId := none
      referenceCount := 0
      referenceMap := 0
      cancel := false
      waitList := if synchronous then loc.waitList else [] }
    some { stream.setSegment sqn loc' with openList := stream.openList.filter (· ≠ sqn) }
  | none => some { s.setSegment sqn none with openList := s.openList.filter (· ≠ sqn) }

/-- A stream, the buffer segments in use with the stream segments in them, and the waits. -/
structure ServerState where
  stream : ServerStream
  buffer : SegmentId → Option StreamSegmentId
  waits : WaitId → StreamWait

namespace ServerState

def new : ServerState where
  stream := .new
  buffer _ := none
  waits _ := ⟨0, []⟩

variable (s : ServerState)

def releaseBuffer (buffer : SegmentId → Option StreamSegmentId) :
    Option SegmentId → SegmentId → Option StreamSegmentId
  | none => buffer
  | some id => Function.update buffer id none

def notifyWaits (success : Bool) (sequenceNumber : StreamSegmentId) (waitList : List WaitId)
    (waits : WaitId → StreamWait) : WaitId → StreamWait :=
  waitList.foldl (fun waits w =>
    Function.update waits w ((waits w).notify success sequenceNumber)) waits

/-- The waits are told of an asynchronous completion and are then no longer registered. -/
def completeWaits (loc : SegmentLocation) (success synchronous : Bool) : WaitId → StreamWait :=
  if synchronous then s.waits else notifyWaits success loc.sequenceNumber loc.waitList s.waits

/-- Decoding, closing: without a location, or if it was canceled, the operation is undone. -/
def completeRead (loc : SegmentLocation) (located success synchronous : Bool) : ServerState :=
  let sqn := loc.sequenceNumber
  let waitList := if synchronous then loc.waitList else []
  let waits := s.completeWaits loc success synchronous
  if !located || loc.cancel then
    let loc' := { loc with
      id := none
      sideId := none
      cancel := false
      prefetched := if success then loc.prefetched else false
      referenceCount := 0
      referenceMap := 0
      waitList := waitList }
    { stream := { s.stream.setSegment sqn (some loc') with
        openList := s.stream.openList.filter (· ≠ sqn) }
      buffer :=
        if !success then releaseBuffer s.buffer loc.sideId
        else if loc.cancel then releaseBuffer s.buffer loc.sideId
        else s.buffer
      waits := waits }
  else
    let loc' := { loc with
      id := loc.sideId
      sideId := none
      cancel := false
      waitList := waitList }
    { s with stream := s.stream.setSegment sqn (some loc'), waits := waits }

def completeWrite (loc : SegmentLocation) (location : Option StorageLocation)
    (success synchronous : Bool) : Option ServerState := do
  let stream ← s.stream.completeEncoding loc location synchronous
  some {
    stream := stream
    buffer :=
      match location with
      | some _ => if synchronous then s.buffer else releaseBuffer s.buffer loc.sideId
      | none => if !synchronous || !success then releaseBuffer s.buffer loc.sideId else s.buffer
    waits := s.completeWaits loc success synchronous }

/-- The end of an operation on a segment. The result is `none` if the ranges of a location are
rejected; nothing has changed then. -/
def completeLocked (sequenceNumber : StreamSegmentId) (location : Option StorageLocation)
    (success synchronous : Bool) : Option ServerState := do
  let loc ← s.stream.segments sequenceNumber
  match loc.location with
  | some _ => some (s.completeRead loc location.isSome success synchronous)
  | none => s.completeWrite loc location success synchronous

def completeSegment (sequenceNumber : StreamSegmentId) : Option ServerState :=
  if s.stream.SegmentIsAllocated sequenceNumber then
    s.completeLocked sequenceNumber
      ((s.stream.segments sequenceNumber).bind (·.location)) true false
  else none

/-- Complete a written segment; without a location its encoding failed. -/
def completeSegmentWith (sequenceNumber : StreamSegmentId) (location : Option StorageLocation) :
    Option ServerState :=
  if ¬ s.stream.SegmentIsAllocated sequenceNumber ∨
      (s.stream.segments sequenceNumber).bind (·.location) ≠ none then none
  else s.completeLocked sequenceNumber location location.isSome false

/-- Read a segment; `decode` tells if the decoder ran without an exception. Only an asynchronous
read completes the segment itself. The result is `none` if it ends with an exception. -/
def readerMain (sequenceNumber : StreamSegmentId) (synchronous decode : Bool) :
    Option ServerState :=
  if synchronous then
    if decode then some s else none
  else
    match if decode then s.completeSegment sequenceNumber else none with
    | some s' => some s'
    | none => s.completeSegmentWith sequenceNumber none

def writerMain (sequenceNumber : StreamSegmentId) (location : Option StorageLocation) :
    Option ServerState :=
  match if location.isSome then s.completeSegmentWith sequenceNumber location else none with
  | some s' => some s'
  | none => s.completeSegmentWith sequenceNumber none

def tryProcessWorkItem (s : ServerState) (execute : ServerState → Option ServerState) :
    ServerState :=
  (execute s).getD s

end ServerState

end Simutrace
