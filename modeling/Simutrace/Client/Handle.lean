import Simutrace.Stream.RandomAccess
import Simutrace.Stream.CycleSearch
import Simutrace.Stream.Neighbours

/-! # Read handles

A client reads a stream through a handle, which points into one loaded segment.
When the handle is behind the end or before the start of the segment, the next
or the previous segment is requested from the server.
-/

namespace Simutrace

inductive QueryIndexType
  | tree (type : QueryTree)
  | qSequenceNumber
  | qNextValidSequenceNumber
  | qPreviousValidSequenceNumber
  deriving DecidableEq, Repr

structure StreamAccessFlags where
  reverseQuery : Bool
  reverseRead : Bool
  deriving DecidableEq, Repr

structure StreamOpenQuery where
  type : QueryIndexType
  value : ℕ
  flags : StreamAccessFlags
  deriving DecidableEq, Repr

/-- A type with entries of a fixed size, which is not zero. -/
structure StreamType where
  entrySize : ℕ
  temporalOrder : Bool
  pos : 0 < entrySize

namespace ServerStream

variable (s : ServerStream)

/-- Only queries for a value in a tree are relative to the end of the stream. -/
def adjustOpenQuery (query : StreamOpenQuery) : Option ℕ :=
  match query.type with
  | .tree type => s.adjustQuery query.flags.reverseQuery type query.value
  | _ => some query.value

def findOpenSequenceNumber (type : QueryIndexType) (value : ℕ) : Option StreamSegmentId :=
  let sqn := value % 2 ^ 32
  match type with
  | .tree type => s.findSequenceNumber type value
  | .qSequenceNumber => some sqn
  | .qNextValidSequenceNumber => (s.getNextSegment sqn).map (·.sequenceNumber)
  | .qPreviousValidSequenceNumber => (s.getPreviousSegment sqn).map (·.sequenceNumber)

def findOpenOffset (stype : StreamType) (location : StorageLocation) (cycleCounts : List ℕ)
    (type : QueryIndexType) (value : ℕ) (reverseRead : Bool) : Except QueryError ℕ :=
  let endOffset := location.rawEntryCount * stype.entrySize
  match type with
  | .tree .qIndex => findOffset location stype.entrySize value
  | .tree .qCycleCount =>
    if stype.temporalOrder then
      .ok (findCycleCountBinarySearch cycleCounts stype.entrySize value reverseRead)
    else .error .notSupported
  | .tree .qRealTime | .qSequenceNumber =>
    .ok (if reverseRead then endOffset - stype.entrySize else 0)
  | .qNextValidSequenceNumber => .ok 0
  | .qPreviousValidSequenceNumber => .ok (endOffset - stype.entrySize)

def openQuery (stype : StreamType) (cycleCounts : StreamSegmentId → List ℕ)
    (query : StreamOpenQuery) : Except QueryError (StreamSegmentId × StorageLocation × ℕ) :=
  match s.adjustOpenQuery query with
  | none => .error .notFound
  | some value =>
    match s.findOpenSequenceNumber query.type value with
    | none => .error .notFound
    | some n =>
      if s.size ≤ n then .error .notFound
      else
        match s.segments n with
        | none => .error .notFound
        | some loc =>
          match loc.location with
          | none => .error .operationInProgress
          | some location =>
            (findOpenOffset stype location (cycleCounts n) query.type value
              query.flags.reverseRead).map fun offset => (n, location, offset)

end ServerStream

/-- The entries and limits of a handle are relative to the start of its segment. A handle without
control element is invalid. -/
structure StreamHandle where
  accessFlags : StreamAccessFlags
  sequenceNumber : StreamSegmentId
  control : Bool
  entry : ℤ
  segmentEnd : ℤ
  deriving DecidableEq, Repr

/-- The stream as each call finds it, the cycle counts of its entries, and which segments can be
loaded. -/
structure StreamReads where
  stype : StreamType
  view : ℕ → ServerStream
  cycleCounts : StreamSegmentId → List ℕ
  loads : StreamSegmentId → Bool

namespace StreamReads

variable (r : StreamReads)

/-- The answer of the server to a request, or none if it throws an exception. -/
def closeAndOpen (call : ℕ) (query : StreamOpenQuery) :
    Option (StreamSegmentId × StorageLocation × ℕ) :=
  match (r.view call).openQuery r.stype r.cycleCounts query with
  | .error _ => none
  | .ok (n, location, offset) => if r.loads n then some (n, location, offset) else none

def initializeStaticHandle (flags : StreamAccessFlags) :
    StreamSegmentId × StorageLocation × ℕ → StreamHandle
  | (n, location, offset) =>
    ⟨flags, n, true, offset, (location.rawEntryCount * r.stype.entrySize : ℕ)⟩

def openHandle (call : ℕ) (query : StreamOpenQuery) : Option StreamHandle :=
  (r.closeAndOpen call query).map (r.initializeStaticHandle query.flags)

/-- Move a handle to another segment. If this fails, the handle is invalid but keeps its flags and
its number. -/
def reopen (call : ℕ) (query : StreamOpenQuery) (handle : StreamHandle) : StreamHandle :=
  match r.closeAndOpen call query with
  | some answer => r.initializeStaticHandle query.flags answer
  | none => ⟨query.flags, handle.sequenceNumber, false, 0, 0⟩

/-- The entry at the handle, and the handle moved to another one. After a call has failed, a handle
can only be opened again. -/
def returnEntry (call : ℕ) (handle : StreamHandle) (move : ℤ) :
    (ℕ × StreamHandle) × Option (StreamSegmentId × ℤ) :=
  if handle.control then
    ((call + 1, { handle with entry := handle.entry + move }),
      some (handle.sequenceNumber, handle.entry))
  else ((call + 1, handle), none)

def getNextEntryFast : ℕ × StreamHandle → (ℕ × StreamHandle) × Option (StreamSegmentId × ℤ)
  | (call, handle) =>
    if handle.entry + r.stype.entrySize > handle.segmentEnd then
      returnEntry call (r.reopen call ⟨.qNextValidSequenceNumber, handle.sequenceNumber,
        { handle.accessFlags with reverseRead := false }⟩ handle) r.stype.entrySize
    else returnEntry call handle r.stype.entrySize

def getPreviousEntryFast : ℕ × StreamHandle → (ℕ × StreamHandle) × Option (StreamSegmentId × ℤ)
  | (call, handle) =>
    if handle.entry < 0 then
      returnEntry call (r.reopen call ⟨.qPreviousValidSequenceNumber, handle.sequenceNumber,
        { handle.accessFlags with reverseRead := true }⟩ handle) (-r.stype.entrySize)
    else returnEntry call handle (-r.stype.entrySize)

end StreamReads

end Simutrace
