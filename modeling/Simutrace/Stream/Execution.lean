import Simutrace.Stream.Reader
import Mathlib.Data.Int.Notation

/-! # Runs of a stream

Sessions open and close the segments of a stream while workers read, encode and
complete them. An `open` holds the open lock until it returns, but it releases
the lock of the stream before it looks ahead and while a buffer segment is
requested, so that other operations run in between.
-/

namespace Simutrace

/-- Where an `open` is with the segment it was called for. -/
inductive OpenStage
  | awaiting
  | entered (complete : Bool)
  | done (taken : Bool)
  deriving DecidableEq

/-- An `open` in progress. `ahead` tells that the first segment to read ahead is being requested
from the buffer, and if that was complete. -/
structure OpenCall where
  session : SessionId
  sequenceNumber : StreamSegmentId
  wait : Option WaitId
  readAhead : List StreamSegmentId
  other : sequenceNumber ∉ readAhead
  ahead : Option Bool
  stage : OpenStage
  last : ∀ complete, stage = .entered complete → readAhead = []

namespace OpenCall

variable (o : OpenCall)

def taken : Bool := o.stage = .done true

/-- The call is between `beginOpen` and `finishOpen` of the segment, with the prefetch flag and if
the buffer completed the request. -/
def entered (sequenceNumber : StreamSegmentId) : Option (Bool × Bool) :=
  match o.ahead with
  | some complete =>
    if o.readAhead.head? = some sequenceNumber then some (true, complete) else none
  | none =>
    match o.stage with
    | .entered complete =>
      if o.sequenceNumber = sequenceNumber then some (false, complete) else none
    | _ => none

/-- The call has yet to open the segment it was called for. -/
def awaits (sequenceNumber : StreamSegmentId) : Bool :=
  o.stage = .awaiting ∧ o.sequenceNumber = sequenceNumber

def next : OpenCall :=
  { o with
    readAhead := o.readAhead.tail
    other := fun h => o.other (List.mem_of_mem_tail h)
    last := fun c h => by rw [o.last c h, List.tail_nil]
    ahead := none }

def stop : OpenCall :=
  { o with readAhead := [], other := List.not_mem_nil, last := fun _ _ => rfl, ahead := none }

/-- Go on with the segment the call was made for, when no segments are left to read ahead. -/
def withStage (stage : OpenStage) (last : o.readAhead = []) : OpenCall :=
  { o with stage := stage, last := fun _ _ => last }

end OpenCall

/-- A stream with its pending asynchronous reads and the `open` in progress. The balance counts,
for each segment and session, the opens that succeeded less the closes. -/
structure Execution where
  server : ServerState
  reads : StreamSegmentId → Bool
  opening : Option OpenCall
  balance : StreamSegmentId → SessionId → ℤ

inductive Action
  | load (location : StorageLocation)
  | allocate (session : SessionId) (sequenceNumber : StreamSegmentId) (id : SegmentId)
      (append : Bool)
  | encoded (sequenceNumber : StreamSegmentId) (location : Option StorageLocation)
  | lookup (session : SessionId) (sequenceNumber : StreamSegmentId) (wait : Option WaitId)
      (readAhead : List StreamSegmentId)
  | skipAhead
  | enterAhead (outcome : OpenOutcome)
  | leaveAhead
  | enter (outcome : OpenOutcome)
  | leave
  | ret (throws : Bool)
  | decoded (sequenceNumber : StreamSegmentId) (decode : Bool)
  | close (session : SessionId) (sequenceNumber : StreamSegmentId) (wait : Option WaitId)
      (ignoreErrors : Bool) (submit : SubmitOutcome)
  | closeSession (session : SessionId) (wait : Option WaitId) (ignoreErrors : Bool)
      (submit : StreamSegmentId → SubmitOutcome)

namespace Execution

/-- The `open` in progress for a segment, between `beginOpen` and `finishOpen`. -/
def entered (e : Execution) (sequenceNumber : StreamSegmentId) : Option (Bool × Bool) :=
  e.opening.bind (·.entered sequenceNumber)

def awaited (e : Execution) (sequenceNumber : StreamSegmentId) : Bool :=
  e.opening.any (·.awaits sequenceNumber)

def new : Execution where
  server := .new
  reads _ := false
  opening := none
  balance _ _ := 0

variable (e : Execution)

def account (sequenceNumber : StreamSegmentId) (session : SessionId) (n : ℤ) :
    StreamSegmentId → SessionId → ℤ :=
  fun sqn s => if sqn = sequenceNumber ∧ s = session then e.balance sqn s + n else e.balance sqn s

/-- An `open` that throws an exception was not successful. -/
def abort (o : OpenCall) : Execution :=
  { e with
    opening := none
    balance := if o.taken then e.account o.sequenceNumber o.session (-1) else e.balance }

/-- The stream buffer uses free segments only. -/
def Allocatable (outcome : OpenOutcome) : Prop := ∀ id ∈ outcome.id, e.server.buffer id = none

/-- Enter a segment into the buffer. An asynchronous read leaves it to a worker. -/
def request (loc : SegmentLocation) (prefetch : Bool) (outcome : OpenOutcome) : Execution :=
  { e with
    server := e.server.beginOpen loc prefetch outcome
    reads :=
      if outcome.completes then e.reads else Function.update e.reads loc.sequenceNumber true }

/-- No encoder of the repository completes a write synchronously, and a stored segment is not
encoded again. -/
def Submittable (loc : SegmentLocation) : SubmitOutcome → Prop
  | .failed => True
  | .complete location => location = none
  | .pending _ => loc.location = none

/-- The session has no references to the given segments any more. -/
def settle (session : SessionId) (closed : StreamSegmentId → Prop) [DecidablePred closed] :
    StreamSegmentId → SessionId → ℤ :=
  fun sqn s => if s = session ∧ closed sqn then 0 else e.balance sqn s

inductive Step : Execution → Action → Execution → Prop
  | load {e : Execution} {location : StorageLocation} {stream : ServerStream}
      (new : e.server.stream.segments location.sequenceNumber = none)
      (added : e.server.stream.addSegment location = some stream) :
      Step e (.load location) { e with server := { e.server with stream := stream } }
  | allocate {e : Execution} {session : SessionId} {sqn : StreamSegmentId} {id : SegmentId}
      {append : Bool} (new : e.server.stream.segments sqn = none)
      (free : e.server.buffer id = none) :
      Step e (.allocate session sqn id append) { e with server := { e.server with
        stream := { e.server.stream.addSegmentLocation (.allocated sqn session id) with
          lastAppendSequenceNumber :=
            if append then some sqn else e.server.stream.lastAppendSequenceNumber }
        buffer := Function.update e.server.buffer id (some sqn) } }
  | encoded {e : Execution} {sqn : StreamSegmentId} {loc : SegmentLocation} {id : SegmentId}
      {location : Option StorageLocation} {s : ServerState}
      (segment : e.server.stream.segments sqn = some loc) (notLocated : loc.location = none)
      (notWritable : loc.id = none) (encoding : loc.sideId = some id)
      (link : ∀ l ∈ location, l.sequenceNumber = sqn)
      (completed : e.server.writerMain sqn location = some s) :
      Step e (.encoded sqn location) { e with server := s }
  | lookup {e : Execution} {session : SessionId} {sqn : StreamSegmentId} {wait : Option WaitId}
      {readAhead : List StreamSegmentId} {s : ServerState} {handled : Bool}
      (unlocked : e.opening = none) (other : sqn ∉ readAhead)
      (found : e.server.lookup session sqn wait = some (s, handled)) :
      Step e (.lookup session sqn wait readAhead) { e with
        server := s
        opening := some ⟨session, sqn, wait, readAhead, other, none,
          if handled then .done true else .awaiting, by cases handled <;> rintro _ ⟨⟩⟩
        balance := if handled then e.account sqn session 1 else e.balance }
  | skipAhead {e : Execution} {o : OpenCall} {sqn : StreamSegmentId} {loc : SegmentLocation}
      (opening : e.opening = some o) (free : o.ahead = none) (first : o.readAhead.head? = some sqn)
      (segment : e.server.stream.segments sqn = some loc)
      (unneeded : loc.location = none ∨ loc.referenceCount > 0 ∨ loc.prefetched) :
      Step e .skipAhead { e with opening := some o.next }
  | enterAhead {e : Execution} {o : OpenCall} {sqn : StreamSegmentId} {loc : SegmentLocation}
      {outcome : OpenOutcome} (opening : e.opening = some o) (free : o.ahead = none)
      (first : o.readAhead.head? = some sqn)
      (segment : e.server.stream.segments sqn = some loc) (located : loc.location ≠ none)
      (closed : loc.referenceCount = 0) (needed : loc.prefetched = false)
      (allocatable : e.Allocatable outcome) :
      Step e (.enterAhead outcome)
        (if outcome = .failed then (e.request loc true outcome).abort o
        else { e.request loc true outcome with
          opening := some { o with ahead := some outcome.completes } })
  | leaveAhead {e : Execution} {o : OpenCall} {complete : Bool} {sqn : StreamSegmentId}
      {loc : SegmentLocation} {s : ServerState} (opening : e.opening = some o)
      (entered : o.ahead = some complete) (first : o.readAhead.head? = some sqn)
      (segment : e.server.stream.segments sqn = some loc)
      (finished : e.server.finishOpen o.session loc complete none = some s) :
      Step e .leaveAhead { e with
        server := s
        opening := some (if loc.id = none ∧ loc.sideId = none then o.stop else o.next) }
  | enter {e : Execution} {o : OpenCall} {loc : SegmentLocation} {outcome : OpenOutcome}
      (opening : e.opening = some o) (free : o.ahead = none) (last : o.readAhead = [])
      (awaiting : o.stage = .awaiting)
      (segment : e.server.stream.segments o.sequenceNumber = some loc)
      (allocatable : e.Allocatable outcome) :
      Step e (.enter outcome)
        (if outcome = .failed then (e.request loc false outcome).abort o
        else { e.request loc false outcome with
          opening := some (o.withStage (.entered outcome.completes) last) })
  | leave {e : Execution} {o : OpenCall} {complete : Bool} {loc : SegmentLocation}
      {s : ServerState} (opening : e.opening = some o) (free : o.ahead = none)
      (entered : o.stage = .entered complete)
      (segment : e.server.stream.segments o.sequenceNumber = some loc)
      (finished : e.server.finishOpen o.session loc complete o.wait = some s) :
      Step e .leave (if loc.id = none ∧ loc.sideId = none then
          { e with server := s, opening := some (o.withStage (.done false) (o.last _ entered)) }
        else { e with
          server := s
          opening := some (o.withStage (.done true) (o.last _ entered))
          balance := e.account o.sequenceNumber o.session 1 })
  | ret {e : Execution} {o : OpenCall} {taken throws : Bool} (opening : e.opening = some o)
      (free : o.ahead = none) (last : o.readAhead = []) (stage : o.stage = .done taken) :
      Step e (.ret throws) (if throws then e.abort o else { e with opening := none })
  | decoded {e : Execution} {sqn : StreamSegmentId} {decode : Bool} (read : e.reads sqn = true) :
      Step e (.decoded sqn decode) { e with
        server := e.server.tryProcessWorkItem fun s => s.readerMain sqn false decode
        reads := Function.update e.reads sqn false }
  | close {e : Execution} {session : SessionId} {sqn : StreamSegmentId} {wait : Option WaitId}
      {ignoreErrors : Bool} {submit : SubmitOutcome} {loc : SegmentLocation} {s : ServerState}
      {throws : Bool} (segment : e.server.stream.segments sqn = some loc)
      (submittable : Submittable loc submit)
      (closed : e.server.close session sqn wait ignoreErrors submit = some (s, throws)) :
      Step e (.close session sqn wait ignoreErrors submit) { e with
        server := s
        balance :=
          if loc.location ≠ none ∧ throws = false then e.account sqn session (-1) else e.balance }
  | closeSession {e : Execution} {session : SessionId} {wait : Option WaitId}
      {ignoreErrors : Bool} {submit : StreamSegmentId → SubmitOutcome} {s : ServerState}
      {rest : List StreamSegmentId}
      (submittable : ∀ sqn loc, e.server.stream.segments sqn = some loc →
        Submittable loc (submit sqn))
      (closed : e.server.closeSession session wait ignoreErrors submit e.server.stream.openList =
        (s, rest)) :
      Step e (.closeSession session wait ignoreErrors submit) { e with
        server := s
        balance := e.settle session fun sqn =>
          rest = [] ∨ sqn ∈ e.server.stream.openList ∧ sqn ∉ rest }

/-- A run from one state to another with the actions on the way. -/
inductive Run (P : Execution → Action → Prop) : Execution → Prop
  | new : Run P new
  | step {e e' : Execution} {a : Action} (run : Run P e) (meets : P e a) (step : Step e a e') :
      Run P e'

end Execution

end Simutrace
