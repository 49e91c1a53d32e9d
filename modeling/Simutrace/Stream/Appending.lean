import Simutrace.Library.Transition
import Simutrace.Stream.Neighbours
import Simutrace.Stream.Phases

/-! # Appending to a stream

Sessions append segments to a stream, one after the other. An `append` first
submits the segment that was appended last. It holds the append lock until it
returns, but the lock of the stream only while it submits and while it adds the
new segment, so that sessions close segments and encoders end in between.
-/

namespace Simutrace

/-- The entries that are handed to the encoder. -/
def SubmitOutcome.entryCount : SubmitOutcome → ℕ
  | .failed | .complete _ => 0
  | .pending entryCount => entryCount

/-- What the store tells about an encoded segment. -/
structure Frame where
  cycles : Range
  time : Range
  totalSize : ℕ
  rawEntryCount : ℕ

inductive WriteAction
  | submitLast (session : SessionId) (wait : Option WaitId) (submit : SubmitOutcome)
  | allocateNext (id : Option SegmentId)
  | close (session : SessionId) (sequenceNumber : StreamSegmentId) (wait : Option WaitId)
      (ignoreErrors : Bool) (submit : SubmitOutcome)
  | closeSession (session : SessionId) (wait : Option WaitId) (ignoreErrors : Bool)
      (submit : StreamSegmentId → SubmitOutcome)
  | encoded (sequenceNumber : StreamSegmentId) (frame : Option Frame)

/-- A stream with the session whose `append` is to add a segment, and the index of the first entry
and the number of entries in the control elements of the segments. -/
structure Writing where
  server : ServerState
  appending : Option SessionId
  startIndex : StreamSegmentId → ℕ
  entryCount : StreamSegmentId → ℕ

namespace ServerState

variable (s : ServerState)

/-- `append` until it releases the lock of the stream. The flag tells if it threw an exception. -/
def submitLast (wait : Option WaitId) (submit : SubmitOutcome) : Option (ServerState × Bool) :=
  match s.stream.lastAppendSequenceNumber with
  | none => some (s, false)
  | some n => (s.stream.segments n).map fun loc => s.closeSegment loc wait false submit

end ServerState

def ServerStream.nextSequenceNumber (s : ServerStream) : StreamSegmentId :=
  match s.lastSequenceNumber with
  | none => 0
  | some n => n + 1

def SubmitOutcome.Possible (loc : SegmentLocation) : SubmitOutcome → Prop
  | .failed => True
  | .complete location => location = none
  | .pending entryCount => loc.location = none ∧ 0 < entryCount ∧ entryCount < 2 ^ 32

instance (submit : SubmitOutcome) (loc : SegmentLocation) : Decidable (submit.Possible loc) :=
  match submit with
  | .failed => .isTrue trivial
  | .complete location => decidable_of_iff (location.isNone = true) Option.isNone_iff_eq_none
  | .pending entryCount =>
    decidable_of_iff (loc.location.isNone = true ∧ 0 < entryCount ∧ entryCount < 2 ^ 32)
      (and_congr_left' Option.isNone_iff_eq_none)

def SegmentLocation.writable (loc : SegmentLocation) : Bool := loc.location.isNone && loc.id.isSome

def ServerStream.writable (s : ServerStream) (n : StreamSegmentId) : Bool :=
  (s.segments n).any (·.writable)

def ServerStream.closed (s : ServerStream) (n : StreamSegmentId) : Bool :=
  (s.segments n).any (!·.writable)

section

variable {s : ServerStream} {n : StreamSegmentId} {loc : SegmentLocation}

theorem SegmentLocation.writable_iff :
    loc.writable = true ↔ loc.location = none ∧ loc.id ≠ none := by
  simp [writable, Option.isSome_iff_ne_none]

theorem ServerStream.writable_iff :
    s.writable n = true ↔ ∃ loc, s.segments n = some loc ∧ loc.writable = true := by
  unfold writable
  cases s.segments n <;> simp

theorem ServerStream.closed_iff :
    s.closed n = true ↔ ∃ loc, s.segments n = some loc ∧ loc.writable = false := by
  unfold closed
  cases s.segments n <;> simp

end

/-- The entry counts of the control elements after segments were handed to the encoder. -/
def ServerStream.recordCounts (s s' : ServerStream) (submit : StreamSegmentId → SubmitOutcome)
    (entryCount : StreamSegmentId → ℕ) (n : StreamSegmentId) : ℕ :=
  if s.writable n ∧ s'.closed n then (submit n).entryCount else entryCount n

namespace Writing

variable (w : Writing)

def record (s : ServerState) (submit : StreamSegmentId → SubmitOutcome) : Writing :=
  { w with
    server := s
    entryCount := w.server.stream.recordCounts s.stream submit w.entryCount }

/-- The end of `append`, with the buffer segment that it got. -/
def allocateNext (session : SessionId) (id : Option SegmentId) : Writing :=
  let n := w.server.stream.nextSequenceNumber
  match id with
  | none => { w with appending := none }
  | some id =>
    if n = invalidStreamSegmentId then { w with appending := none }
    else { w with
      server := { w.server with
        stream := { w.server.stream.addSegmentLocation (.allocated n session id) with
          lastSequenceNumber := some n
          lastAppendSequenceNumber := some n }
        buffer := Function.update w.server.buffer id (some n) }
      appending := none
      startIndex := Function.update w.startIndex n w.server.stream.lastAppendIndex
      entryCount := Function.update w.entryCount n 0 }

def makeStorageLocation (n : StreamSegmentId) (frame : Frame) : StorageLocation where
  sequenceNumber := n
  ranges
    | .qIndex =>
      if 0 < w.entryCount n ∧ w.startIndex n ≠ invalidLargeObjectId then
        ⟨w.startIndex n, w.startIndex n + w.entryCount n - 1⟩
      else .invalid
    | .qCycleCount => frame.cycles
    | .qRealTime => frame.time
  compressedSize := frame.totalSize
  rawEntryCount := frame.rawEntryCount

inductive Step : Writing → WriteAction → Writing → Prop
  | submitLast {w : Writing} {session : SessionId} {wait : Option WaitId} {submit : SubmitOutcome}
      {s : ServerState} {throws : Bool} (unlocked : w.appending = none)
      (possible : ∀ n loc, w.server.stream.lastAppendSequenceNumber = some n →
        w.server.stream.segments n = some loc → submit.Possible loc)
      (submitted : w.server.submitLast wait submit = some (s, throws)) :
      Step w (.submitLast session wait submit) { w.record s (fun _ => submit) with
        appending := if throws then none else some session }
  | allocateNext {w : Writing} {session : SessionId} {id : Option SegmentId}
      (appending : w.appending = some session) (free : ∀ i ∈ id, w.server.buffer i = none) :
      Step w (.allocateNext id) (w.allocateNext session id)
  | close {w : Writing} {session : SessionId} {n : StreamSegmentId} {wait : Option WaitId}
      {ignoreErrors throws : Bool} {submit : SubmitOutcome} {s : ServerState}
      (possible : ∀ loc, w.server.stream.segments n = some loc → submit.Possible loc)
      (closed : w.server.close session n wait ignoreErrors submit = some (s, throws)) :
      Step w (.close session n wait ignoreErrors submit) (w.record s fun _ => submit)
  | closeSession {w : Writing} {session : SessionId} {wait : Option WaitId} {ignoreErrors : Bool}
      {submit : StreamSegmentId → SubmitOutcome} {s : ServerState} {rest : List StreamSegmentId}
      (possible : ∀ n loc, w.server.stream.segments n = some loc → (submit n).Possible loc)
      (closed : w.server.closeSession session wait ignoreErrors submit w.server.stream.openList =
        (s, rest)) :
      Step w (.closeSession session wait ignoreErrors submit) (w.record s submit)
  | encoded {w : Writing} {n : StreamSegmentId} {frame : Option Frame} {loc : SegmentLocation}
      {s : ServerState} (segment : w.server.stream.segments n = some loc)
      (encoding : loc.location = none ∧ loc.id = none)
      (completed : w.server.writerMain n (frame.map (w.makeStorageLocation n)) = some s) :
      Step w (.encoded n frame) { w with server := s }

/-- The step of an action, if it can be taken. -/
def perform : WriteAction → Option Writing
  | .submitLast session wait submit =>
    let last := w.server.stream.lastAppendSequenceNumber.bind w.server.stream.segments
    if w.appending.isNone ∧ last.all fun loc => submit.Possible loc then
      (w.server.submitLast wait submit).map fun (s, throws) =>
        { w.record s (fun _ => submit) with appending := if throws then none else some session }
    else none
  | .allocateNext id =>
    w.appending.bind fun session =>
      if id.all fun i => (w.server.buffer i).isNone then some (w.allocateNext session id) else none
  | .close session n wait ignoreErrors submit =>
    if (w.server.stream.segments n).all fun loc => submit.Possible loc then
      (w.server.close session n wait ignoreErrors submit).map fun (s, _) =>
        w.record s fun _ => submit
    else none
  | .closeSession session wait ignoreErrors submit =>
    if (List.range w.server.stream.size).all fun n =>
        (w.server.stream.segments n).all fun loc => (submit n).Possible loc then
      let (s, _) :=
        w.server.closeSession session wait ignoreErrors submit w.server.stream.openList
      some (w.record s submit)
    else none
  | .encoded n frame =>
    if (w.server.stream.segments n).any fun loc => loc.location.isNone && loc.id.isNone then
      (w.server.writerMain n (frame.map (w.makeStorageLocation n))).map fun s =>
        { w with server := s }
    else none

theorem step_perform {w w' : Writing} {a : WriteAction} (h : w.server.stream.Slots)
    (hperform : w.perform a = some w') : Step w a w' := by
  unfold perform at hperform
  cases a with
  | submitLast session wait submit =>
    obtain ⟨⟨hunlocked, hpossible⟩, hsubmit⟩ := Option.ite_none_right_eq_some.mp hperform
    obtain ⟨⟨s, throws⟩, hsubmitted, rfl⟩ := Option.map_eq_some_iff.mp hsubmit
    refine .submitLast (Option.isNone_iff_eq_none.mp hunlocked) (fun n loc hn hloc => ?_) hsubmitted
    rw [hn, Option.bind_some, hloc] at hpossible
    exact of_decide_eq_true hpossible
  | allocateNext id =>
    obtain ⟨session, happending, hallocate⟩ := Option.bind_eq_some_iff.mp hperform
    obtain ⟨hfree, hallocate⟩ := Option.ite_none_right_eq_some.mp hallocate
    obtain rfl := Option.some.inj hallocate
    refine .allocateNext happending ?_
    rintro i rfl
    exact Option.isNone_iff_eq_none.mp hfree
  | close session n wait ignoreErrors submit =>
    obtain ⟨hpossible, hclose⟩ := Option.ite_none_right_eq_some.mp hperform
    obtain ⟨⟨s, throws⟩, hclosed, rfl⟩ := Option.map_eq_some_iff.mp hclose
    refine .close (fun loc hloc => ?_) hclosed
    rw [hloc] at hpossible
    exact of_decide_eq_true hpossible
  | closeSession session wait ignoreErrors submit =>
    obtain ⟨hpossible, hclose⟩ := Option.ite_none_right_eq_some.mp hperform
    obtain rfl := Option.some.inj hclose
    refine .closeSession (fun n loc hloc => ?_) rfl
    have hn := h.lt_size n (by rw [hloc]; exact Option.some_ne_none loc)
    have hall := List.all_eq_true.mp hpossible n (List.mem_range.mpr hn)
    rw [hloc] at hall
    exact of_decide_eq_true hall
  | encoded n frame =>
    obtain ⟨hencoding, hend⟩ := Option.ite_none_right_eq_some.mp hperform
    obtain ⟨s, hcompleted, rfl⟩ := Option.map_eq_some_iff.mp hend
    obtain ⟨loc, hloc, hnone⟩ := (Option.any_eq_true _ _).mp hencoding
    obtain ⟨hlocation, hid⟩ := Bool.and_eq_true_iff.mp hnone
    exact .encoded hloc ⟨Option.isNone_iff_eq_none.mp hlocation, Option.isNone_iff_eq_none.mp hid⟩
      hcompleted

end Writing

end Simutrace
