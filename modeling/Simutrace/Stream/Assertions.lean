import Simutrace.Stream.Access
import Mathlib.Data.Finset.Card

/-! # Assertions on segments

The operations on the segments of a stream check by assertions what they expect of
a segment. They have no effect in a release build.
-/

namespace Simutrace

/-- An operation on the buffer segment has been started and not been completed. -/
def SegmentLocation.InProgress (loc : SegmentLocation) : Prop := loc.id = none ∧ loc.sideId ≠ none

/-- The assertions of `_open` before the stream buffer is asked for the segment. -/
def SegmentLocation.OpenAsserts (n : StreamSegmentId) (loc : SegmentLocation) : Prop :=
  loc.location ≠ none ∧ loc.sequenceNumber = n ∧ loc.id = none ∧ loc.sideId = none ∧
    loc.referenceCount = 0 ∧ loc.referenceMap = 0

namespace ServerStream

variable (s : ServerStream)

/-- The assertions of `_completeSegment`. A wait list is passed for asynchronous operations. -/
def CompleteAsserts (loc : SegmentLocation) (location : Option StorageLocation)
    (success synchronous : Bool) : Prop :=
  loc.sequenceNumber < s.size ∧ s.segments loc.sequenceNumber ≠ none ∧ loc.id = none ∧
    loc.sideId ≠ none ∧ (synchronous = true → loc.waitList = []) ∧
    if loc.location ≠ none then location = none ∨ location = loc.location
    else loc.referenceCount = 1 ∧ loc.referenceMap.toFinset.card = 1 ∧ loc.prefetched = false ∧
      (location ≠ none → success = true)

/-- The assertions of `_open` after the stream buffer has returned. -/
def FinishAsserts (loc : SegmentLocation) (complete : Bool) : Prop :=
  match loc.id, loc.sideId with
  | none, none => complete = true ∧ loc.referenceCount = 0 ∧ loc.referenceMap = 0
  | none, some _ => complete = true → s.CompleteAsserts loc loc.location true true
  | some _, _ => complete = false

end ServerStream

end Simutrace
