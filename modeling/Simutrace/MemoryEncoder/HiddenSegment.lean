import Simutrace.Manager.Types
import Simutrace.Stream.Changes
import Simutrace.Stream.Reader

/-! # Segments of hidden streams

The memory encoder keeps its data in hidden streams, whose segments only the
server itself adds, opens and closes. One segment then is in one of a few
states, and the calls of the encoder are steps between these.
-/

namespace Simutrace

open Manager

namespace ServerState

variable (s : ServerState)

/-- `addSegment`, with the outcome of the request of a buffer segment. The result has the id that
is returned, unless an exception is thrown. -/
def addSegment (session : SessionId) (sequenceNumber : StreamSegmentId) (outcome : OpenOutcome) :
    ServerState × Option (Option SegmentId) :=
  if s.stream.SegmentIsAllocated sequenceNumber ∨ outcome = .failed then (s, none)
  else
    match outcome.id with
    | none => (s, some none)
    | some id =>
      ({ s with
        stream := s.stream.addSegmentLocation (.allocated sequenceNumber session id)
        buffer := Function.update s.buffer id (some sequenceNumber) }, some (some id))

/-- `open` of a sequence number without read ahead. -/
def openSequenceNumber (session : SessionId) (sequenceNumber : StreamSegmentId)
    (wait : Option WaitId) (outcome : OpenOutcome) : ServerState × Option (Option SegmentId) :=
  match s.lookup session sequenceNumber wait, s.stream.segments sequenceNumber with
  | some (s', true), some loc => (s', some (if loc.id = none then loc.sideId else loc.id))
  | some (s', false), some loc =>
    let begun := s'.beginOpen loc false outcome
    match outcome, begun.stream.segments sequenceNumber with
    | .failed, _ | _, none => (begun, none)
    | outcome, some loc =>
      ((begun.finishOpen session loc outcome.completes wait).getD begun, some outcome.id)
  | _, _ => (s, none)

end ServerState

/-- A segment of a hidden stream: `new` segments are filled, `stored` ones can be opened, and
`others` counts the references of the server beyond the first. -/
inductive HiddenSegment
  | absent
  | new (id : SegmentId)
  | encoding (id : SegmentId)
  | stored
  | loading (id : SegmentId) (others : ℕ)
  | canceled (id : SegmentId)
  | loaded (id : SegmentId) (others : ℕ)
  deriving DecidableEq

namespace HiddenSegment

def add : HiddenSegment → OpenOutcome → HiddenSegment × Option (Option SegmentId)
  | absent, .complete id | absent, .loading id => (new id, some (some id))
  | absent, .noMemory => (absent, some none)
  | h, _ => (h, none)

def openSegment : HiddenSegment → OpenOutcome → HiddenSegment × Option (Option SegmentId)
  | stored, .complete id => (loaded id 0, some (some id))
  | stored, .loading id => (loading id 0, some (some id))
  | stored, .noMemory => (stored, some none)
  | loading id n, _ => (loading id (n + 1), some (some id))
  | canceled id, _ => (loading id 1, some (some id))
  | loaded id n, _ => (loaded id (n + 1), some (some id))
  | h, _ => (h, none)

/-- The wait that is passed to `open` is registered for a load. -/
def registersWait : HiddenSegment → OpenOutcome → Bool
  | stored, .loading _ | loading _ _, _ | canceled _, _ => true
  | _, _ => false

/-- The wait that is passed to `open` counts loads and learns of a lack of memory. -/
def notifyWait (sequenceNumber : StreamSegmentId) (wait : StreamWait) (h : HiddenSegment)
    (outcome : OpenOutcome) : StreamWait :=
  if h.registersWait outcome then wait.increment
  else if h = stored ∧ outcome = .noMemory then wait.pushError sequenceNumber
  else wait

/-- `close`, which also says if an exception was thrown. -/
def close : HiddenSegment → SubmitOutcome → HiddenSegment × Bool
  | absent, _ => (absent, true)
  | stored, _ => (stored, true)
  | new id, .failed => (new id, true)
  | new _, .complete _ => (absent, false)
  | new id, .pending _ => (encoding id, false)
  | encoding id, _ => (encoding id, false)
  | loading id 0, _ | canceled id, _ => (canceled id, false)
  | loading id (n + 1), _ => (loading id n, false)
  | loaded _ 0, _ => (stored, false)
  | loaded id (n + 1), _ => (loaded id n, false)

/-- The end of a load. A load that fails is never completed. -/
def finishLoad : HiddenSegment → HiddenSegment
  | loading id n => loaded id n
  | canceled _ => stored
  | h => h

def finishEncoding (located : Bool) : HiddenSegment → HiddenSegment
  | encoding _ => if located then stored else absent
  | h => h

end HiddenSegment

def SegmentLocation.HeldBy (loc : SegmentLocation) (references : ℕ) : Prop :=
  loc.referenceCount = references ∧
    loc.referenceMap = Multiset.replicate references serverSessionId ∧ loc.prefetched = false

def SegmentLocation.ShownAs (loc : SegmentLocation) : HiddenSegment → Prop
  | .absent => False
  | .new id => loc.location = none ∧ loc.id = some id ∧ loc.sideId = none ∧ loc.HeldBy 1
  | .encoding id => loc.location = none ∧ loc.id = none ∧ loc.sideId = some id ∧ loc.HeldBy 1
  | .stored => loc.location ≠ none ∧ loc.id = none ∧ loc.sideId = none ∧ loc.HeldBy 0
  | .loading id n => loc.location ≠ none ∧ loc.id = none ∧ loc.sideId = some id ∧
      loc.cancel = false ∧ loc.HeldBy (n + 1)
  | .canceled id => loc.location ≠ none ∧ loc.id = none ∧ loc.sideId = some id ∧
      loc.cancel = true ∧ loc.HeldBy 1
  | .loaded id n => loc.location ≠ none ∧ loc.id = some id ∧ loc.sideId = none ∧
      loc.HeldBy (n + 1)

namespace ServerState

def Shows (s : ServerState) (sequenceNumber : StreamSegmentId) (h : HiddenSegment) : Prop :=
  match s.stream.segments sequenceNumber with
  | none => h = .absent
  | some loc => sequenceNumber < s.stream.size ∧ loc.sequenceNumber = sequenceNumber ∧
      loc.ShownAs h

variable {s : ServerState} {sequenceNumber : StreamSegmentId} {h : HiddenSegment}

theorem Shows.none_of_absent (shown : s.Shows sequenceNumber .absent) :
    s.stream.segments sequenceNumber = none := by
  unfold Shows at shown
  split at shown
  · assumption
  · exact shown.2.2.elim

theorem Shows.exists_loc (shown : s.Shows sequenceNumber h) (present : h ≠ .absent) :
    ∃ loc, s.stream.segments sequenceNumber = some loc ∧ sequenceNumber < s.stream.size ∧
      loc.sequenceNumber = sequenceNumber ∧ loc.ShownAs h := by
  unfold Shows at shown
  split at shown
  · exact absurd shown present
  · exact ⟨_, ‹_›, shown⟩

theorem shows_of_segment {loc : SegmentLocation}
    (segment : s.stream.segments sequenceNumber = some loc) (size : sequenceNumber < s.stream.size)
    (number : loc.sequenceNumber = sequenceNumber) (shown : loc.ShownAs h) :
    s.Shows sequenceNumber h := by
  unfold Shows
  rw [segment]
  exact ⟨size, number, shown⟩

theorem shows_absent (segment : s.stream.segments sequenceNumber = none) :
    s.Shows sequenceNumber .absent := by
  unfold Shows
  rw [segment]

theorem shows_addSegment (shown : s.Shows sequenceNumber h) (outcome : OpenOutcome) :
    (s.addSegment serverSessionId sequenceNumber outcome).1.Shows sequenceNumber
        (h.add outcome).1 ∧
      (s.addSegment serverSessionId sequenceNumber outcome).2 = (h.add outcome).2 := by
  by_cases habs : h = .absent
  · subst habs
    have hnone := shown.none_of_absent
    have hfree : ¬ s.stream.SegmentIsAllocated sequenceNumber := fun ha => ha.2 hnone
    cases outcome with
    | failed => simp [addSegment, HiddenSegment.add, shown]
    | noMemory => simp [addSegment, hfree, OpenOutcome.id, HiddenSegment.add, shown]
    | complete id | loading id =>
      simp only [addSegment, hfree, OpenOutcome.id, HiddenSegment.add, reduceCtorEq, or_self,
        if_false, and_true]
      refine @shows_of_segment _ _ _ (.allocated sequenceNumber serverSessionId id)
        (Function.update_self ..) (lt_max_of_lt_right (Nat.lt_succ_self _)) rfl ?_
      exact ⟨rfl, rfl, rfl, rfl, rfl, rfl⟩
  · obtain ⟨loc, hseg, hsize, -⟩ := shown.exists_loc habs
    have halloc : s.stream.SegmentIsAllocated sequenceNumber := ⟨hsize, by simp [hseg]⟩
    have hadd : h.add outcome = (h, none) := by
      cases h <;> first | rfl | exact absurd rfl habs
    rw [hadd]
    simp [addSegment, halloc, shown]

theorem shows_registerWait (loc : SegmentLocation) (wait : Option WaitId)
    (size : loc.sequenceNumber < s.stream.size) (shown : loc.ShownAs h) :
    (s.registerWait loc wait).Shows loc.sequenceNumber h := by
  cases wait with
  | none => exact shows_of_segment (Function.update_self ..) size rfl shown
  | some w =>
    refine @shows_of_segment _ _ _ { loc with waitList := loc.waitList ++ [w] }
      (Function.update_self ..) size rfl ?_
    cases h <;> exact shown

theorem heldBy_shareReference {loc : SegmentLocation} {n : ℕ} (held : loc.HeldBy n) :
    (loc.shareReference serverSessionId).HeldBy (n + 1) := by
  obtain ⟨hcount, hmap, hprefetched⟩ := held
  refine ⟨?_, ?_, rfl⟩
  · simp [SegmentLocation.shareReference, hprefetched, hcount]
  · simp [SegmentLocation.shareReference, hprefetched, hmap, Multiset.replicate_succ]

theorem openSequenceNumber_shared {loc : SegmentLocation} (wait : Option WaitId)
    (outcome : OpenOutcome) (segment : s.stream.segments sequenceNumber = some loc)
    (size : sequenceNumber < s.stream.size) (located : loc.location ≠ none)
    (referenced : 0 < loc.referenceCount) :
    s.openSequenceNumber serverSessionId sequenceNumber wait outcome =
      (s.registerWait (loc.shareReference serverSessionId) (if loc.id = none then wait else none),
        some (if loc.id = none then loc.sideId else loc.id)) := by
  have hlookup : s.lookup serverSessionId sequenceNumber wait =
      some (s.registerWait (loc.shareReference serverSessionId)
        (if loc.id = none then wait else none), true) := by
    simp [lookup, segment, located, referenced, Nat.not_le.mpr size]
  unfold openSequenceNumber
  rw [hlookup, segment]

theorem heldBy_addReference {loc : SegmentLocation} {n : ℕ} (held : loc.HeldBy n) :
    (loc.addReference serverSessionId).HeldBy (n + 1) := by
  obtain ⟨hcount, hmap, hprefetched⟩ := held
  exact ⟨by simp [SegmentLocation.addReference, hcount],
    by simp [SegmentLocation.addReference, hmap, Multiset.replicate_succ], hprefetched⟩

section FinishOpen

variable (loc : SegmentLocation) (wait : Option WaitId)

theorem shows_finishOpen_noMemory (complete : Bool) (size : loc.sequenceNumber < s.stream.size)
    (located : loc.location ≠ none) (free : loc.id = none) (failed : loc.sideId = none)
    (held : loc.HeldBy 0) :
    ∃ s', s.finishOpen serverSessionId loc complete wait = some s' ∧
      s'.Shows loc.sequenceNumber .stored := by
  unfold finishOpen
  rw [free, failed]
  obtain ⟨hcount, hmap, -⟩ := held
  exact ⟨_, rfl, shows_of_segment (Function.update_self ..) size rfl
    ⟨located, rfl, rfl, hcount, hmap, rfl⟩⟩

theorem shows_finishOpen_complete {id : SegmentId} (size : loc.sequenceNumber < s.stream.size)
    (located : loc.location ≠ none) (free : loc.id = none) (side : loc.sideId = some id)
    (cancel : loc.cancel = false) (held : loc.HeldBy 0) :
    ∃ s', s.finishOpen serverSessionId loc true wait = some s' ∧
      s'.Shows loc.sequenceNumber (.loaded id 0) := by
  obtain ⟨location, hlocation⟩ := Option.ne_none_iff_exists'.mp located
  have hseg : (s.addReference serverSessionId loc).stream.segments loc.sequenceNumber =
      some (loc.addReference serverSessionId) := Function.update_self ..
  have hcomplete := @completeLocked_of_located _ _ _ loc.location true true hseg located
  have hkept : (loc.addReference serverSessionId).cancel = false := cancel
  unfold finishOpen
  rw [free, side]
  refine ⟨_, (if_pos rfl).trans hcomplete, ?_⟩
  simp only [hlocation, Option.isSome_some, completeRead, hkept, Bool.not_true, Bool.or_false]
  exact shows_of_segment (Function.update_self ..) size rfl
    ⟨located, side, rfl, heldBy_addReference held⟩

theorem shows_finishOpen_loading {id : SegmentId} (size : loc.sequenceNumber < s.stream.size)
    (located : loc.location ≠ none) (free : loc.id = none) (side : loc.sideId = some id)
    (cancel : loc.cancel = false) (held : loc.HeldBy 0) :
    ∃ s', s.finishOpen serverSessionId loc false wait = some s' ∧
      s'.Shows loc.sequenceNumber (.loading id 0) := by
  unfold finishOpen
  rw [free, side]
  exact ⟨_, rfl, shows_registerWait (s := s.addReference serverSessionId loc)
    (loc.addReference serverSessionId) wait size
    ⟨located, free, side, cancel, heldBy_addReference held⟩⟩

end FinishOpen

theorem shows_openSequenceNumber (shown : s.Shows sequenceNumber h) (wait : Option WaitId)
    (outcome : OpenOutcome) :
    (s.openSequenceNumber serverSessionId sequenceNumber wait outcome).1.Shows sequenceNumber
        (h.openSegment outcome).1 ∧
      (s.openSequenceNumber serverSessionId sequenceNumber wait outcome).2 =
        (h.openSegment outcome).2 := by
  cases h with
  | absent =>
    have hnone := shown.none_of_absent
    simp [openSequenceNumber, lookup, hnone, HiddenSegment.openSegment, shown]
  | new id | encoding id =>
    obtain ⟨loc, hseg, -, -, hloc⟩ := shown.exists_loc (by simp)
    simp [openSequenceNumber, lookup, hseg, hloc.1, HiddenSegment.openSegment, shown]
  | loading id n | canceled id =>
    obtain ⟨loc, hseg, hsize, rfl, hloc, hid, hside, -, hheld⟩ := shown.exists_loc (by simp)
    rw [openSequenceNumber_shared wait outcome hseg hsize hloc (by rw [hheld.1]; omega)]
    refine ⟨shows_registerWait (loc.shareReference serverSessionId) _ hsize
      ⟨hloc, hid, hside, rfl, heldBy_shareReference hheld⟩, ?_⟩
    simp [hid, hside, HiddenSegment.openSegment]
  | loaded id n =>
    obtain ⟨loc, hseg, hsize, rfl, hloc, hid, hside, hheld⟩ := shown.exists_loc (by simp)
    rw [openSequenceNumber_shared wait outcome hseg hsize hloc (by rw [hheld.1]; omega)]
    refine ⟨shows_registerWait (loc.shareReference serverSessionId) _ hsize
      ⟨hloc, hid, hside, heldBy_shareReference hheld⟩, ?_⟩
    simp [hid, HiddenSegment.openSegment]
  | stored =>
    obtain ⟨loc, hseg, hsize, rfl, hloc, hid, hside, hheld⟩ := shown.exists_loc (by simp)
    have hlookup : s.lookup serverSessionId loc.sequenceNumber wait = some (s, false) := by
      simp [lookup, hseg, hloc, hheld.1, Nat.not_le.mpr hsize]
    have hbegun : (s.beginOpen loc false outcome).stream.segments loc.sequenceNumber =
        some { loc with prefetched := false, cancel := false, sideId := outcome.id } :=
      Function.update_self ..
    unfold openSequenceNumber
    rw [hlookup, hseg]
    dsimp only
    rw [hbegun]
    obtain ⟨hcount, hmap, -⟩ := hheld
    cases outcome with
    | failed => exact ⟨shows_of_segment hbegun hsize rfl ⟨hloc, hid, rfl, hcount, hmap, rfl⟩, rfl⟩
    | noMemory =>
      obtain ⟨s', hs, hshown⟩ := shows_finishOpen_noMemory (s := s.beginOpen loc false .noMemory)
        { loc with prefetched := false, cancel := false, sideId := none } wait true hsize
        hloc hid rfl ⟨hcount, hmap, rfl⟩
      exact ⟨by simpa only [OpenOutcome.completes, OpenOutcome.id, hs, Option.getD_some], rfl⟩
    | complete id =>
      obtain ⟨s', hs, hshown⟩ := shows_finishOpen_complete
        (s := s.beginOpen loc false (.complete id))
        { loc with prefetched := false, cancel := false, sideId := some id } wait hsize
        hloc hid rfl rfl ⟨hcount, hmap, rfl⟩
      exact ⟨by simpa only [OpenOutcome.completes, OpenOutcome.id, hs, Option.getD_some], rfl⟩
    | loading id =>
      obtain ⟨s', hs, hshown⟩ := shows_finishOpen_loading
        (s := s.beginOpen loc false (.loading id))
        { loc with prefetched := false, cancel := false, sideId := some id } wait hsize
        hloc hid rfl rfl ⟨hcount, hmap, rfl⟩
      exact ⟨by simpa only [OpenOutcome.completes, OpenOutcome.id, hs, Option.getD_some], rfl⟩

section Close

variable {loc : SegmentLocation} {wait : Option WaitId} {submit : SubmitOutcome}

theorem close_last (segment : s.stream.segments sequenceNumber = some loc) (held : loc.HeldBy 1) :
    s.close serverSessionId sequenceNumber wait false submit =
      some (s.closeSegment loc wait false submit) := by
  obtain ⟨hcount, hmap, -⟩ := held
  simp [close, segment, hcount, hmap]

theorem close_shared {n : ℕ} (segment : s.stream.segments sequenceNumber = some loc)
    (held : loc.HeldBy (n + 2)) :
    s.close serverSessionId sequenceNumber wait false submit =
      some ({ s with stream := s.stream.setSegment sequenceNumber (some { loc with
        referenceCount := n + 1
        referenceMap := Multiset.replicate (n + 1) serverSessionId }) }, false) := by
  obtain ⟨hcount, hmap, -⟩ := held
  simp [close, segment, hcount, hmap, Multiset.replicate_succ]

theorem shows_closeSegment_progress (size : loc.sequenceNumber < s.stream.size)
    (progress : loc.id = none) (shown : SegmentLocation.ShownAs { loc with cancel := true } h) :
    (s.closeSegment loc wait false submit).1.Shows loc.sequenceNumber h ∧
      (s.closeSegment loc wait false submit).2 = false := by
  obtain ⟨n, location, _, sideId, cancel, prefetched, count, map, waitList⟩ := loc
  subst progress
  exact ⟨shows_registerWait _ wait size shown, rfl⟩

theorem shows_finishAppend {n : StreamSegmentId} {entryCount : ℕ}
    (shown : s.Shows sequenceNumber h) : (s.finishAppend n entryCount).Shows sequenceNumber h := by
  unfold finishAppend
  split <;> exact shown

theorem shows_completeRead_undone {success synchronous : Bool}
    (size : loc.sequenceNumber < s.stream.size) (located : loc.location ≠ none)
    (prefetched : loc.prefetched = false) :
    (s.completeRead loc false success synchronous).Shows loc.sequenceNumber .stored := by
  refine shows_of_segment (Function.update_self ..) size rfl ⟨located, rfl, rfl, rfl, rfl, ?_⟩
  simp [prefetched]

theorem submitted_segment (loc : SegmentLocation) (id : SegmentId)
    (buffer : SegmentId → Option StreamSegmentId) :
    ({ s with
      stream := s.stream.setSegment loc.sequenceNumber
        (some { loc with sideId := some id, id := none })
      buffer := buffer } : ServerState).stream.segments loc.sequenceNumber =
        some { loc with sideId := some id, id := none } :=
  Function.update_self ..

theorem shows_closeSegment_loaded {id : SegmentId} (size : loc.sequenceNumber < s.stream.size)
    (located : loc.location ≠ none) (loaded : loc.id = some id)
    (submits : Execution.Submittable loc submit) (held : loc.HeldBy 1) :
    (s.closeSegment loc wait false submit).1.Shows loc.sequenceNumber .stored ∧
      (s.closeSegment loc wait false submit).2 = false := by
  unfold closeSegment
  rw [loaded]
  cases submit with
  | failed =>
    have hsome : loc.location.isNone = false := Option.isNone_eq_false_iff.mpr
      (Option.isSome_iff_ne_none.mpr located)
    simp only [hsome, Bool.and_false, Bool.false_eq_true, if_false,
      completeLocked_of_located (submitted_segment loc id _) located]
    exact ⟨shows_finishAppend (shows_completeRead_undone size located held.2.2), trivial⟩
  | complete location =>
    obtain rfl : location = none := submits
    simp only [completeLocked_of_located (submitted_segment loc id _) located]
    exact ⟨shows_finishAppend (shows_completeRead_undone size located held.2.2), trivial⟩
  | pending entryCount => exact absurd submits located

theorem shows_closeSegment_new {id : SegmentId} (kept : s.Shows loc.sequenceNumber (.new id))
    (size : loc.sequenceNumber < s.stream.size) (shown : loc.ShownAs (.new id))
    (submits : Execution.Submittable loc submit) :
    (s.closeSegment loc wait false submit).1.Shows loc.sequenceNumber
        (HiddenSegment.close (.new id) submit).1 ∧
      (s.closeSegment loc wait false submit).2 = (HiddenSegment.close (.new id) submit).2 := by
  obtain ⟨hnew, hid, hside, hheld⟩ := shown
  cases submit with
  | failed =>
    have hkept : s.closeSegment loc wait false .failed = (s, true) := by
      simp [closeSegment, hid, hnew]
    rw [hkept]
    exact ⟨kept, rfl⟩
  | complete location =>
    obtain rfl : location = none := submits
    unfold closeSegment
    rw [hid]
    simp only [completeLocked_of_new (submitted_segment loc id _) hnew]
    exact ⟨shows_finishAppend (shows_absent (Function.update_self ..)), rfl⟩
  | pending entryCount =>
    unfold closeSegment
    rw [hid]
    exact ⟨shows_finishAppend (shows_registerWait { loc with sideId := some id, id := none }
      wait size ⟨hnew, rfl, rfl, hheld⟩), rfl⟩

end Close

theorem shows_close (shown : s.Shows sequenceNumber h) (wait : Option WaitId)
    {submit : SubmitOutcome}
    (submits : ∀ loc ∈ s.stream.segments sequenceNumber, Execution.Submittable loc submit) :
    ((s.close serverSessionId sequenceNumber wait false submit).getD (s, true)).1.Shows
        sequenceNumber (h.close submit).1 ∧
      ((s.close serverSessionId sequenceNumber wait false submit).getD (s, true)).2 =
        (h.close submit).2 := by
  cases h with
  | absent =>
    have hnone := shown.none_of_absent
    simp [close, hnone, HiddenSegment.close, shown]
  | stored =>
    obtain ⟨loc, hseg, -, -, -, -, -, hheld⟩ := shown.exists_loc (by simp)
    simp [close, hseg, hheld.1, HiddenSegment.close, shown]
  | new id =>
    obtain ⟨loc, hseg, hsize, rfl, hloc⟩ := shown.exists_loc (by simp)
    rw [close_last hseg hloc.2.2.2]
    exact shows_closeSegment_new shown hsize hloc (submits loc hseg)
  | encoding id =>
    obtain ⟨loc, hseg, hsize, rfl, hloc⟩ := shown.exists_loc (by simp)
    rw [close_last hseg hloc.2.2.2]
    exact shows_closeSegment_progress hsize hloc.2.1 hloc
  | canceled id =>
    obtain ⟨loc, hseg, hsize, rfl, hloc⟩ := shown.exists_loc (by simp)
    rw [close_last hseg hloc.2.2.2.2]
    exact shows_closeSegment_progress hsize hloc.2.1
      ⟨hloc.1, hloc.2.1, hloc.2.2.1, rfl, hloc.2.2.2.2⟩
  | loading id n =>
    obtain ⟨loc, hseg, hsize, rfl, hloc, hid, hside, hcancel, hheld⟩ :=
      shown.exists_loc (by simp)
    cases n with
    | zero =>
      rw [close_last hseg hheld]
      exact shows_closeSegment_progress hsize hid ⟨hloc, hid, hside, rfl, hheld⟩
    | succ n =>
      rw [close_shared hseg hheld]
      exact ⟨shows_of_segment (Function.update_self ..) hsize rfl
        ⟨hloc, hid, hside, hcancel, rfl, rfl, hheld.2.2⟩, rfl⟩
  | loaded id n =>
    obtain ⟨loc, hseg, hsize, rfl, hloc, hid, hside, hheld⟩ := shown.exists_loc (by simp)
    cases n with
    | zero =>
      rw [close_last hseg hheld]
      exact shows_closeSegment_loaded hsize hloc hid (submits loc hseg) hheld
    | succ n =>
      rw [close_shared hseg hheld]
      exact ⟨shows_of_segment (Function.update_self ..) hsize rfl
        ⟨hloc, hid, hside, rfl, rfl, hheld.2.2⟩, rfl⟩

theorem shows_completeSegment (shown : s.Shows sequenceNumber h)
    (loading : h.finishLoad ≠ h) :
    ∃ s', s.completeSegment sequenceNumber = some s' ∧ s'.Shows sequenceNumber h.finishLoad := by
  cases h with
  | absent | new id | encoding id | stored | loaded id n => exact absurd rfl loading
  | loading id n =>
    obtain ⟨loc, hseg, hsize, rfl, hloc, hid, hside, hcancel, hheld⟩ :=
      shown.exists_loc (by simp)
    refine ⟨_, Reading.completeSegment ⟨hsize, hseg, hloc, hid, hside⟩, ?_⟩
    simp only [completeRead, hcancel, Bool.not_true, Bool.or_false]
    exact shows_of_segment (Function.update_self ..) hsize rfl ⟨hloc, hside, rfl, hheld⟩
  | canceled id =>
    obtain ⟨loc, hseg, hsize, rfl, hloc, hid, hside, hcancel, hheld⟩ :=
      shown.exists_loc (by simp)
    refine ⟨_, Reading.completeSegment ⟨hsize, hseg, hloc, hid, hside⟩, ?_⟩
    simp only [completeRead, hcancel, Bool.not_true, Bool.or_true, if_true]
    exact shows_of_segment (Function.update_self ..) hsize rfl
      ⟨hloc, rfl, rfl, rfl, rfl, hheld.2.2⟩

theorem shows_completeSegmentWith {s' : ServerState} {id : SegmentId}
    {location : Option StorageLocation} (shown : s.Shows sequenceNumber (.encoding id))
    (link : ∀ l ∈ location, l.sequenceNumber = sequenceNumber)
    (completed : s.completeSegmentWith sequenceNumber location = some s') :
    s'.Shows sequenceNumber (HiddenSegment.finishEncoding location.isSome (.encoding id)) := by
  obtain ⟨loc, hseg, hsize, rfl, hnew, hid, hside, hheld⟩ := shown.exists_loc (by simp)
  have halloc : s.stream.SegmentIsAllocated loc.sequenceNumber := ⟨hsize, by simp [hseg]⟩
  simp only [completeSegmentWith, halloc, not_true, hseg, Option.bind_some, hnew, ne_eq, or_self,
    if_false, completeLocked, Option.bind_eq_bind, completeWrite, Option.bind_eq_some_iff,
    Option.some.injEq] at completed
  obtain ⟨stream, hencoded, rfl⟩ := completed
  cases location with
  | none =>
    obtain rfl := Option.some.inj hencoded
    exact shows_absent (Function.update_self ..)
  | some location =>
    have hkey : location.sequenceNumber = loc.sequenceNumber := link location rfl
    simp only [ServerStream.completeEncoding, Option.bind_eq_bind, Option.bind_eq_some_iff,
      Option.some.injEq] at hencoded
    obtain ⟨stream', hadd, rfl⟩ := hencoded
    have hsegments := (ServerStream.addSegment_of_segment hadd (hkey ▸ halloc)
      (hkey ▸ hseg)).1
    obtain ⟨-, -, -, -, hgrow, -⟩ := ServerStream.addSegment_spec hadd
    have hloc : stream'.segments loc.sequenceNumber =
        some { loc with location := some location.normalize } := by
      rw [hsegments, hkey, Function.update_self]
    refine shows_of_segment (Function.update_self .. |>.trans (congrArg _ hloc))
      (lt_of_lt_of_le hsize hgrow) rfl ?_
    exact ⟨Option.some_ne_none _, hid, rfl, rfl, rfl, hheld.2.2⟩

end ServerState

end Simutrace
