import Simutrace.Stream.Reader
import Simutrace.Stream.SessionClose

/-! # Opening a segment while it is read

The lock of the stream is released while the buffer starts to read a segment. The
worker may complete the read before the `open` has the lock again or only later.
Both orders have the same result, unless the segment is read ahead and the read
succeeds.
-/

namespace Simutrace

/-- The flag that `_open` returns and the buffer segment that it passes to the caller. -/
def SegmentLocation.openResult (loc : SegmentLocation) (complete : Bool) :
    Bool × Option SegmentId :=
  match loc.id, loc.sideId with
  | none, none => (true, none)
  | none, some id => (complete, some id)
  | some id, _ => (complete, some id)

/-- What is left of an `open` and the read that it has started. The read ahead goes on if the
caller gets a buffer segment. -/
structure OpenEnd where
  id : Option SegmentId
  sideId : Option SegmentId
  referenceCount : ℕ
  referenceMap : Multiset SessionId
  prefetched : Bool
  cancel : Bool
  listed : ℕ
  result : Bool × Option SegmentId
  continues : Bool

def SegmentLocation.openEnd (loc : SegmentLocation) (listed : ℕ)
    (result : Bool × Option SegmentId) : OpenEnd :=
  ⟨loc.id, loc.sideId, loc.referenceCount, loc.referenceMap, loc.prefetched, loc.cancel, listed,
    result, result.2.isSome⟩

namespace ServerState

open ServerStream

variable (s : ServerState) (session : SessionId) (n : StreamSegmentId) (wait : Option WaitId)

/-- A worker has decoded the segment and completes the read, unless there was an exception. -/
def readSegment (decode : Bool) : ServerState :=
  s.tryProcessWorkItem fun s => s.readerMain n false decode

/-- `_open` gets the lock again. -/
def resumeOpen : Option (ServerState × (Bool × Option SegmentId)) := do
  let loc ← s.stream.segments n
  let s' ← s.finishOpen session loc false wait
  some (s', loc.openResult false)

/-- The read is completed first. -/
def readThenResume (decode : Bool) : Option OpenEnd := do
  let (s', result) ← (s.readSegment n decode).resumeOpen session n wait
  let loc ← s'.stream.segments n
  some (loc.openEnd (s'.stream.openList.count n) result)

/-- The `open` has taken its reference before the read is completed. -/
def resumeThenRead (decode : Bool) : Option OpenEnd := do
  let (s', result) ← s.resumeOpen session n wait
  let s'' := s'.readSegment n decode
  let loc ← s''.stream.segments n
  some (loc.openEnd (s''.stream.openList.count n) result)

/-- The assertions on the completion of a read; a failed one does not get there. -/
def ReadAsserts (decode : Bool) : Prop :=
  decode = true → ∀ loc ∈ s.stream.segments n,
    s.stream.CompleteAsserts loc loc.location true false

def ResumeAsserts : Prop :=
  ∀ loc ∈ s.stream.segments n, s.stream.FinishAsserts loc false

/-- Both orders end in the same way, and no assertion is violated in any of them. -/
def Commutes (loc : SegmentLocation) (prefetch : Bool) (id : SegmentId) (decode : Bool) : Prop :=
  loc.OpenAsserts n ∧
    (let s' := s.beginOpen loc prefetch (.loading id)
     (∃ r, s'.readThenResume session n wait decode = some r ∧
        s'.resumeThenRead session n wait decode = some r) ∧
      (s'.ReadAsserts n decode ∧ (s'.readSegment n decode).ResumeAsserts n) ∧
      s'.ResumeAsserts n ∧
        ∀ s'' result, s'.resumeOpen session n wait = some (s'', result) → s''.ReadAsserts n decode)

variable {s session n wait} {loc : SegmentLocation} {id : SegmentId}

/-! ## The two halves -/

theorem Reading.readSegment_true (h : s.Reading loc id) :
    s.readSegment loc.sequenceNumber true = s.completeRead loc true true false := by
  simp [readSegment, tryProcessWorkItem, readerMain, h.completeSegment]

theorem Reading.readSegment_false (h : s.Reading loc id) :
    s.readSegment loc.sequenceNumber false = s := by
  simp [readSegment, tryProcessWorkItem, readerMain, h.completeSegmentWith none]

theorem Reading.readAsserts (h : s.Reading loc id) (decode : Bool) :
    s.ReadAsserts loc.sequenceNumber decode := by
  intro _ loc' hloc'
  obtain rfl := Option.some.inj (h.segment.symm.trans hloc')
  refine ⟨h.allocated, ?_, h.notLoaded, ?_, Bool.noConfusion, ?_⟩
  · rw [h.segment]
    exact Option.some_ne_none _
  · rw [h.loading]
    exact Option.some_ne_none _
  · rw [if_pos h.located]
    exact .inr rfl

theorem Reading.resumeAsserts (h : s.Reading loc id) : s.ResumeAsserts loc.sequenceNumber := by
  intro loc' hloc'
  obtain rfl := Option.some.inj (h.segment.symm.trans hloc')
  simp [ServerStream.FinishAsserts, h.notLoaded, h.loading]

theorem Reading.resumeOpen (h : s.Reading loc id) (session : SessionId) (wait : Option WaitId) :
    ∃ s' waitList, s.resumeOpen session loc.sequenceNumber wait = some (s', (false, some id)) ∧
      s'.Reading { loc.addReference session with waitList := waitList } id ∧
      s'.stream.openList.count loc.sequenceNumber =
        s.stream.openList.count loc.sequenceNumber + 1 := by
  have hadd := moves_addReference s session loc
  obtain ⟨waitList, -, hwait⟩ := moves_registerWait (s.addReference session loc)
    (loc.addReference session) wait
  have hm := hadd.trans hwait
  refine ⟨(s.addReference session loc).registerWait (loc.addReference session) wait, waitList,
    ?_, ⟨?_, hm.segments_self, h.located, h.notLoaded, h.loading⟩, hm.listed.trans hadd.listed⟩
  · simp [ServerState.resumeOpen, h.segment, finishOpen, h.notLoaded, h.loading,
      SegmentLocation.openResult]
  · exact h.allocated.trans_le hm.size

theorem resumeOpen_of_loaded (segment : s.stream.segments n = some loc)
    (loaded : loc.id = some id) :
    s.resumeOpen session n wait = some (s.addReference session loc, (false, some id)) := by
  simp [resumeOpen, segment, finishOpen, loaded, SegmentLocation.openResult]

theorem resumeAsserts_of_loaded (segment : s.stream.segments n = some loc)
    (loaded : loc.id = some id) : s.ResumeAsserts n := by
  intro loc' hloc'
  obtain rfl := Option.some.inj (segment.symm.trans hloc')
  simp [ServerStream.FinishAsserts, loaded]

/-! ## The two orders -/

theorem readThenResume_eq {s' : ServerState} {result : Bool × Option SegmentId} {decode : Bool}
    {listed : ℕ} (resumed : (s.readSegment n decode).resumeOpen session n wait = some (s', result))
    (segment : s'.stream.segments n = some loc) (count : s'.stream.openList.count n = listed) :
    s.readThenResume session n wait decode = some (loc.openEnd listed result) := by
  simp [readThenResume, resumed, segment, count]

theorem resumeThenRead_eq {s' : ServerState} {result : Bool × Option SegmentId} {decode : Bool}
    {listed : ℕ} (resumed : s.resumeOpen session n wait = some (s', result))
    (segment : (s'.readSegment n decode).stream.segments n = some loc)
    (count : (s'.readSegment n decode).stream.openList.count n = listed) :
    s.resumeThenRead session n wait decode = some (loc.openEnd listed result) := by
  simp [resumeThenRead, resumed, segment, count]

theorem Reading.orders_of_failed (h : s.Reading loc id) (session : SessionId)
    (wait : Option WaitId) :
    ∃ r, s.readThenResume session loc.sequenceNumber wait false = some r ∧
      s.resumeThenRead session loc.sequenceNumber wait false = some r := by
  obtain ⟨s', waitList, hresume, hr', hlisted⟩ := h.resumeOpen session wait
  have hread : s'.readSegment loc.sequenceNumber false = s' := hr'.readSegment_false
  refine ⟨_, readThenResume_eq ?_ hr'.segment hlisted, resumeThenRead_eq hresume ?_ ?_⟩
  · rw [h.readSegment_false]
    exact hresume
  · rw [hread]
    exact hr'.segment
  · rw [hread]
    exact hlisted

/-- A read that succeeds gives the segment its buffer segment, before or after the reference. -/
theorem Reading.orders_of_loaded (h : s.Reading loc id) (kept : loc.cancel = false)
    (session : SessionId) (wait : Option WaitId) :
    (∃ r, s.readThenResume session loc.sequenceNumber wait true = some r ∧
      s.resumeThenRead session loc.sequenceNumber wait true = some r) ∧
    (s.readSegment loc.sequenceNumber true).ResumeAsserts loc.sequenceNumber := by
  have hm := moves_completeRead_loaded s loc true false rfl kept
  rw [← h.readSegment_true] at hm
  have hadd := moves_addReference (s.readSegment loc.sequenceNumber true) session
    { loc with id := loc.sideId, sideId := none, cancel := false, waitList := [] }
  obtain ⟨s', waitList, hresume, hr', hlisted⟩ := h.resumeOpen session wait
  have hm' := moves_completeRead_loaded s' { loc.addReference session with waitList := waitList }
    true false rfl kept
  have hread : s'.readSegment loc.sequenceNumber true = _ := hr'.readSegment_true
  rw [← hread] at hm'
  have hsegment := hm.segments_self
  refine ⟨⟨_, readThenResume_eq (resumeOpen_of_loaded hsegment h.loading) hadd.segments_self
    (hadd.listed.trans (congrArg (· + 1) hm.listed)), ?_⟩,
    resumeAsserts_of_loaded hsegment h.loading⟩
  exact resumeThenRead_eq hresume hm'.segments_self (hm'.listed.trans hlisted)

/-- The read of a canceled segment closes it, which the `open` does not expect. -/
theorem Reading.not_resumeAsserts (h : s.Reading loc id) (canceled : loc.cancel = true) :
    ¬ (s.readSegment loc.sequenceNumber true).ResumeAsserts loc.sequenceNumber := by
  obtain ⟨loc', hidle, hm⟩ := moves_completeRead_undone s loc true true false rfl h.located
    (.inr canceled) Bool.noConfusion
  rw [← h.readSegment_true] at hm
  intro hasserts
  have hfinish := hasserts loc' hm.segments_self
  simp [ServerStream.FinishAsserts, hidle.unloaded, hidle.side] at hfinish

/-! ## All opens -/

/-- An `open` of a segment that is not in use commutes with its read exactly if it does not read
ahead or the read fails. -/
theorem commutes_iff_of_asserts {prefetch decode : Bool} (segment : s.stream.segments n = some loc)
    (allocated : n < s.stream.size) (asserts : loc.OpenAsserts n) :
    s.Commutes session n wait loc prefetch id decode ↔ ¬ (prefetch = true ∧ decode = true) := by
  obtain rfl := asserts.2.1
  have hr : (s.beginOpen loc prefetch (.loading id)).Reading
      { loc with prefetched := prefetch, cancel := prefetch, sideId := some id } id :=
    ⟨allocated, (moves_beginOpen s prefetch (.loading id) rfl).segments_self, asserts.1,
      asserts.2.2.1, rfl⟩
  have hreads (s' : ServerState) (result : Bool × Option SegmentId)
      (hs' : (s.beginOpen loc prefetch (.loading id)).resumeOpen session loc.sequenceNumber wait =
        some (s', result)) : s'.ReadAsserts loc.sequenceNumber decode := by
    obtain ⟨s'', waitList, hresume, hr', -⟩ := hr.resumeOpen session wait
    obtain ⟨rfl, -⟩ := Prod.mk.inj (Option.some.inj (hresume.symm.trans hs'))
    exact hr'.readAsserts decode
  cases decode with
  | false =>
    refine iff_of_true ⟨asserts, hr.orders_of_failed session wait, ⟨hr.readAsserts false, ?_⟩,
      hr.resumeAsserts, hreads⟩ fun hd => Bool.false_ne_true hd.2
    rw [hr.readSegment_false]
    exact hr.resumeAsserts
  | true =>
    cases prefetch with
    | false =>
      obtain ⟨horders, hasserts⟩ := hr.orders_of_loaded rfl session wait
      exact iff_of_true ⟨asserts, horders, ⟨hr.readAsserts true, hasserts⟩, hr.resumeAsserts,
        hreads⟩ fun hp => Bool.false_ne_true hp.1
    | true =>
      refine iff_of_false (fun hc => ?_) fun hnot => hnot ⟨rfl, rfl⟩
      exact hr.not_resumeAsserts rfl hc.2.2.1.2

end ServerState

namespace Execution

variable {e : Execution} {n : StreamSegmentId} {loc : SegmentLocation} {session : SessionId}
  {wait : Option WaitId} {id : SegmentId} {prefetch decode : Bool}

/-- In every run, the asynchronous read of a segment that no `open` is in progress for commutes with
the `open` that starts it, unless the segment is read ahead and the read succeeds. -/
theorem commutes_iff (run : Run (fun _ _ => True) e)
    (segment : e.server.stream.segments n = some loc) (located : loc.location ≠ none)
    (unused : loc.referenceCount = 0) (outside : e.entered n = none) :
    e.server.Commutes session n wait loc prefetch id decode ↔
      ¬ (prefetch = true ∧ decode = true) := by
  obtain ⟨hsize, hsound⟩ := (sound_run run).at segment
  obtain ⟨hid, hside⟩ := hsound.idle unused outside
  refine ServerState.commutes_iff_of_asserts segment hsize
    ⟨located, hsound.key, hid, hside, unused, ?_⟩
  rw [← Multiset.card_eq_zero, ← hsound.count, unused]

def nextTenEntries : StorageLocation := ⟨1, fun _ => ⟨10, 19⟩, 64, 10⟩

theorem run_readAhead : ∃ e o loc, Run (fun _ _ => True) e ∧ e.opening = some o ∧
    o.readAhead.head? = some 1 ∧ e.server.stream.segments 1 = some loc ∧ loc.location ≠ none ∧
      loc.referenceCount = 0 ∧ loc.prefetched = false ∧ e.entered 1 = none := by
  have next {e e' : Execution} {a : Action} (r : Run (fun _ _ => True) e) (h : Step e a e') :
    Run (fun _ _ => True) e' := r.step trivial h
  have r₁ := next .new (show Step _ (.load tenEntries) _ from .load rfl rfl)
  have r₂ := next r₁ (show Step _ (.load nextTenEntries) _ from .load rfl rfl)
  have r₃ := next r₂ (show Step _ (.lookup 1 0 none [1]) _ from .lookup rfl (by decide) rfl)
  exact ⟨_, _, _, r₃, rfl, rfl, rfl, nofun, rfl, rfl, rfl⟩

/-- The read ahead ends in another state if the worker is faster, and an assertion is violated. -/
theorem not_commutes_of_readAhead : ∃ e o loc, Run (fun _ _ => True) e ∧ e.opening = some o ∧
    o.readAhead.head? = some 1 ∧ e.server.stream.segments 1 = some loc ∧ loc.location ≠ none ∧
      loc.referenceCount = 0 ∧ e.entered 1 = none ∧
      ¬ e.server.Commutes 1 1 none loc true 3 true := by
  obtain ⟨e, o, loc, run, opening, first, segment, located, unused, -, outside⟩ := run_readAhead
  refine ⟨e, o, loc, run, opening, first, segment, located, unused, outside, fun hc => ?_⟩
  obtain ⟨hsize, hsound⟩ := (sound_run run).at segment
  exact (ServerState.commutes_iff_of_asserts segment hsize hc.1).mp hc ⟨rfl, rfl⟩

theorem commutes_of_open : ∃ e loc, Run (fun _ _ => True) e ∧
    e.server.stream.segments 1 = some loc ∧ e.server.Commutes 1 1 (some 5) loc false 3 true := by
  obtain ⟨e, o, loc, run, -, -, segment, located, unused, -, outside⟩ := run_readAhead
  exact ⟨e, loc, run, segment,
    (commutes_iff run segment located unused outside).mpr fun h => Bool.false_ne_true h.1⟩

end Execution

end Simutrace
