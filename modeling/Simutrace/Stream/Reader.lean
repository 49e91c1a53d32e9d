import Simutrace.Stream.Access
import Mathlib.Logic.Function.Iterate

/-! # Reading segments

A worker decodes a segment that is opened asynchronously and completes it. All
that wait for the segment are told. If the decoder fails, the worker tries to
complete the segment in the way of a failed encoding, which the stream refuses.
-/

namespace Simutrace

namespace ServerState

variable {s : ServerState} {sqn : StreamSegmentId} {loc : SegmentLocation} {id : SegmentId}

structure Reading (s : ServerState) (loc : SegmentLocation) (id : SegmentId) : Prop where
  allocated : loc.sequenceNumber < s.stream.size
  segment : s.stream.segments loc.sequenceNumber = some loc
  located : loc.location ≠ none
  notLoaded : loc.id = none
  loading : loc.sideId = some id

/-- The read of a segment is over. All waits that were registered are told once, and after a
failure the segment is closed and its buffer segment purged. -/
structure Unwound (success : Bool) (loc : SegmentLocation) (id : SegmentId)
    (before after : ServerState) : Prop where
  finished : ∃ loc', after.stream.segments loc.sequenceNumber = some loc' ∧ loc'.sideId = none ∧
    (success = false → loc'.id = none ∧ loc'.referenceCount = 0)
  waits : ∀ w, after.waits w =
    (StreamWait.notify success loc.sequenceNumber)^[loc.waitList.count w] (before.waits w)
  closed : success = false → loc.sequenceNumber ∉ after.stream.openList
  purged : success = false → after.buffer id = none

theorem notifyWaits_apply (success : Bool) (sqn : StreamSegmentId) (waitList : List WaitId)
    (waits : WaitId → StreamWait) (w : WaitId) :
    notifyWaits success sqn waitList waits w =
      (StreamWait.notify success sqn)^[waitList.count w] (waits w) := by
  induction waitList generalizing waits with
  | nil => rfl
  | cons v vs ih =>
    rw [notifyWaits, List.foldl_cons, ← notifyWaits, ih]
    by_cases hv : v = w
    · subst hv
      rw [Function.update_self, List.count_cons_self, Function.iterate_succ_apply]
    · rw [Function.update_of_ne (Ne.symm hv), List.count_cons_of_ne hv]

theorem Reading.completeSegment (h : s.Reading loc id) :
    s.completeSegment loc.sequenceNumber = some (s.completeRead loc true true false) := by
  obtain ⟨location, hloc⟩ := Option.ne_none_iff_exists'.mp h.located
  have halloc : s.stream.SegmentIsAllocated loc.sequenceNumber :=
    ⟨h.allocated, by rw [h.segment]; exact Option.some_ne_none _⟩
  rw [ServerState.completeSegment, if_pos halloc, completeLocked, h.segment]
  simp [hloc]

theorem Reading.completeSegmentWith (h : s.Reading loc id) (location : Option StorageLocation) :
    s.completeSegmentWith loc.sequenceNumber location = none := by
  rw [ServerState.completeSegmentWith, if_pos]
  rw [h.segment]
  exact Or.inr h.located

theorem unwound_completeRead (s : ServerState) (loc : SegmentLocation) (id : SegmentId) :
    Unwound true loc id s (s.completeRead loc true true false) := by
  have hwaits (w : WaitId) : (s.completeRead loc true true false).waits w =
      (StreamWait.notify true loc.sequenceNumber)^[loc.waitList.count w] (s.waits w) := by
    rw [← notifyWaits_apply]
    cases hc : loc.cancel <;> simp [completeRead, completeWaits, hc]
  refine ⟨?_, hwaits, nofun, nofun⟩
  cases hc : loc.cancel <;> simp [completeRead, ServerStream.setSegment, hc]

/-- The worker unwinds a read if and only if the decoder did not throw an exception. -/
theorem unwound_readerMain_iff (h : s.Reading loc id) (decode : Bool) :
    Unwound decode loc id s
      (s.tryProcessWorkItem fun s => s.readerMain loc.sequenceNumber false decode) ↔
    decode = true := by
  cases decode with
  | true =>
    simpa [tryProcessWorkItem, readerMain, h.completeSegment] using unwound_completeRead s loc id
  | false =>
    refine iff_of_false (fun hu => ?_) Bool.false_ne_true
    have hsame :
        (s.tryProcessWorkItem fun s => s.readerMain loc.sequenceNumber false false) = s := by
      simp [tryProcessWorkItem, readerMain, h.completeSegmentWith none]
    rw [hsame] at hu
    obtain ⟨loc', hloc', hside, -⟩ := hu.finished
    obtain rfl := Option.some.inj (h.segment.symm.trans hloc')
    rw [h.loading] at hside
    cases hside

def openFirst (location : StorageLocation) (session : SessionId) (wait : WaitId) (id : SegmentId) :
    Option ServerState := do
  let stream ← ServerStream.new.addSegment location
  let s : ServerState := { ServerState.new with stream := stream }
  let (s, _) ← s.lookup session location.sequenceNumber (some wait)
  let loc ← s.stream.segments location.sequenceNumber
  let s := s.beginOpen loc false (.loading id)
  let loc ← s.stream.segments location.sequenceNumber
  s.finishOpen session loc false (some wait)

def firstLoading : SegmentLocation :=
  { SegmentLocation.stored (StorageLocation.normalize ⟨0, fun _ => ⟨0, 9⟩, 64, 10⟩) with
    sideId := some 3, referenceCount := 1, referenceMap := {1}, waitList := [5] }

/-- A wait for a segment is left behind when its decoder throws an exception. -/
theorem not_unwound_of_exception :
    ∃ s, openFirst ⟨0, fun _ => ⟨0, 9⟩, 64, 10⟩ 1 5 3 = some s ∧ s.Reading firstLoading 3 ∧
      ¬ Unwound false firstLoading 3 s
        (s.tryProcessWorkItem fun s => s.readerMain 0 false false) := by
  refine ⟨_, rfl, ⟨by decide, rfl, nofun, rfl, rfl⟩, fun hu => ?_⟩
  obtain ⟨loc', hloc', hside, -⟩ := hu.finished
  obtain rfl := Option.some.inj hloc'
  cases hside

theorem unwound_readerMain_iff_openFirst :
    ∃ s, openFirst ⟨0, fun _ => ⟨0, 9⟩, 64, 10⟩ 1 5 3 = some s ∧
      (Unwound true firstLoading 3 s
        (s.tryProcessWorkItem fun s => s.readerMain 0 false true) ↔ true = true) :=
  ⟨_, rfl, unwound_readerMain_iff (show Reading _ firstLoading 3 from
    ⟨by decide, rfl, nofun, rfl, rfl⟩) true⟩

end ServerState

end Simutrace
