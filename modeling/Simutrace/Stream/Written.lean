import Simutrace.Stream.Appending

/-! # What appends and closes change

A segment that is closed by its writer is given up, or kept until its encoding
has ended. It is then stored, or given up as well.
-/

namespace Simutrace

namespace ServerStream

/-- Only one segment is replaced. -/
structure Replaces (n : StreamSegmentId) (segment : Option SegmentLocation)
    (s s' : ServerStream) : Prop where
  segments : s'.segments = Function.update s.segments n segment
  size : s'.size = s.size
  lastSequenceNumber : s'.lastSequenceNumber = s.lastSequenceNumber
  trees : s'.trees = s.trees
  stats : s'.stats = s.stats

/-- Nothing was closed that is appended to. -/
structure KeepsAppend (s s' : ServerStream) : Prop where
  number : s'.lastAppendSequenceNumber = s.lastAppendSequenceNumber
  index : s'.lastAppendIndex = s.lastAppendIndex

/-- The next segment starts behind the entries of a closed one that was appended last. -/
structure EndsAppend (n : StreamSegmentId) (entryCount : ℕ) (s s' : ServerStream) : Prop where
  number : s'.lastAppendSequenceNumber =
    if s.lastAppendSequenceNumber = some n then none else s.lastAppendSequenceNumber
  index : s'.lastAppendIndex = if s.lastAppendSequenceNumber = some n then
    (s.lastAppendIndex + entryCount) % 2 ^ 64 else s.lastAppendIndex

/-- Closing a segment that was not stored yet. -/
inductive ClosesNew (n : StreamSegmentId) (loc : SegmentLocation) (submit : SubmitOutcome)
    (throws : Bool) (s s' : ServerStream) : Prop
  | threw (throws : throws = true) (same : s' = s) (id : loc.id ≠ none)
      (empty : submit.entryCount = 0)
  | marked (waitList : List WaitId) (id : loc.id = none)
      (replaces : s.Replaces n (some { loc with cancel := true, waitList := waitList }) s')
      (keeps : s.KeepsAppend s') (returns : throws = false)
  | dropped (id : loc.id ≠ none) (replaces : s.Replaces n none s') (ends : s.EndsAppend n 0 s')
      (empty : submit.entryCount = 0)
  | encoding (waitList : List WaitId) (id : loc.id ≠ none) (pos : 0 < submit.entryCount)
      (lt : submit.entryCount < 2 ^ 32) (replaces : s.Replaces n
        (some { loc with id := none, sideId := loc.id, waitList := waitList }) s')
      (ends : s.EndsAppend n submit.entryCount s')

structure Stores (n : StreamSegmentId) (location : StorageLocation) (s s' : ServerStream) :
    Prop where
  accepted : s.LocationAccepted location
  segments : ∃ loc, loc.Closed n ∧ loc.location = some location.normalize ∧
    s'.segments = Function.update s.segments n (some loc)
  size : s'.size = s.size
  lastSequenceNumber : s'.lastSequenceNumber = s.lastSequenceNumber
  trees : s'.trees = (s.indexLocation location.normalize).trees
  stats : s'.stats = (s.indexLocation location.normalize).stats
  keeps : s.KeepsAppend s'

variable {s s' s'' : ServerStream} {n : StreamSegmentId} {segment segment' : Option SegmentLocation}

theorem Replaces.trans (h : s.Replaces n segment s') (h' : s'.Replaces n segment' s'') :
    s.Replaces n segment' s'' where
  segments := by rw [h'.segments, h.segments, Function.update_idem]
  size := h'.size.trans h.size
  lastSequenceNumber := h'.lastSequenceNumber.trans h.lastSequenceNumber
  trees := h'.trees.trans h.trees
  stats := h'.stats.trans h.stats

theorem replaces_setSegment : s.Replaces n segment (s.setSegment n segment) :=
  ⟨rfl, rfl, rfl, rfl, rfl⟩

theorem Replaces.of_ne (h : s.Replaces n segment s') {m : StreamSegmentId} (hm : m ≠ n) :
    s'.segments m = s.segments m := by
  rw [h.segments, Function.update_of_ne hm]

theorem Replaces.self (h : s.Replaces n segment s') : s'.segments n = segment := by
  rw [h.segments, Function.update_self]

end ServerStream

namespace ServerState

variable {s s' : ServerState} {n : StreamSegmentId} {loc : SegmentLocation}

theorem replaces_registerWait (s : ServerState) (loc : SegmentLocation) (wait : Option WaitId) :
    ∃ waitList, s.stream.Replaces loc.sequenceNumber (some { loc with waitList := waitList })
      (s.registerWait loc wait).stream ∧ s.stream.KeepsAppend (s.registerWait loc wait).stream := by
  cases wait with
  | none => exact ⟨loc.waitList, ⟨rfl, rfl, rfl, rfl, rfl⟩, ⟨rfl, rfl⟩⟩
  | some w => exact ⟨loc.waitList ++ [w], ⟨rfl, rfl, rfl, rfl, rfl⟩, ⟨rfl, rfl⟩⟩

theorem replaces_finishAppend {segment : Option SegmentLocation} (entryCount : ℕ)
    (h : s.stream.Replaces n segment s'.stream) (hkeeps : s.stream.KeepsAppend s'.stream) :
    s.stream.Replaces n segment (s'.finishAppend n entryCount).stream ∧
      s.stream.EndsAppend n entryCount (s'.finishAppend n entryCount).stream := by
  unfold finishAppend
  split_ifs with hlast
  · rw [hkeeps.number] at hlast
    exact ⟨⟨h.segments, h.size, h.lastSequenceNumber, h.trees, h.stats⟩,
      ⟨by rw [if_pos hlast], by rw [if_pos hlast, hkeeps.index]⟩⟩
  · rw [hkeeps.number] at hlast
    exact ⟨h, ⟨by rw [if_neg hlast, hkeeps.number], by rw [if_neg hlast, hkeeps.index]⟩⟩

theorem replaces_completeLocked {s₀ : ServerState} {success synchronous : Bool}
    (hset : s₀.stream = s.stream.setSegment n (some loc)) (hkey : loc.sequenceNumber = n)
    (hnew : loc.location = none) :
    ∃ s', s₀.completeLocked n none success synchronous = some s' ∧
      s.stream.Replaces n none s'.stream ∧ s.stream.KeepsAppend s'.stream := by
  subst hkey
  have hloc : s₀.stream.segments loc.sequenceNumber = some loc := by
    rw [hset]
    exact Function.update_self ..
  have hreplaces : s.stream.Replaces loc.sequenceNumber (some loc) s₀.stream := by
    rw [hset]
    exact ServerStream.replaces_setSegment
  rw [completeLocked_of_new hloc hnew]
  have hkeeps : s.stream.KeepsAppend s₀.stream := by
    rw [hset]
    exact ⟨rfl, rfl⟩
  exact ⟨_, rfl, hreplaces.trans ⟨rfl, rfl, rfl, rfl, rfl⟩, hkeeps.number, hkeeps.index⟩

theorem closesNew {wait : Option WaitId} {ignoreErrors throws : Bool} {submit : SubmitOutcome}
    (hloc : s.stream.segments n = some loc) (hkey : loc.sequenceNumber = n)
    (hnew : loc.location = none) (hpossible : submit.Possible loc)
    (h : s.closeSegment loc wait ignoreErrors submit = (s', throws)) :
    s.stream.ClosesNew n loc submit throws s'.stream := by
  subst hkey
  unfold closeSegment at h
  cases hid : loc.id with
  | none =>
    rw [hid] at h
    obtain ⟨rfl, hthrows⟩ := Prod.mk.inj h
    obtain ⟨waitList, hreplaces, hkeeps⟩ := replaces_registerWait s { loc with cancel := true } wait
    rw [hid] at hreplaces hkeeps
    exact .marked waitList hid (by rw [hid]; exact hreplaces) hkeeps hthrows.symm
  | some id =>
    rw [hid] at h
    have hid' : loc.id ≠ none := by rw [hid]; exact Option.some_ne_none id
    dsimp only at h
    cases submit with
    | failed =>
      dsimp only at h
      split_ifs at h
      · obtain ⟨rfl, hthrows⟩ := Prod.mk.inj h
        exact .threw hthrows.symm rfl hid' rfl
      · obtain ⟨s'', hs, hreplaces, hkeeps⟩ := @replaces_completeLocked s loc.sequenceNumber
          { loc with sideId := some id, id := none }
          { s with
            stream := s.stream.setSegment loc.sequenceNumber
              (some { loc with sideId := some id, id := none }) } false true rfl rfl hnew
        rw [hs] at h
        obtain ⟨rfl, -⟩ := Prod.mk.inj h
        obtain ⟨hreplaces, hends⟩ := replaces_finishAppend 0 hreplaces hkeeps
        exact .dropped hid' hreplaces hends rfl
    | complete location =>
      obtain rfl : location = none := hpossible
      dsimp only at h
      obtain ⟨s'', hs, hreplaces, hkeeps⟩ := @replaces_completeLocked s loc.sequenceNumber
        { loc with sideId := some id, id := none }
        { s with
          stream := s.stream.setSegment loc.sequenceNumber
            (some { loc with sideId := some id, id := none })
          buffer := releaseBuffer s.buffer (some id) } true true rfl rfl hnew
      rw [hs] at h
      obtain ⟨rfl, -⟩ := Prod.mk.inj h
      obtain ⟨hreplaces, hends⟩ := replaces_finishAppend 0 hreplaces hkeeps
      exact .dropped hid' hreplaces hends rfl
    | pending entryCount =>
      obtain ⟨rfl, -⟩ := Prod.mk.inj h
      obtain ⟨waitList, hreplaces, hkeeps⟩ :=
        replaces_registerWait s { loc with sideId := some id, id := none } wait
      obtain ⟨hreplaces, hends⟩ := replaces_finishAppend entryCount hreplaces hkeeps
      refine .encoding waitList hid' hpossible.2.1 hpossible.2.2 ?_ hends
      rw [hid]
      exact hreplaces

def storeEncoded (s : ServerState) (loc : SegmentLocation) (stream : ServerStream) :
    ServerState where
  stream := { stream.setSegment loc.sequenceNumber ((stream.segments loc.sequenceNumber).map
      fun loc => { loc with
        sideId := none, referenceCount := 0, referenceMap := 0, cancel := false, waitList := [] })
    with openList := stream.openList.filter (· ≠ loc.sequenceNumber) }
  buffer := releaseBuffer s.buffer loc.sideId
  waits := s.completeWaits loc true false

theorem completeSegmentWith_eq {location : StorageLocation}
    (hloc : s.stream.segments n = some loc) (hkey : loc.sequenceNumber = n)
    (hnew : loc.location = none) (hn : n < s.stream.size) :
    s.completeSegmentWith n (some location) =
      (s.stream.addSegment location).map (s.storeEncoded loc) := by
  subst hkey
  have halloc : s.stream.SegmentIsAllocated loc.sequenceNumber :=
    ⟨hn, by rw [hloc]; exact Option.some_ne_none loc⟩
  have hguard : ¬ (¬ s.stream.SegmentIsAllocated loc.sequenceNumber ∨
      (s.stream.segments loc.sequenceNumber).bind (·.location) ≠ none) := by
    rw [hloc]
    exact not_or.mpr ⟨not_not.mpr halloc, not_not.mpr hnew⟩
  rw [completeSegmentWith, if_neg hguard]
  simp only [completeLocked, hloc, hnew, completeWrite, ServerStream.completeEncoding,
    Option.bind_eq_bind, Option.bind_some, Option.bind_assoc, Option.isSome_some,
    Bool.false_eq_true, if_false]
  cases s.stream.addSegment location <;> rfl

theorem stores_completeSegmentWith {location : StorageLocation}
    (hloc : s.stream.segments n = some loc) (hkey : loc.sequenceNumber = n)
    (hnew : loc.location = none) (hid : loc.id = none) (hn : n < s.stream.size)
    (hlink : location.sequenceNumber = n)
    (h : s.completeSegmentWith n (some location) = some s') :
    s.stream.Stores n location s'.stream := by
  subst hkey
  have halloc : s.stream.SegmentIsAllocated loc.sequenceNumber :=
    ⟨hn, by rw [hloc]; exact Option.some_ne_none loc⟩
  rw [completeSegmentWith_eq hloc rfl hnew hn] at h
  obtain ⟨stream, hadd, h⟩ := Option.map_eq_some_iff.mp h
  subst h
  obtain ⟨hsegs, -⟩ := ServerStream.addSegment_of_segment hadd (hlink ▸ halloc) (hlink ▸ hloc)
  obtain ⟨haccepted, htrees, hstats, -⟩ := ServerStream.addSegment_spec hadd
  have hrest : stream.size = s.stream.size ∧
      stream.lastSequenceNumber = s.stream.lastSequenceNumber ∧ s.stream.KeepsAppend stream := by
    unfold ServerStream.addSegment at hadd
    rw [if_pos haccepted, hlink] at hadd
    dsimp only at hadd
    rw [if_pos halloc] at hadd
    obtain rfl := Option.some.inj hadd
    exact ⟨rfl, rfl, rfl, rfl⟩
  rw [hlink] at hsegs
  refine ⟨haccepted, ⟨{ loc with
    location := some location.normalize, sideId := none, referenceCount := 0
    referenceMap := 0, cancel := false, waitList := [] }, ⟨⟨rfl, Option.some_ne_none _, rfl, rfl⟩,
      hid, rfl⟩, rfl, ?_⟩, hrest.1, hrest.2.1, htrees, hstats, hrest.2.2.number, hrest.2.2.index⟩
  simp only [storeEncoded, ServerStream.setSegment, hsegs, Function.update_self,
    Function.update_idem, Option.map_some]

theorem replaces_completeSegmentWith (hloc : s.stream.segments n = some loc)
    (hkey : loc.sequenceNumber = n) (hnew : loc.location = none)
    (h : s.completeSegmentWith n none = some s') :
    s.stream.Replaces n none s'.stream ∧ s.stream.KeepsAppend s'.stream := by
  unfold completeSegmentWith at h
  split_ifs at h
  have hset : s.stream = s.stream.setSegment n (some loc) := by
    rw [ServerStream.setSegment, ← hloc, Function.update_eq_self]
  obtain ⟨s'', hs, hreplaces, hkeeps⟩ := replaces_completeLocked hset hkey hnew
  obtain rfl := Option.some.inj (hs.symm.trans h)
  exact ⟨hreplaces, hkeeps⟩

/-- The end of an encoding stores a segment, or gives it up. -/
theorem stores_or_replaces {location : Option StorageLocation}
    (hloc : s.stream.segments n = some loc) (hkey : loc.sequenceNumber = n)
    (hnew : loc.location = none) (hid : loc.id = none) (hn : n < s.stream.size)
    (hlink : ∀ l ∈ location, l.sequenceNumber = n) (h : s.writerMain n location = some s') :
    (∃ l, location = some l ∧ s.stream.Stores n l s'.stream) ∨
      (∀ l ∈ location, ¬ s.stream.LocationAccepted l) ∧ s.stream.Replaces n none s'.stream ∧
        s.stream.KeepsAppend s'.stream := by
  unfold writerMain at h
  cases location with
  | none =>
    refine .inr ⟨?_, replaces_completeSegmentWith hloc hkey hnew h⟩
    rintro _ ⟨⟩
  | some l =>
    simp only [Option.isSome_some, if_true] at h
    cases hwith : s.completeSegmentWith n (some l) with
    | some s'' =>
      rw [hwith] at h
      obtain rfl := Option.some.inj h
      exact .inl ⟨l, rfl, stores_completeSegmentWith hloc hkey hnew hid hn (hlink l rfl) hwith⟩
    | none =>
      rw [hwith] at h
      refine .inr ⟨?_, replaces_completeSegmentWith hloc hkey hnew h⟩
      rintro l' ⟨⟩ haccepted
      obtain ⟨stream, hadd⟩ := ServerStream.exists_addSegment haccepted
      rw [completeSegmentWith_eq hloc hkey hnew hn, hadd] at hwith
      cases hwith

end ServerState

end Simutrace
