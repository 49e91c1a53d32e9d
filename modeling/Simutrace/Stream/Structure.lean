import Simutrace.Stream.Opening

/-! # The structure of segments

Whatever the sessions do, a segment has the references that its sessions hold and
is in the open list as long as it has some. It is then in a buffer segment, which
is its own or the one of an operation in progress.
-/

namespace Simutrace

/-- What is true of a segment in every run. It is seen with its number of places in the open list,
a pending read, and the `open` that has entered it or waits to do so. -/
structure SegmentLocation.Sound (n : StreamSegmentId) (listed : ℕ) (reading : Bool)
    (entered : Option (Bool × Bool)) (awaited : Bool) (loc : SegmentLocation) : Prop where
  key : loc.sequenceNumber = n
  count : loc.referenceCount = loc.referenceMap.card
  listed : listed = if loc.referenceCount = 0 then 0 else 1
  written : loc.location = none →
    loc.referenceCount = 1 ∧ loc.prefetched = false ∧ reading = false
  side : loc.id = none ∨ loc.sideId = none
  used : loc.referenceCount ≠ 0 → loc.id ≠ none ∨ loc.sideId ≠ none
  idle : loc.referenceCount = 0 → entered = none → loc.id = none ∧ loc.sideId = none
  ahead : loc.prefetched = true → loc.referenceCount ≤ 1
  busy : entered ≠ none ∨ awaited = true → loc.referenceCount = 0
  synchronous : ∀ prefetch, entered = some (prefetch, true) → loc.id = none ∧ reading = false
  reading : reading = true → loc.id = none ∧ loc.sideId ≠ none
  waits : loc.waitList ≠ [] → loc.referenceCount ≠ 0 ∧ loc.id = none

/-- A stored segment that is not in use and that nobody waits for. -/
structure SegmentLocation.Idle (n : StreamSegmentId) (loc : SegmentLocation) : Prop
    extends loc.Closed n where
  waits : loc.waitList = []

theorem SegmentLocation.Idle.sound {n : StreamSegmentId} {loc : SegmentLocation}
    (h : loc.Idle n) (entered : Option (Bool × Bool)) (awaited : Bool) :
    loc.Sound n 0 false entered awaited where
  key := h.key
  count := by rw [h.count, h.map, Multiset.card_zero]
  listed := (if_pos h.count).symm
  written hnone := absurd hnone h.located
  side := .inl h.unloaded
  used hne := absurd h.count hne
  idle _ _ := ⟨h.unloaded, h.side⟩
  ahead _ := by rw [h.count]; exact Nat.zero_le 1
  busy _ := h.count
  synchronous _ _ := ⟨h.unloaded, rfl⟩
  reading hread := by cases hread
  waits hne := absurd h.waits hne

theorem SegmentLocation.Sound.located {n : StreamSegmentId} {loc : SegmentLocation} {listed : ℕ}
    {reading awaited : Bool} {entered : Option (Bool × Bool)}
    (h : loc.Sound n listed reading entered awaited) (hzero : loc.referenceCount = 0) :
    loc.location ≠ none := by
  intro hnone
  cases hzero.symm.trans (h.written hnone).1

namespace ServerStream

/-- Only the given segment changes, and its place in the open list. -/
structure Moves (n : StreamSegmentId) (segment : Option SegmentLocation) (listed : ℕ)
    (s s' : ServerStream) : Prop where
  segments : s'.segments = Function.update s.segments n segment
  listed : s'.openList.count n = listed
  listed_of_ne : ∀ m ≠ n, s'.openList.count m = s.openList.count m
  size : s.size ≤ s'.size

variable {s s' s'' : ServerStream} {n m : StreamSegmentId}
  {segment segment' : Option SegmentLocation} {listed listed' : ℕ}

theorem Moves.trans (h : Moves n segment listed s s') (h' : Moves n segment' listed' s' s'') :
    Moves n segment' listed' s s'' where
  segments := by rw [h'.segments, h.segments, Function.update_idem]
  listed := h'.listed
  listed_of_ne m hm := (h'.listed_of_ne m hm).trans (h.listed_of_ne m hm)
  size := h.size.trans h'.size

theorem Moves.segments_self (h : Moves n segment listed s s') : s'.segments n = segment := by
  rw [h.segments, Function.update_self]

theorem Moves.segments_of_ne (h : Moves n segment listed s s') (hm : m ≠ n) :
    s'.segments m = s.segments m := by
  rw [h.segments, Function.update_of_ne hm]

theorem moves_setSegment (s : ServerStream) (n : StreamSegmentId)
    (segment : Option SegmentLocation) :
    Moves n segment (s.openList.count n) s (s.setSegment n segment) :=
  ⟨rfl, rfl, fun _ _ => rfl, le_rfl⟩

theorem moves_same {loc : SegmentLocation} (h : s.segments n = some loc) :
    Moves n (some loc) (s.openList.count n) s s :=
  ⟨by rw [← h, Function.update_eq_self], rfl, fun _ _ => rfl, le_rfl⟩

theorem moves_remove (s : ServerStream) (n : StreamSegmentId) (segment : Option SegmentLocation) :
    Moves n segment 0 s
      { s.setSegment n segment with openList := s.openList.filter (· ≠ n) } where
  segments := rfl
  listed := by simp only [ServerState.count_filter_ne, if_pos]
  listed_of_ne m hm := by simp only [ServerState.count_filter_ne, if_neg hm]
  size := le_rfl

end ServerStream

namespace ServerState

open ServerStream

variable {s s' : ServerState} {n : StreamSegmentId} {loc : SegmentLocation} {id : SegmentId}
  {session : SessionId} {wait : Option WaitId}

theorem moves_registerWait (s : ServerState) (loc : SegmentLocation) (wait : Option WaitId) :
    ∃ waitList, (wait = none → waitList = loc.waitList) ∧
      Moves loc.sequenceNumber (some { loc with waitList := waitList })
        (s.stream.openList.count loc.sequenceNumber) s.stream (s.registerWait loc wait).stream := by
  cases wait with
  | none => exact ⟨loc.waitList, fun _ => rfl, moves_setSegment _ _ _⟩
  | some w => exact ⟨loc.waitList ++ [w], (fun h => by cases h), moves_setSegment _ _ _⟩

theorem moves_addReference (s : ServerState) (session : SessionId) (loc : SegmentLocation) :
    Moves loc.sequenceNumber (some (loc.addReference session))
      (s.stream.openList.count loc.sequenceNumber + 1) s.stream
      (s.addReference session loc).stream where
  segments := rfl
  listed := by simp [addReference]
  listed_of_ne m hm := by simp [addReference, Ne.symm hm]
  size := le_rfl

theorem moves_completeRead_undone (s : ServerState) (loc : SegmentLocation)
    (located success synchronous : Bool) (key : loc.sequenceNumber = n)
    (hlocated : loc.location ≠ none) (undone : located = false ∨ loc.cancel = true)
    (waits : synchronous = true → loc.waitList = []) :
    ∃ loc', loc'.Idle n ∧
      Moves n (some loc') 0 s.stream (s.completeRead loc located success synchronous).stream := by
  subst key
  refine ⟨{ loc with
    id := none, sideId := none, cancel := false
    prefetched := if success then loc.prefetched else false
    referenceCount := 0, referenceMap := 0
    waitList := if synchronous then loc.waitList else [] },
    ⟨⟨⟨rfl, hlocated, rfl, rfl⟩, rfl, rfl⟩, ?_⟩, ?_⟩
  · cases synchronous with
    | true => exact waits rfl
    | false => rfl
  · have hc : (!located || loc.cancel) = true := by
      rcases undone with h | h <;> simp [h]
    unfold completeRead
    rw [if_pos hc]
    exact moves_remove _ _ _

theorem moves_completeRead_loaded (s : ServerState) (loc : SegmentLocation)
    (success synchronous : Bool) (key : loc.sequenceNumber = n) (kept : loc.cancel = false) :
    Moves n (some { loc with
        id := loc.sideId, sideId := none, cancel := false
        waitList := if synchronous then loc.waitList else [] })
      (s.stream.openList.count n) s.stream
      (s.completeRead loc true success synchronous).stream := by
  subst key
  simp only [completeRead, kept, Bool.not_true, Bool.or_false, Bool.false_eq_true, if_false]
  exact moves_setSegment _ _ _

theorem tryProcessWorkItem_readerMain (segment : s.stream.segments n = some loc)
    (located : loc.location ≠ none) (decode : Bool) :
    (s.tryProcessWorkItem fun s => s.readerMain n false decode) =
        s.completeRead loc true true false ∨
      (s.tryProcessWorkItem fun s => s.readerMain n false decode) = s := by
  have hsome : loc.location.isSome = true := Option.isSome_iff_ne_none.mpr located
  have hwith : s.completeSegmentWith n none = none := by
    rw [completeSegmentWith, if_pos (.inr (by rw [segment]; exact located))]
  by_cases hdone : decode = true ∧ s.stream.SegmentIsAllocated n
  · left
    simp [tryProcessWorkItem, readerMain, completeSegment, hdone,
      completeLocked_of_located segment located, segment, hsome]
  · right
    have hnone : (if decode = true then s.completeSegment n else none) = none := by
      split
      · rename_i hd
        exact if_neg fun ha => hdone ⟨hd, ha⟩
      · rfl
    simp [tryProcessWorkItem, readerMain, hnone, hwith]

theorem moves_completeSegmentWith {location : Option StorageLocation}
    (segment : s.stream.segments n = some loc) (key : loc.sequenceNumber = n)
    (new : loc.location = none) (unloaded : loc.id = none)
    (link : ∀ l ∈ location, l.sequenceNumber = n)
    (h : s.completeSegmentWith n location = some s') :
    ∃ segment' : Option SegmentLocation, (∀ loc' ∈ segment', loc'.Idle n) ∧
      Moves n segment' 0 s.stream s'.stream := by
  subst key
  unfold completeSegmentWith at h
  split at h
  · cases h
  · rename_i hguard
    have halloc := not_not.mp (not_or.mp hguard).1
    cases location with
    | none =>
      rw [completeLocked_of_new segment new] at h
      simp only [completeWrite, ServerStream.completeEncoding, Option.bind_eq_bind,
        Option.bind_some] at h
      obtain rfl := Option.some.inj h
      exact ⟨none, (fun _ h => by cases h), moves_remove _ _ _⟩
    | some location =>
      simp only [completeLocked, segment, new, completeWrite, ServerStream.completeEncoding,
        Option.isSome_some, Option.bind_eq_bind, Option.bind_some, Bool.false_eq_true,
        if_false, Option.bind_assoc] at h
      obtain ⟨stream, hadd, h⟩ := Option.bind_eq_some_iff.mp h
      have hkey : location.sequenceNumber = loc.sequenceNumber := link location rfl
      obtain ⟨hsegs, hopen⟩ := ServerStream.addSegment_of_segment hadd (hkey ▸ halloc)
        (hkey ▸ segment)
      rw [hkey] at hsegs
      obtain rfl := Option.some.inj h
      refine ⟨some { loc with
        location := some location.normalize, sideId := none, referenceCount := 0
        referenceMap := 0, cancel := false, waitList := [] }, ?_, ?_⟩
      · rintro loc' hloc'
        obtain rfl := Option.some.inj hloc'
        exact ⟨⟨⟨rfl, Option.some_ne_none _, rfl, rfl⟩, unloaded, rfl⟩, rfl⟩
      · have hm := moves_remove s.stream loc.sequenceNumber (some { loc with
          location := some location.normalize, sideId := none, referenceCount := 0
          referenceMap := 0, cancel := false, waitList := [] })
        refine ⟨?_, ?_, ?_, ?_⟩
        · simp only [ServerStream.setSegment, hsegs, Function.update_self, Function.update_idem,
            Option.map_some]
        · simpa only [hopen] using hm.listed
        · simpa only [hopen] using hm.listed_of_ne
        · exact (ServerStream.addSegment_spec hadd).2.2.2.2.1

theorem moves_writerMain {location : Option StorageLocation}
    (segment : s.stream.segments n = some loc) (key : loc.sequenceNumber = n)
    (new : loc.location = none) (unloaded : loc.id = none)
    (link : ∀ l ∈ location, l.sequenceNumber = n) (h : s.writerMain n location = some s') :
    ∃ segment' : Option SegmentLocation, (∀ loc' ∈ segment', loc'.Idle n) ∧
      Moves n segment' 0 s.stream s'.stream := by
  unfold writerMain at h
  split at h
  · rename_i s'' hwith
    obtain rfl := Option.some.inj h
    split at hwith
    · exact moves_completeSegmentWith segment key new unloaded link hwith
    · cases hwith
  · exact moves_completeSegmentWith segment key new unloaded (fun l hl => by cases hl) h

theorem moves_lookup {handled : Bool} (segment : s.stream.segments n = some loc)
    (key : loc.sequenceNumber = n) (h : s.lookup session n wait = some (s', handled)) :
    loc.location ≠ none ∧ (handled = false ∧ s' = s ∧ loc.referenceCount = 0 ∨
      handled = true ∧ loc.referenceCount ≠ 0 ∧
        ∃ waitList, (loc.id ≠ none → waitList = loc.waitList) ∧
          Moves n (some { loc.shareReference session with waitList := waitList })
            (s.stream.openList.count n) s.stream s'.stream) := by
  subst key
  simp only [lookup, segment, Option.bind_eq_bind, Option.bind_some] at h
  by_cases hnone : loc.sequenceNumber ≥ s.stream.size ∨ loc.location = none
  · rw [if_pos hnone] at h
    cases h
  · rw [if_neg hnone] at h
    refine ⟨fun hl => hnone (.inr hl), ?_⟩
    by_cases hpos : loc.referenceCount > 0
    · rw [if_pos hpos, Option.some.injEq, Prod.mk.injEq] at h
      obtain ⟨rfl, rfl⟩ := h
      obtain ⟨waitList, hwait, hm⟩ := moves_registerWait s (loc.shareReference session)
        (if loc.id = none then wait else none)
      exact .inr ⟨rfl, hpos.ne', waitList, fun hid => hwait (if_neg hid), hm⟩
    · rw [if_neg hpos, Option.some.injEq, Prod.mk.injEq] at h
      obtain ⟨rfl, rfl⟩ := h
      exact .inl ⟨rfl, rfl, Nat.eq_zero_of_not_pos hpos⟩

theorem moves_beginOpen (s : ServerState) (prefetch : Bool) (outcome : OpenOutcome)
    (key : loc.sequenceNumber = n) :
    Moves n (some { loc with prefetched := prefetch, cancel := prefetch, sideId := outcome.id })
      (s.stream.openList.count n) s.stream (s.beginOpen loc prefetch outcome).stream := by
  subst key
  exact moves_setSegment _ _ _

/-- What an `open` that has entered the segment leaves: a segment that is closed, or one that has
the reference of the session. -/
theorem moves_finishOpen {complete : Bool} (key : loc.sequenceNumber = n)
    (located : loc.location ≠ none) (waits : loc.waitList = [])
    (side : loc.id = none ∨ loc.sideId = none) (synchronous : complete = true → loc.id = none)
    (h : s.finishOpen session loc complete wait = some s') :
    (loc.id = none ∧ loc.sideId = none ∧
      Moves n (some { loc with cancel := false, prefetched := false })
        (s.stream.openList.count n) s.stream s'.stream) ∨
    (complete = true ∧ ∃ loc', loc'.Idle n ∧ Moves n (some loc') 0 s.stream s'.stream) ∨
    (∃ loc', loc'.sequenceNumber = n ∧ loc'.location = loc.location ∧
      loc'.referenceCount = loc.referenceCount + 1 ∧
      loc'.referenceMap = session ::ₘ loc.referenceMap ∧ loc'.prefetched = loc.prefetched ∧
      (loc'.id = none ∧ loc'.sideId ≠ none ∧ complete = false ∨
        loc'.id ≠ none ∧ loc'.sideId = none ∧ loc'.waitList = [] ∧
          (complete = true ∨ loc.id ≠ none)) ∧
      Moves n (some loc') (s.stream.openList.count n + 1) s.stream s'.stream) := by
  subst key
  have hadd := moves_addReference s session loc
  cases hid : loc.id with
  | none =>
    cases hside : loc.sideId with
    | none =>
      simp only [finishOpen, hid, hside] at h
      obtain rfl := Option.some.inj h
      exact .inl ⟨rfl, rfl, moves_setSegment _ _ _⟩
    | some id =>
      right
      simp only [finishOpen, hid, hside] at h
      cases complete with
      | false =>
        rw [if_neg Bool.false_ne_true] at h
        obtain rfl := Option.some.inj h
        obtain ⟨waitList, -, hm⟩ := moves_registerWait (s.addReference session loc)
          (loc.addReference session) wait
        refine .inr ⟨{ loc.addReference session with waitList := waitList }, rfl, rfl, rfl, rfl,
          rfl, .inl ⟨hid, ?_, rfl⟩, ?_⟩
        · exact Option.ne_none_iff_exists'.mpr ⟨id, hside⟩
        · exact ⟨(hadd.trans hm).segments, (hadd.trans hm).listed.trans hadd.listed,
            (hadd.trans hm).listed_of_ne, (hadd.trans hm).size⟩
      | true =>
        have hsome : loc.location.isSome = true := Option.isSome_iff_ne_none.mpr located
        rw [if_pos rfl, completeLocked_of_located hadd.segments_self located, hsome] at h
        obtain rfl := Option.some.inj h
        cases hcancel : loc.cancel with
        | true =>
          obtain ⟨loc', hidle, hm⟩ := moves_completeRead_undone (s.addReference session loc)
            (loc.addReference session) true true true rfl located (.inr hcancel) fun _ => waits
          exact .inl ⟨rfl, loc', hidle, hadd.trans hm⟩
        | false =>
          have hm := moves_completeRead_loaded (s.addReference session loc)
            (loc.addReference session) true true rfl hcancel
          refine .inr ⟨{ loc.addReference session with
            id := loc.sideId, sideId := none, cancel := false, waitList := loc.waitList }, rfl, rfl,
            rfl, rfl, rfl, .inr ⟨?_, rfl, waits, .inl rfl⟩, ?_⟩
          · exact Option.ne_none_iff_exists'.mpr ⟨id, hside⟩
          · exact ⟨(hadd.trans hm).segments, (hadd.trans hm).listed.trans hadd.listed,
              (hadd.trans hm).listed_of_ne, (hadd.trans hm).size⟩
  | some id =>
    have hside : loc.sideId = none := side.resolve_left (by rw [hid]; exact Option.some_ne_none _)
    have hcomplete : complete = false := by
      by_contra hc
      cases hid.symm.trans (synchronous (Bool.of_not_eq_false hc))
    simp only [finishOpen, hid, hcomplete, Bool.false_eq_true, if_false] at h
    obtain rfl := Option.some.inj h
    refine .inr (.inr ⟨loc.addReference session, rfl, rfl, rfl, rfl, rfl,
      .inr ⟨?_, hside, waits, .inr (Option.some_ne_none _)⟩, hadd⟩)
    exact Option.ne_none_iff_exists'.mpr ⟨id, hid⟩

def KeepsAppend (n : StreamSegmentId) (s s' : ServerStream) : Prop :=
  (s'.lastAppendSequenceNumber = s.lastAppendSequenceNumber ∧
      s'.lastAppendIndex = s.lastAppendIndex) ∨
    (s.lastAppendSequenceNumber = some n ∧ s'.lastAppendSequenceNumber = none)

theorem moves_finishAppend {segment : Option SegmentLocation} {listed : ℕ}
    {stream : ServerStream} (h : Moves n segment listed stream s.stream) (m : StreamSegmentId)
    (entryCount : ℕ) : Moves n segment listed stream (s.finishAppend m entryCount).stream := by
  unfold finishAppend
  split
  · exact ⟨h.segments, h.listed, h.listed_of_ne, h.size⟩
  · exact h

def Throws (ignoreErrors : Bool) (submit : SubmitOutcome) (loc : SegmentLocation) : Prop :=
  loc.id ≠ none ∧ loc.location = none ∧ submit = .failed ∧ ignoreErrors = false

theorem closeSegment_of_unloaded {ignoreErrors throws : Bool} {submit : SubmitOutcome}
    (key : loc.sequenceNumber = n) (unloaded : loc.id = none)
    (h : s.closeSegment loc wait ignoreErrors submit = (s', throws)) :
    throws = false ∧ KeepsAppend n s.stream s'.stream ∧
      ∃ waitList, Moves n (some { loc with cancel := true, waitList := waitList })
        (s.stream.openList.count n) s.stream s'.stream := by
  subst key
  simp only [closeSegment, unloaded, Prod.mk.injEq] at h
  obtain ⟨rfl, rfl⟩ := h
  obtain ⟨waitList, -, hm⟩ := moves_registerWait s { loc with cancel := true } wait
  refine ⟨rfl, .inl ?_, waitList, by rw [← unloaded]; exact hm⟩
  cases wait <;> exact ⟨rfl, rfl⟩

theorem keepsAppend_finishAppend {stream : ServerStream} {entryCount : ℕ}
    (h : s.stream.lastAppendSequenceNumber = stream.lastAppendSequenceNumber ∧
      s.stream.lastAppendIndex = stream.lastAppendIndex) :
    KeepsAppend n stream (s.finishAppend n entryCount).stream := by
  unfold finishAppend
  split
  · rename_i hlast
    exact .inr ⟨h.1.symm.trans hlast, rfl⟩
  · exact .inl h

theorem lastAppend_completeRead (s : ServerState) (loc : SegmentLocation)
    (located success synchronous : Bool) :
    (s.completeRead loc located success synchronous).stream.lastAppendSequenceNumber =
        s.stream.lastAppendSequenceNumber ∧
      (s.completeRead loc located success synchronous).stream.lastAppendIndex =
        s.stream.lastAppendIndex := by
  unfold completeRead
  dsimp only
  split <;> exact ⟨rfl, rfl⟩

/-- A submission that is completed at once closes a stored segment and deletes a new one. -/
theorem completeLocked_of_submitted {s₀ : ServerState} {success : Bool}
    (key : loc.sequenceNumber = n) (waits : loc.waitList = [])
    (hs : s.stream = s₀.stream.setSegment n (some { loc with sideId := some id, id := none }))
    (h : s.completeLocked n none success true = some s') :
    (s'.stream.lastAppendSequenceNumber = s₀.stream.lastAppendSequenceNumber ∧
      s'.stream.lastAppendIndex = s₀.stream.lastAppendIndex) ∧
    ∃ segment, (∀ loc' ∈ segment, loc'.Idle n) ∧ (loc.location = none → segment = none) ∧
      Moves n segment 0 s₀.stream s'.stream := by
  have hset := moves_setSegment s₀.stream n (some { loc with sideId := some id, id := none })
  rw [← hs] at hset
  by_cases hlocated : loc.location = none
  · rw [completeLocked_of_new hset.segments_self hlocated] at h
    simp only [completeWrite, ServerStream.completeEncoding, Option.bind_eq_bind,
      Option.bind_some] at h
    obtain rfl := Option.some.inj h
    refine ⟨by rw [hs]; exact ⟨rfl, rfl⟩, none, (fun _ h => by cases h), fun _ => rfl, ?_⟩
    rw [key]
    exact hset.trans (moves_remove _ _ _)
  · rw [completeLocked_of_located hset.segments_self hlocated] at h
    obtain rfl := Option.some.inj h
    obtain ⟨loc', hidle, hm⟩ := moves_completeRead_undone s
      { loc with sideId := some id, id := none } false success true key hlocated (.inl rfl)
      fun _ => waits
    refine ⟨?_, some loc', ?_, fun hnone => absurd hnone hlocated, hset.trans hm⟩
    · have hlast := lastAppend_completeRead s { loc with sideId := some id, id := none } false
        success true
      rw [hs] at hlast
      exact hlast
    · rintro _ hloc
      obtain rfl := Option.some.inj hloc
      exact hidle

theorem exists_completeLocked (s s₀ : ServerState) (success : Bool)
    (hs : s.stream = s₀.stream.setSegment n (some loc)) :
    ∃ s', s.completeLocked n none success true = some s' := by
  have hsegment : s.stream.segments n = some loc := by
    rw [hs]
    exact Function.update_self _ _ _
  by_cases hlocated : loc.location = none
  · rw [completeLocked_of_new hsegment hlocated]
    exact ⟨_, rfl⟩
  · rw [completeLocked_of_located hsegment hlocated]
    exact ⟨_, rfl⟩

/-- Submitting a segment that is stored closes it. One that is new is deleted or encoded, unless the
submission throws. -/
theorem closeSegment_of_loaded {ignoreErrors throws : Bool} {submit : SubmitOutcome}
    (key : loc.sequenceNumber = n) (loaded : loc.id = some id) (waits : loc.waitList = [])
    (submittable : Execution.Submittable loc submit)
    (h : s.closeSegment loc wait ignoreErrors submit = (s', throws)) :
    (throws = true ∧ Throws ignoreErrors submit loc ∧ s' = s) ∨
    (throws = false ∧ ¬ Throws ignoreErrors submit loc ∧ KeepsAppend n s.stream s'.stream ∧
      ((∃ segment, (∀ loc' ∈ segment, loc'.Idle n) ∧
          (loc.location = none → segment = none) ∧ Moves n segment 0 s.stream s'.stream) ∨
        (loc.location = none ∧ ∃ waitList,
          Moves n (some { loc with id := none, sideId := some id, waitList := waitList })
            (s.stream.openList.count n) s.stream s'.stream))) := by
  subst key
  have hid : loc.id ≠ none := by
    rw [loaded]
    exact Option.some_ne_none _
  simp only [closeSegment, loaded] at h
  cases submit with
  | failed =>
    dsimp only at h
    by_cases hthrow : (!ignoreErrors && loc.location.isNone) = true
    · rw [if_pos hthrow, Prod.mk.injEq] at h
      obtain ⟨rfl, rfl⟩ := h
      rw [Bool.and_eq_true, Bool.not_eq_true', Option.isNone_iff_eq_none] at hthrow
      exact .inl ⟨rfl, ⟨hid, hthrow.2, rfl, hthrow.1⟩, rfl⟩
    · rw [if_neg hthrow] at h
      obtain ⟨s₁, hs₁⟩ := exists_completeLocked
        { s with
          stream := s.stream.setSegment loc.sequenceNumber
            (some { loc with sideId := some id, id := none }) } s false rfl
      rw [hs₁, Prod.mk.injEq] at h
      obtain ⟨rfl, rfl⟩ := h
      obtain ⟨hlast, segment, hidle, hdeleted, hm⟩ :=
        completeLocked_of_submitted rfl waits rfl hs₁
      refine .inr ⟨rfl, fun ht => hthrow ?_, keepsAppend_finishAppend hlast,
        .inl ⟨segment, hidle, hdeleted, moves_finishAppend hm _ _⟩⟩
      rw [Bool.and_eq_true, Bool.not_eq_true', Option.isNone_iff_eq_none]
      exact ⟨ht.2.2.2, ht.2.1⟩
  | complete location =>
    obtain rfl : location = none := submittable
    dsimp only at h
    obtain ⟨s₁, hs₁⟩ := exists_completeLocked
      { s with
        stream := s.stream.setSegment loc.sequenceNumber
          (some { loc with sideId := some id, id := none })
        buffer := releaseBuffer s.buffer (some id) } s true rfl
    rw [hs₁, Prod.mk.injEq] at h
    obtain ⟨rfl, rfl⟩ := h
    obtain ⟨hlast, segment, hidle, hdeleted, hm⟩ := completeLocked_of_submitted rfl waits rfl hs₁
    exact .inr ⟨rfl, (fun ht => by cases ht.2.2.1), keepsAppend_finishAppend hlast,
      .inl ⟨segment, hidle, hdeleted, moves_finishAppend hm _ _⟩⟩
  | pending entryCount =>
    obtain ⟨waitList, -, hm⟩ := moves_registerWait s { loc with sideId := some id, id := none } wait
    rw [Prod.mk.injEq] at h
    obtain ⟨rfl, rfl⟩ := h
    refine .inr ⟨rfl, (fun ht => by cases ht.2.2.1), keepsAppend_finishAppend ?_,
      .inr ⟨submittable, waitList, moves_finishAppend hm _ _⟩⟩
    cases wait <;> exact ⟨rfl, rfl⟩

end ServerState

end Simutrace
